import Mathlib
import EdwardsSignature.Field.LimbElement
import EdwardsSignature.Proofs.Primality

/-! The residue that ten limbs stand for, and what limb arithmetic does to it.

Carries out of any but the top position keep the integer; what leaves the top comes back
as `19` at the bottom and keeps the residue. -/

set_option autoImplicit false

namespace EdwardsSignature

theorem two_pow_255 : (2 : ZMod fieldPrime) ^ 255 = 19 := by
  have exact : 2 ^ 255 ≡ 19 [MOD fieldPrime] := by decide
  exact_mod_cast (ZMod.natCast_eq_natCast_iff _ _ _).mpr exact

theorem fieldPrime_eq : (fieldPrime : Int) = 2 ^ 255 - 19 := by
  norm_num [fieldPrime]

namespace Limbs

theorem value_eq (limbs : Limbs Int) : limbs.value =
    limbs.l0 + limbs.l1 * 2 ^ 26 + limbs.l2 * 2 ^ 51 + limbs.l3 * 2 ^ 77 + limbs.l4 * 2 ^ 102 +
      limbs.l5 * 2 ^ 128 + limbs.l6 * 2 ^ 153 + limbs.l7 * 2 ^ 179 + limbs.l8 * 2 ^ 204 +
      limbs.l9 * 2 ^ 230 := by
  simp only [value, Position.all, List.foldr_cons, List.foldr_nil, get, Position.offset]
  ring

def residue (limbs : Limbs Int) : ZMod fieldPrime := (limbs.value : ZMod fieldPrime)

theorem residue_eq (limbs : Limbs Int) : limbs.residue =
    limbs.l0 + limbs.l1 * 2 ^ 26 + limbs.l2 * 2 ^ 51 + limbs.l3 * 2 ^ 77 + limbs.l4 * 2 ^ 102 +
      limbs.l5 * 2 ^ 128 + limbs.l6 * 2 ^ 153 + limbs.l7 * 2 ^ 179 + limbs.l8 * 2 ^ 204 +
      limbs.l9 * 2 ^ 230 := by
  rw [residue, value_eq]
  push_cast
  ring

section Exact

theorem shiftLeft_exact (x : Int) (amount : Nat) : LimbWord.shiftLeft x amount = x * 2 ^ amount :=
  rfl

theorem shiftRight_exact (x : Int) (amount : Nat) :
    LimbWord.shiftRight x amount = x / 2 ^ amount := rfl

theorem literal_exact (x : Int) : (LimbWord.literal x : Int) = x := rfl

theorem twice_exact (x : Int) : twice x = x * 2 := rfl

theorem around_exact (x : Int) : around x = x * 19 := rfl

end Exact

theorem residue_carryAt (position : Position) (limbs : Limbs Int) :
    (limbs.carryAt position).residue = limbs.residue := by
  unfold carryAt
  generalize roundedQuotient position.width (limbs.get position) = carried
  cases position
  case p9 =>
    simp only [modify, Position.next, Position.width, wrapped, shiftLeft_exact, literal_exact,
      residue_eq]
    push_cast
    linear_combination -(carried : ZMod fieldPrime) * two_pow_255
  all_goals
    simp only [modify, Position.next, Position.width, wrapped, shiftLeft_exact, residue_eq]
    push_cast
    ring

theorem residue_carry (limbs : Limbs Int) : limbs.carry.residue = limbs.residue := by
  simp only [carry, residue_carryAt]

theorem residue_settle (limbs : Limbs Int) : limbs.settle.residue = limbs.residue := by
  simp only [settle, residue_carryAt]

/-- The part of a product that lies beyond the top position, as a multiple of `2 ^ 255`. -/
def overflow (f g : Limbs Int) : Int :=
    (2 * f.l1 * g.l9 + f.l2 * g.l8 + 2 * f.l3 * g.l7 + f.l4 * g.l6 + 2 * f.l5 * g.l5 + f.l6
      * g.l4 + 2 * f.l7 * g.l3 + f.l8 * g.l2 + 2 * f.l9 * g.l1) + (f.l2 * g.l9 + f.l3 * g.l8 +
      f.l4 * g.l7 + f.l5 * g.l6 + f.l6 * g.l5 + f.l7 * g.l4 + f.l8 * g.l3 + f.l9 * g.l2) * 2 ^
      26 + (2 * f.l3 * g.l9 + f.l4 * g.l8 + 2 * f.l5 * g.l7 + f.l6 * g.l6 + 2 * f.l7 * g.l5 +
      f.l8 * g.l4 + 2 * f.l9 * g.l3) * 2 ^ 51 + (f.l4 * g.l9 + f.l5 * g.l8 + f.l6 * g.l7 +
      f.l7 * g.l6 + f.l8 * g.l5 + f.l9 * g.l4) * 2 ^ 77 + (2 * f.l5 * g.l9 + f.l6 * g.l8 + 2 *
      f.l7 * g.l7 + f.l8 * g.l6 + 2 * f.l9 * g.l5) * 2 ^ 102 + (f.l6 * g.l9 + f.l7 * g.l8 +
      f.l8 * g.l7 + f.l9 * g.l6) * 2 ^ 128 + (2 * f.l7 * g.l9 + f.l8 * g.l8 + 2 * f.l9 * g.l7)
      * 2 ^ 153 + (f.l8 * g.l9 + f.l9 * g.l8) * 2 ^ 179 + 2 * f.l9 * g.l9 * 2 ^ 204

theorem value_mul_value (f g : Limbs Int) :
    f.value * g.value = (f.product g).value + f.overflow g * fieldPrime := by
  rw [fieldPrime_eq]
  simp only [value_eq, product, twice_exact, around_exact, overflow]
  ring

theorem residue_product (f g : Limbs Int) : (f.product g).residue = f.residue * g.residue := by
  have parts := congrArg (Int.cast : Int → ZMod fieldPrime) (value_mul_value f g)
  push_cast at parts
  rw [CharP.cast_eq_zero, mul_zero, add_zero] at parts
  exact parts.symm

theorem residue_sum (f g : Limbs Int) : (f.sum g).residue = f.residue + g.residue := by
  rw [sum, residue_carry]
  simp only [residue_eq, zipWith]
  push_cast
  ring

theorem residue_difference (f g : Limbs Int) : (f.difference g).residue = f.residue - g.residue := by
  rw [difference, residue_carry]
  simp only [residue_eq, zipWith]
  push_cast
  ring

theorem residue_carriedProduct (f g : Limbs Int) :
    (f.carriedProduct g).residue = f.residue * g.residue := by
  rw [carriedProduct, residue_carry, residue_product]

theorem residue_doubledSquare (f : Limbs Int) : f.doubledSquare.residue = 2 * f.residue ^ 2 := by
  rw [doubledSquare, residue_carry, pow_two, ← residue_product]
  simp only [residue_eq, map, shiftLeft_exact]
  push_cast
  ring

end Limbs

end EdwardsSignature
