import Mathlib
import EdwardsSignature.Field.Residue
import EdwardsSignature.Proofs.Field.AdditionChain
import EdwardsSignature.Proofs.Field.Lawful

/-! Least residues are an exact representation of the base field. -/

set_option autoImplicit false

namespace EdwardsSignature.Residue

def residue (element : Residue) : ZMod fieldPrime := element.value

theorem residue_ofNat (number : Nat) : (ofNat number).residue = number :=
  ZMod.natCast_mod number fieldPrime

theorem residue_add (left right : Residue) :
    (left.add right).residue = left.residue + right.residue := by
  rw [add, residue_ofNat, Nat.cast_add]
  rfl

theorem residue_sub (left right : Residue) :
    (left.sub right).residue = left.residue - right.residue := by
  have below := right.reduced
  rw [sub, residue_ofNat, Nat.cast_sub (by omega), Nat.cast_add, ZMod.natCast_self, add_zero]
  rfl

theorem residue_neg (element : Residue) : element.neg.residue = -element.residue := by
  have below := element.reduced
  rw [neg, residue_ofNat, Nat.cast_sub (by omega), ZMod.natCast_self, zero_sub]
  rfl

theorem residue_mul (left right : Residue) :
    (left.mul right).residue = left.residue * right.residue := by
  rw [mul, residue_ofNat, Nat.cast_mul]
  rfl

theorem residue_doubleSquare (element : Residue) :
    element.doubleSquare.residue = 2 * element.residue ^ 2 := by
  rw [doubleSquare, residue_ofNat, Nat.cast_mul, Nat.cast_mul, pow_two]
  rfl

theorem residue_powerAlong (base : Residue) (bits : List Bool) :
    (base.powerAlong bits.reverse).residue = base.residue ^ bitsValue bits := by
  rw [powerAlong, List.foldl_reverse]
  induction bits with
  | nil => exact (residue_ofNat 1).trans Nat.cast_one
  | cons bit rest ih =>
      rw [List.foldr_cons]
      cases bit with
      | false => simp [residue_mul, ih, bitsValue, two_mul, pow_add]
      | true =>
          simp only [↓reduceIte, residue_mul, ih, bitsValue, Bool.toNat_true]
          ring

theorem residue_powerAlong_exponentBits (base : Residue) {exponent : Nat}
    (fits : exponent < 2 ^ 255) :
    (base.powerAlong (exponentBits exponent)).residue = base.residue ^ exponent := by
  rw [exponentBits, List.map_reverse, residue_powerAlong, bitsValue_testBits,
    Nat.mod_eq_of_lt fits]

theorem residue_invert (element : Residue) : element.invert.residue = element.residue⁻¹ := by
  rw [invert, inversionBits, residue_powerAlong_exponentBits _ (by decide),
    pow_fieldPrime_sub_two]

theorem residue_rootPower (element : Residue) :
    element.rootPower.residue = element.residue ^ ((fieldPrime - 5) / 8) := by
  rw [rootPower, rootBits, residue_powerAlong_exponentBits _ (by decide)]

theorem residue_select (unset set : Residue) (bit : UInt8) :
    (unset.select set bit).residue = if bit &&& 1 = 1 then set.residue else unset.residue := by
  simp only [select, beq_iff_eq]
  split <;> rfl

theorem toNat_toBlock (element : Residue) : element.toBlock.toNat = element.residue.val := by
  have below := element.reduced
  have fits : element.value < 256 ^ 32 := Nat.lt_of_lt_of_le below (by decide)
  rw [toBlock, Block.toNat_ofNat_of_lt fits, residue, val_natCast_of_lt below]

theorem residue_inj {left right : Residue} :
    left.residue = right.residue ↔ left.value = right.value := by
  constructor
  · intro same
    have values := congrArg ZMod.val same
    rwa [residue, residue, val_natCast_of_lt left.reduced, val_natCast_of_lt right.reduced]
      at values
  · intro same
    rw [residue, residue, same]

theorem isNonZero_iff (element : Residue) : element.isNonZero = true ↔ element.residue ≠ 0 := by
  have zero : (ofNat 0).residue = 0 := (residue_ofNat 0).trans Nat.cast_zero
  rw [isNonZero, bne_iff_ne, Ne, Ne, ← zero, residue_inj]
  rfl

theorem same_iff (left right : Residue) :
    left.same right = true ↔ left.residue = right.residue := by
  rw [same, beq_iff_eq, residue_inj]

instance lawful : LawfulBaseField Residue where
  value := residue
  value_zero := (residue_ofNat 0).trans Nat.cast_zero
  value_one := (residue_ofNat 1).trans Nat.cast_one
  value_add := residue_add
  value_sub := residue_sub
  value_neg := residue_neg
  value_mul := residue_mul
  value_square element := (residue_mul element element).trans (pow_two _).symm
  value_doubleSquare := residue_doubleSquare
  value_invert := residue_invert
  value_rootPower := residue_rootPower
  value_select := residue_select
  value_ofBlock _ := residue_ofNat _
  toNat_toBlock := toNat_toBlock
  isNonZero_iff := isNonZero_iff
  same_iff := same_iff

end EdwardsSignature.Residue
