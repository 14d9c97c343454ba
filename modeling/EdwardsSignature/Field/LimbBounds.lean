import EdwardsSignature.Field.Limbs
import EdwardsSignature.Limb.Lawful

/-! Bounds that the limb operations keep.

For limbs within their widths, the product stays below `2 ^ 59` in magnitude and the
carry pass brings anything below `2 ^ 60` back within the widths. Every step is exact
at any lawful word of 64 bits, so nothing overflows on the way. -/
set_option autoImplicit false
namespace EdwardsSignature

/-! Powers are core's here, whatever other instances are in scope. -/
attribute [local instance (high)] instPowNat

namespace Limbs

variable {α : Type} [LimbWord α] [LawfulLimbWord α 64]

def AllBounded (limbs : Limbs α) (values : Limbs Int) (bounds : Position → Nat) : Prop :=
  ∀ position, Bounded (limbs.get position) (values.get position) (bounds position)

/-- The nearest quotient by `2 * half` and what it leaves. -/
theorem rounding_within {x : Int} {magnitude half : Nat} (positive : 0 < half)
    (within : x.natAbs ≤ magnitude) :
    ((x + half) / (2 * half : Nat)).natAbs ≤ (magnitude + half) / (2 * half) ∧
      (x - (x + half) / (2 * half : Nat) * (2 * half : Nat)).natAbs ≤ half := by
  have divisor : (0 : Int) < (2 * half : Nat) := by omega
  have lower := Int.ediv_mul_le (x + half) (Int.ne_of_gt divisor)
  have upper := Int.lt_ediv_add_one_mul_self (x + half) divisor
  rw [Int.add_mul, Int.one_mul] at upper
  constructor
  · rw [Nat.le_div_iff_mul_le (by omega)]
    have scaled : ((x + half) / (2 * half : Nat)).natAbs * (2 * half) =
        ((x + half) / (2 * half : Nat) * (2 * half : Nat)).natAbs := by
      rw [Int.natAbs_mul, Int.natAbs_natCast]
    omega
  · omega

def carryBounds (position : Position) (bounds : Position → Nat) (other : Position) : Nat :=
  let half := 2 ^ (position.width - 1)
  let carried := (bounds position + half) / (2 * half)
  if other = position.next then
    bounds other + carried * (if position = .p9 then 19 else 1)
  else if other = position then half
  else bounds other

theorem bounded_wrapped {word : α} {x : Int} {magnitude : Nat} (position : Position)
    (known : Bounded word x magnitude) (fits : magnitude * 19 < 2 ^ (63 : Nat)) :
    Bounded (wrapped position word) (wrapped position x)
      (magnitude * (if position = .p9 then 19 else 1)) := by
  cases position
  case p9 => exact known.mul (.literal 19 (by decide)) fits
  all_goals
    rw [if_neg (by decide), Nat.mul_one]
    exact known

theorem bounded_roundedQuotient {word : α} {x : Int} {magnitude : Nat} (position : Position)
    (known : Bounded word x magnitude) (fits : magnitude ≤ 2 ^ (62 : Nat)) :
    Bounded (roundedQuotient position.width word) (roundedQuotient position.width x)
      ((magnitude + 2 ^ (position.width - 1)) / (2 * 2 ^ (position.width - 1))) := by
  have narrow : position.width - 1 ≤ 25 ∧ 2 * 2 ^ (position.width - 1) = 2 ^ position.width := by
    cases position <;> decide
  have half : 2 ^ (position.width - 1) ≤ 2 ^ (25 : Nat) := Nat.pow_le_pow_right (by decide) narrow.1
  have rounded := (Bounded.literal (α := α) 1 (by decide)).shiftLeft (position.width - 1) (by omega)
    (by simp only [Int.natAbs_one, Nat.one_mul]; omega)
  have raised := known.add rounded (by simp only [Int.natAbs_one, Nat.one_mul]; omega)
  have within := (rounding_within (Nat.two_pow_pos (position.width - 1)) known.within).1
  rw [narrow.2] at within ⊢
  refine raised.shiftRight position.width ?_ (by omega) ?_
  · simpa using within
  · exact Nat.lt_of_le_of_lt (Nat.div_le_self _ _) (by omega)

theorem bounded_remainder {word : α} {x : Int} {magnitude : Nat} (position : Position)
    (known : Bounded word x magnitude) (fits : magnitude ≤ 2 ^ (62 : Nat)) :
    Bounded (word - LimbWord.shiftLeft (roundedQuotient position.width word) position.width)
      (x - LimbWord.shiftLeft (roundedQuotient position.width x) position.width)
      (2 ^ (position.width - 1)) := by
  have narrow : position.width < 64 ∧ 2 ^ (position.width - 1) ≤ 2 ^ (25 : Nat) ∧
      2 * 2 ^ (position.width - 1) = 2 ^ position.width := by
    cases position <;> decide
  have within := (rounding_within (Nat.two_pow_pos (position.width - 1)) known.within).2
  have carried := bounded_roundedQuotient position known fits
  rw [narrow.2.2] at within carried
  have back := Nat.div_mul_le_self (magnitude + 2 ^ (position.width - 1)) (2 ^ position.width)
  have shifted := carried.shiftLeft position.width narrow.1 (by omega)
  have exact : x - roundedQuotient position.width x * 2 ^ position.width =
      x - (x + (2 ^ (position.width - 1) : Nat)) / (2 ^ position.width : Nat) *
        (2 ^ position.width : Nat) := by
    simp [roundedQuotient, LimbWord.shiftRight, LimbWord.shiftLeft, LimbWord.literal]
  have small : (x - roundedQuotient position.width x * 2 ^ position.width).natAbs ≤
      2 ^ (position.width - 1) := by
    rw [exact]
    exact within
  have inside := Bounded.inRange (Nat.lt_of_le_of_lt small (by omega))
  exact ⟨LawfulLimbWord.sub known.denotes shifted.denotes inside, small⟩

theorem AllBounded.carryAt {limbs : Limbs α} {values : Limbs Int} {bounds : Position → Nat}
    (known : AllBounded limbs values bounds) (position : Position)
    (fits : bounds position ≤ 2 ^ (62 : Nat) := by decide)
    (room : carryBounds position bounds position.next < 2 ^ (63 : Nat) := by decide) :
    AllBounded (limbs.carryAt position) (values.carryAt position)
      (carryBounds position bounds) := by
  have carried := bounded_roundedQuotient position (known position) fits
  have distinct := position.next_ne
  have wrap : (bounds position + 2 ^ (position.width - 1)) / (2 * 2 ^ (position.width - 1)) * 19
      < 2 ^ (63 : Nat) := by
    cases position <;> simp only [Position.width] at fits ⊢ <;> omega
  intro other
  simp only [Limbs.carryAt, get_modify, carryBounds]
  by_cases arrives : other = position.next
  · subst arrives
    simp only [carryBounds, ↓reduceIte] at room
    simp only [↓reduceIte, distinct]
    exact (known position.next).add (bounded_wrapped position carried wrap) room
  · by_cases leaves : other = position
    · subst leaves
      simp only [↓reduceIte, arrives]
      exact bounded_remainder other (known other) fits
    · simp only [arrives, leaves, ↓reduceIte]
      exact known other

/-- The bounds after the whole carry pass, when every limb is below `2 ^ 60` before it. -/
def passBounds : Position → Nat :=
  (fun _ => 2 ^ (60 : Nat))
    |> carryBounds .p0 |> carryBounds .p4 |> carryBounds .p1 |> carryBounds .p5
    |> carryBounds .p2 |> carryBounds .p6 |> carryBounds .p3 |> carryBounds .p7
    |> carryBounds .p4 |> carryBounds .p8 |> carryBounds .p9 |> carryBounds .p0

theorem passBounds_le (position : Position) : passBounds position ≤ bound position := by
  cases position <;> decide

/-- The carry pass is exact and brings every limb back within its width. -/
theorem AllBounded.carry {limbs : Limbs α} {values : Limbs Int}
    (known : AllBounded limbs values fun _ => 2 ^ (60 : Nat)) :
    AllBounded limbs.carry values.carry bound := by
  have passed : AllBounded limbs.carry values.carry passBounds :=
    known.carryAt .p0 |>.carryAt .p4 |>.carryAt .p1 |>.carryAt .p5 |>.carryAt .p2 |>.carryAt .p6
      |>.carryAt .p3 |>.carryAt .p7 |>.carryAt .p4 |>.carryAt .p8 |>.carryAt .p9 |>.carryAt .p0
  exact fun position => (passed position).weaken (passBounds_le position)

/-- The bounds after decoding's carry pass, when every limb is at most `2 ^ 32` before it. -/
def settleBounds : Position → Nat :=
  (fun _ => 2 ^ (32 : Nat))
    |> carryBounds .p1 |> carryBounds .p3 |> carryBounds .p5 |> carryBounds .p7
    |> carryBounds .p9 |> carryBounds .p0 |> carryBounds .p2 |> carryBounds .p4
    |> carryBounds .p6 |> carryBounds .p8

theorem settleBounds_le (position : Position) : settleBounds position ≤ bound position := by
  cases position <;> decide

theorem AllBounded.settle {limbs : Limbs α} {values : Limbs Int}
    (known : AllBounded limbs values fun _ => 2 ^ (32 : Nat)) :
    AllBounded limbs.settle values.settle bound := by
  have settled : AllBounded limbs.settle values.settle settleBounds :=
    known.carryAt .p1 |>.carryAt .p3 |>.carryAt .p5 |>.carryAt .p7 |>.carryAt .p9
      |>.carryAt .p0 |>.carryAt .p2 |>.carryAt .p4 |>.carryAt .p6 |>.carryAt .p8
  exact fun position => (settled position).weaken (settleBounds_le position)

/-- Four bytes at most go into a limb, so decoding has room for its carries. -/
theorem gather_le (bytes : Bytes) (position : Position) :
    (gather bytes position).toNat ≤ 2 ^ (32 : Nat) := by
  have scale : (UInt64.ofNat position.lead).toNat % 64 = position.lead ∧
      8 * position.byteCount + position.lead ≤ 32 := by
    cases position <;> decide
  have loaded := BitField.toNat_word_lt position.byteCount (bytes.drop position.firstByte)
  unfold gather
  generalize BitField.word position.byteCount (bytes.drop position.firstByte) = word at loaded
  have kept : (if position = .p9 then word &&& 0x7fffff else word).toNat ≤ word.toNat := by
    split
    · rw [UInt64.toNat_and]
      exact Nat.and_le_left
    · exact Nat.le_refl _
  have shifted := BitField.toNat_shiftLeft_le
    (if position = .p9 then word &&& 0x7fffff else word) (UInt64.ofNat position.lead)
  rw [scale.1] at shifted
  calc
    _ ≤ _ := shifted
    _ ≤ 2 ^ (8 * position.byteCount) * 2 ^ position.lead :=
      Nat.mul_le_mul_right _ (Nat.le_trans kept (Nat.le_of_lt loaded))
    _ = 2 ^ (8 * position.byteCount + position.lead) := (Nat.pow_add _ _ _).symm
    _ ≤ 2 ^ 32 := Nat.pow_le_pow_right (by decide) scale.2

theorem decode_allBounded (bytes : Bytes) :
    AllBounded (decode α bytes) (decode Int bytes) bound := by
  apply AllBounded.settle
  intro position
  have small := gather_le bytes position
  rw [get_ofFn, get_ofFn]
  refine (Bounded.literal _ ?_).weaken ?_
  · rw [Int.natAbs_natCast]
    exact Nat.lt_of_le_of_lt small (by decide)
  · rw [Int.natAbs_natCast]
    exact small

end Limbs

namespace Bounded

variable {α : Type} [LimbWord α] [LawfulLimbWord α 64] {word : α} {x : Int} {magnitude : Nat}

theorem twice (known : Bounded word x magnitude)
    (fits : magnitude * 2 < 2 ^ (63 : Nat) := by decide) :
    Bounded (Limbs.twice word) (Limbs.twice x) (magnitude * 2) :=
  known.mul (.literal 2 (by decide)) fits

theorem around (known : Bounded word x magnitude)
    (fits : magnitude * 19 < 2 ^ (63 : Nat) := by decide) :
    Bounded (Limbs.around word) (Limbs.around x) (magnitude * 19) :=
  known.mul (.literal 19 (by decide)) fits

end Bounded

namespace Limbs

variable {α : Type} [LimbWord α] [LawfulLimbWord α 64]

/-- The product of limbs within their widths is exact and stays below `2 ^ 59`. -/
theorem AllBounded.product {left right : Limbs α} {leftValues rightValues : Limbs Int}
    (f : AllBounded left leftValues bound) (g : AllBounded right rightValues bound) :
    AllBounded (left.product right) (leftValues.product rightValues) fun _ => 2 ^ (59 : Nat) := by
  intro position
  cases position
  case p0 =>
    exact Bounded.weaken (((f .p0).mul (g .p0))
      |>.add ((f .p1).mul (g .p9)).twice.around |>.add ((f .p2).mul (g .p8)).around
      |>.add ((f .p3).mul (g .p7)).twice.around |>.add ((f .p4).mul (g .p6)).around
      |>.add ((f .p5).mul (g .p5)).twice.around |>.add ((f .p6).mul (g .p4)).around
      |>.add ((f .p7).mul (g .p3)).twice.around |>.add ((f .p8).mul (g .p2)).around
      |>.add ((f .p9).mul (g .p1)).twice.around)
  case p1 =>
    exact Bounded.weaken (((f .p0).mul (g .p1))
      |>.add ((f .p1).mul (g .p0)) |>.add ((f .p2).mul (g .p9)).around
      |>.add ((f .p3).mul (g .p8)).around |>.add ((f .p4).mul (g .p7)).around
      |>.add ((f .p5).mul (g .p6)).around |>.add ((f .p6).mul (g .p5)).around
      |>.add ((f .p7).mul (g .p4)).around |>.add ((f .p8).mul (g .p3)).around
      |>.add ((f .p9).mul (g .p2)).around)
  case p2 =>
    exact Bounded.weaken (((f .p0).mul (g .p2))
      |>.add ((f .p1).mul (g .p1)).twice |>.add ((f .p2).mul (g .p0))
      |>.add ((f .p3).mul (g .p9)).twice.around |>.add ((f .p4).mul (g .p8)).around
      |>.add ((f .p5).mul (g .p7)).twice.around |>.add ((f .p6).mul (g .p6)).around
      |>.add ((f .p7).mul (g .p5)).twice.around |>.add ((f .p8).mul (g .p4)).around
      |>.add ((f .p9).mul (g .p3)).twice.around)
  case p3 =>
    exact Bounded.weaken (((f .p0).mul (g .p3))
      |>.add ((f .p1).mul (g .p2)) |>.add ((f .p2).mul (g .p1)) |>.add ((f .p3).mul (g .p0))
      |>.add ((f .p4).mul (g .p9)).around |>.add ((f .p5).mul (g .p8)).around
      |>.add ((f .p6).mul (g .p7)).around |>.add ((f .p7).mul (g .p6)).around
      |>.add ((f .p8).mul (g .p5)).around |>.add ((f .p9).mul (g .p4)).around)
  case p4 =>
    exact Bounded.weaken (((f .p0).mul (g .p4))
      |>.add ((f .p1).mul (g .p3)).twice |>.add ((f .p2).mul (g .p2))
      |>.add ((f .p3).mul (g .p1)).twice |>.add ((f .p4).mul (g .p0))
      |>.add ((f .p5).mul (g .p9)).twice.around |>.add ((f .p6).mul (g .p8)).around
      |>.add ((f .p7).mul (g .p7)).twice.around |>.add ((f .p8).mul (g .p6)).around
      |>.add ((f .p9).mul (g .p5)).twice.around)
  case p5 =>
    exact Bounded.weaken (((f .p0).mul (g .p5))
      |>.add ((f .p1).mul (g .p4)) |>.add ((f .p2).mul (g .p3)) |>.add ((f .p3).mul (g .p2))
      |>.add ((f .p4).mul (g .p1)) |>.add ((f .p5).mul (g .p0))
      |>.add ((f .p6).mul (g .p9)).around |>.add ((f .p7).mul (g .p8)).around
      |>.add ((f .p8).mul (g .p7)).around |>.add ((f .p9).mul (g .p6)).around)
  case p6 =>
    exact Bounded.weaken (((f .p0).mul (g .p6))
      |>.add ((f .p1).mul (g .p5)).twice |>.add ((f .p2).mul (g .p4))
      |>.add ((f .p3).mul (g .p3)).twice |>.add ((f .p4).mul (g .p2))
      |>.add ((f .p5).mul (g .p1)).twice |>.add ((f .p6).mul (g .p0))
      |>.add ((f .p7).mul (g .p9)).twice.around |>.add ((f .p8).mul (g .p8)).around
      |>.add ((f .p9).mul (g .p7)).twice.around)
  case p7 =>
    exact Bounded.weaken (((f .p0).mul (g .p7))
      |>.add ((f .p1).mul (g .p6)) |>.add ((f .p2).mul (g .p5)) |>.add ((f .p3).mul (g .p4))
      |>.add ((f .p4).mul (g .p3)) |>.add ((f .p5).mul (g .p2)) |>.add ((f .p6).mul (g .p1))
      |>.add ((f .p7).mul (g .p0)) |>.add ((f .p8).mul (g .p9)).around
      |>.add ((f .p9).mul (g .p8)).around)
  case p8 =>
    exact Bounded.weaken (((f .p0).mul (g .p8))
      |>.add ((f .p1).mul (g .p7)).twice |>.add ((f .p2).mul (g .p6))
      |>.add ((f .p3).mul (g .p5)).twice |>.add ((f .p4).mul (g .p4))
      |>.add ((f .p5).mul (g .p3)).twice |>.add ((f .p6).mul (g .p2))
      |>.add ((f .p7).mul (g .p1)).twice |>.add ((f .p8).mul (g .p0))
      |>.add ((f .p9).mul (g .p9)).twice.around)
  case p9 =>
    exact Bounded.weaken (((f .p0).mul (g .p9))
      |>.add ((f .p1).mul (g .p8)) |>.add ((f .p2).mul (g .p7)) |>.add ((f .p3).mul (g .p6))
      |>.add ((f .p4).mul (g .p5)) |>.add ((f .p5).mul (g .p4)) |>.add ((f .p6).mul (g .p3))
      |>.add ((f .p7).mul (g .p2)) |>.add ((f .p8).mul (g .p1)) |>.add ((f .p9).mul (g .p0)))

end Limbs

end EdwardsSignature
