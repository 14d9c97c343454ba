import Mathlib
import EdwardsSignature.Proofs.Field.LimbElement

/-! What the encoding of an element shows.

Limbs write an integer in many ways. The encoding is that of the integer's least residue, so it
forgets how the limbs were chosen, and everything else that can be asked of an element is read off
the encoding. -/

set_option autoImplicit false

namespace EdwardsSignature

open BaseField

namespace LimbElement

/-- The integer that the limbs write: limb `i` counts from bit `⌈25.5 · i⌉` on. -/
def integer (element : LimbElement) : Int := element.limbs.toInts.value

theorem residue_eq_iff (element other : LimbElement) :
    element.residue = other.residue ↔ element.integer ≡ other.integer [ZMOD fieldPrime] :=
  ZMod.intCast_eq_intCast_iff _ _ _

theorem same_iff (element other : LimbElement) :
    element.same other = true ↔ element.residue = other.residue :=
  Block.equal_iff_of_val (toNat_toBlock_eq_val element) (toNat_toBlock_eq_val other)

theorem toBlock_eq_iff (element other : LimbElement) :
    element.toBlock = other.toBlock ↔ element.residue = other.residue :=
  Block.eq_iff_of_val (toNat_toBlock_eq_val element) (toNat_toBlock_eq_val other)

theorem residue_ne_zero_iff (element : LimbElement) :
    element.residue ≠ 0 ↔ ¬(fieldPrime : Int) ∣ element.integer := by
  rw [Ne, residue, Limbs.residue, ZMod.intCast_zmod_eq_zero_iff_dvd]
  rfl

theorem toNat_toBlock_modEq (element : LimbElement) :
    (element.toBlock.toNat : Int) ≡ element.integer [ZMOD fieldPrime] := by
  rw [toNat_toBlock]
  exact Int.mod_modEq _ _

theorem toNat_toBlock_lt (element : LimbElement) : element.toBlock.toNat < fieldPrime := by
  have below := Int.emod_lt_of_pos element.limbs.toInts.value
    (by decide : (0 : Int) < fieldPrime)
  rw [← toNat_toBlock] at below
  exact_mod_cast below

/-- There is no other integer in the range that the limbs could have been meant to write. -/
theorem eq_toNat_toBlock {element : LimbElement} {least : Int} (nonneg : 0 ≤ least)
    (below : least < fieldPrime) (same : least ≡ element.integer [ZMOD fieldPrime]) :
    least = element.toBlock.toNat := by
  rw [toNat_toBlock, ← Int.emod_eq_of_lt nonneg below]
  exact same

theorem toNat_toBlock_ofBlock (block : Block 32) :
    (LimbElement.ofBlock block).toBlock.toNat = block.toNat % 2 ^ 255 % fieldPrime := by
  rw [toNat_toBlock_eq_val, residue_ofBlock]
  exact ZMod.val_natCast _ _

theorem decode_toList (block : Block 32) :
    (decode block.toList : Except Rejection LimbElement) = .ok (LimbElement.ofBlock block) := by
  rw [decode, Block.ofBytes?_toList]
  rfl

theorem decode_eq_error_iff (bytes : Bytes) :
    (decode bytes : Except Rejection LimbElement) = .error (.invalidLength 32 bytes.length) ↔
      bytes.length ≠ 32 := by
  rw [← Block.ofBytes?_eq_none_iff, decode]
  cases Block.ofBytes? 32 bytes with
  | none => exact iff_of_true rfl rfl
  | some block => exact iff_of_false nofun nofun

/-- Decoding chooses limbs of its own, for the same residue. -/
theorem residue_ofBlock_toBlock (element : LimbElement) :
    (LimbElement.ofBlock element.toBlock).residue = element.residue := by
  have below := element.toNat_toBlock_lt.trans (by decide : fieldPrime < 2 ^ 255)
  rw [residue_ofBlock, Nat.mod_eq_of_lt below, toNat_toBlock_eq_val, ZMod.natCast_zmod_val]

/-- For limbs within their widths, whatever they are, the encoding is the number below the prime
that is congruent to what the limbs write. The tests for zero, for sign and for equality ask for
that number and nothing else. Decoding undoes encoding up to the choice of limbs; of 32 bytes it
takes the low 255 bits, and it takes no other length. -/
theorem encoding_exact (element : LimbElement) :
    (element.toBlock.toNat < fieldPrime ∧
      (element.toBlock.toNat : Int) ≡ element.integer [ZMOD fieldPrime] ∧
      ∀ least : Int, 0 ≤ least → least < fieldPrime →
        least ≡ element.integer [ZMOD fieldPrime] → least = element.toBlock.toNat) ∧
    (isNonZero element = true ↔ ¬(fieldPrime : Int) ∣ element.integer) ∧
    (isNegative element = true ↔ Odd element.toBlock.toNat) ∧
    (∀ other : LimbElement,
      let congruent := element.integer ≡ other.integer [ZMOD fieldPrime]
      (same element other = true ↔ congruent) ∧ (equal element other = true ↔ congruent) ∧
        (element.toBlock = other.toBlock ↔ congruent)) ∧
    (∃ restored : LimbElement, decode element.toBlock.toList = .ok restored ∧
      same restored element = true) ∧
    (∀ block : Block 32, ∃ decoded : LimbElement, decode block.toList = .ok decoded ∧
      decoded.toBlock.toNat = block.toNat % 2 ^ 255 % fieldPrime) ∧
    ∀ bytes : Bytes, (decode bytes : Except Rejection LimbElement) =
      .error (.invalidLength 32 bytes.length) ↔ bytes.length ≠ 32 := by
  refine ⟨⟨element.toNat_toBlock_lt, element.toNat_toBlock_modEq, fun _ => eq_toNat_toBlock⟩,
    ?_, ?_, ?_, ?_, ?_, decode_eq_error_iff⟩
  · rw [← residue_ne_zero_iff]
    exact LawfulBaseField.isNonZero_iff element
  · rw [isNegative_iff, Nat.odd_iff, toNat_toBlock_eq_val]
    rfl
  · intro other
    rw [← residue_eq_iff]
    exact ⟨same_iff element other, equal_iff element other, toBlock_eq_iff element other⟩
  · have restores := (same_iff _ element).mpr element.residue_ofBlock_toBlock
    exact ⟨_, decode_toList element.toBlock, restores⟩
  · exact fun block => ⟨_, decode_toList block, toNat_toBlock_ofBlock block⟩

end LimbElement

end EdwardsSignature
