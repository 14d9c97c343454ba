import Mathlib
import EdwardsSignature.Field.Basic
import EdwardsSignature.Proofs.Primality
import EdwardsSignature.Proofs.Bytes
import EdwardsSignature.Proofs.BranchFree

/-! Representations of the base field that compute exactly.

`value` is the residue that an element stands for. Everything that can be observed of an
element goes through its encoding, and the encoding is that of its least residue. -/

set_option autoImplicit false

namespace EdwardsSignature

namespace Block

private theorem foldl_or_eq_zero_iff_toNat (bytes : Bytes) :
    bytes.foldl (· ||| ·) 0 = 0 ↔ Bytes.toNat bytes = 0 := by
  rw [BranchFree.foldl_or_eq_zero_iff]
  induction bytes with
  | nil => simp [Bytes.toNat]
  | cons byte rest ih =>
      simp only [true_and] at ih
      have zero : byte = 0 ↔ byte.toNat = 0 := by rw [← UInt8.toNat_inj, UInt8.toNat_zero]
      rw [List.forall_mem_cons, ih, zero, Bytes.toNat]
      simp only [true_and]
      omega

section Residues

variable {left right block : Block 32} {x y : ZMod fieldPrime}

theorem isNonZero_iff_of_val (encoded : block.toNat = x.val) :
    block.isNonZero = true ↔ x ≠ 0 := by
  rw [isNonZero, bne_iff_ne, Ne, foldl_or_eq_zero_iff_toNat, ← Block.toNat, encoded,
    ZMod.val_eq_zero]

/-- Encodings of least residues differ when the residues do. -/
theorem eq_iff_of_val (first : left.toNat = x.val) (second : right.toNat = y.val) :
    left = right ↔ x = y := by
  constructor
  · intro same
    apply ZMod.val_injective
    rw [← first, same, second]
  · intro same
    apply Block.toNat_injective
    rw [first, same, second]

theorem equal_iff_of_val (first : left.toNat = x.val) (second : right.toNat = y.val) :
    BranchFree.equal left.toList right.toList = true ↔ x = y := by
  rw [BranchFree.equal_iff, Vector.toList_inj, eq_iff_of_val first second]

end Residues

end Block

/-- A representation in which every operation is the one on residues. -/
class LawfulBaseField (F : Type) [BaseField F] where
  value : F → ZMod fieldPrime
  value_zero : value 0 = 0
  value_one : value 1 = 1
  value_add (left right : F) : value (left + right) = value left + value right
  value_sub (left right : F) : value (left - right) = value left - value right
  value_neg (element : F) : value (-element) = -value element
  value_mul (left right : F) : value (left * right) = value left * value right
  value_square (element : F) : value (BaseField.square element) = value element ^ 2
  value_doubleSquare (element : F) :
    value (BaseField.doubleSquare element) = 2 * value element ^ 2
  value_invert (element : F) : value (BaseField.invert element) = (value element)⁻¹
  value_rootPower (element : F) :
    value (BaseField.rootPower element) = value element ^ ((fieldPrime - 5) / 8)
  value_select (unset set : F) (bit : UInt8) :
    value (BaseField.select unset set bit) = if bit &&& 1 = 1 then value set else value unset
  value_ofBlock (block : Block 32) :
    value (BaseField.ofBlock block : F) = (block.toNat % 2 ^ 255 : Nat)
  toNat_toBlock (element : F) : (BaseField.toBlock element).toNat = (value element).val
  isNonZero_iff (element : F) : BaseField.isNonZero element = true ↔ value element ≠ 0
  same_iff (left right : F) : BaseField.same left right = true ↔ value left = value right

export LawfulBaseField (value)

attribute [simp] LawfulBaseField.value_zero LawfulBaseField.value_one LawfulBaseField.value_add
  LawfulBaseField.value_sub LawfulBaseField.value_neg LawfulBaseField.value_mul
  LawfulBaseField.value_square LawfulBaseField.value_doubleSquare LawfulBaseField.value_invert

theorem val_natCast_of_lt {number : Nat} (reduced : number < fieldPrime) :
    (number : ZMod fieldPrime).val = number :=
  ZMod.val_natCast_of_lt reduced

namespace BaseField

variable {F : Type} [BaseField F] [LawfulBaseField F]

theorem equal_iff (left right : F) : equal left right = true ↔ value left = value right :=
  Block.equal_iff_of_val (LawfulBaseField.toNat_toBlock left)
    (LawfulBaseField.toNat_toBlock right)

theorem isNegative_iff (element : F) :
    isNegative element = true ↔ (value element).val % 2 = 1 := by
  have low := Bytes.toNat_getElem (toBlock element).toList 0 (by simp)
  rw [Vector.getElem_toList, Nat.pow_zero, Nat.div_one, ← Block.toNat,
    LawfulBaseField.toNat_toBlock] at low
  rw [isNegative, Block.bottom, beq_iff_eq, ← UInt8.toNat_inj, UInt8.toNat_and, low]
  simp only [UInt8.toNat_one, Nat.and_one_is_mod]
  omega

end BaseField

end EdwardsSignature
