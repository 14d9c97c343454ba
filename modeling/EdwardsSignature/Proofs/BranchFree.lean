import Mathlib
import EdwardsSignature.Scalar.Order

/-! Comparisons without a branch decide what they are meant to. -/

set_option autoImplicit false

namespace EdwardsSignature.BranchFree

theorem foldl_or_eq_zero_iff (bytes : Bytes) (start : UInt8) :
    bytes.foldl (· ||| ·) start = 0 ↔ start = 0 ∧ ∀ byte ∈ bytes, byte = 0 := by
  induction bytes generalizing start with
  | nil => simp
  | cons byte rest ih =>
      rw [List.foldl_cons, ih, UInt8.or_eq_zero_iff, List.forall_mem_cons, and_assoc]

theorem difference_eq_zero_iff {left right : Bytes} (lengths : left.length = right.length) :
    difference left right = 0 ↔ left = right := by
  rw [difference, foldl_or_eq_zero_iff]
  simp only [true_and]
  induction left generalizing right with
  | nil => cases right <;> simp_all
  | cons byte rest ih =>
      cases right with
      | nil => simp at lengths
      | cons other others =>
          simp only [List.length_cons, Nat.add_right_cancel_iff] at lengths
          simp [ih lengths]

theorem equal_iff {left right : Bytes} : equal left right = true ↔ left = right := by
  simp only [equal, Bool.and_eq_true, beq_iff_eq]
  constructor
  · intro agree
    exact (difference_eq_zero_iff agree.1).mp agree.2
  · intro same
    subst same
    exact ⟨rfl, (difference_eq_zero_iff rfl).mpr rfl⟩

theorem equalMask_eq (left right : UInt8) :
    equalMask left right = if left = right then 1 else 0 := by
  have mask (x : Fin 256) :
      (((UInt8.ofFin x).toUInt32 - 1) >>> 31).toUInt8 = if UInt8.ofFin x = 0 then 1 else 0 := by
    revert x
    decide +kernel
  have applied := mask (left ^^^ right).toFin
  rw [UInt8.ofFin_toFin] at applied
  simp only [equalMask, applied, UInt8.xor_eq_zero_iff]

/-- The sign of a difference of bytes, taken from the bits above them. -/
theorem smaller_eq (left right : UInt8) :
    ((left.toUInt16.toInt16 - right.toUInt16.toInt16) >>> 8).toUInt16.toUInt8 &&& 1 =
      if left.toNat < right.toNat then 1 else 0 := by
  have extended (byte : UInt8) : byte.toUInt16.toInt16 = Int16.ofInt byte.toNat := by
    have widened : byte.toUInt16 = UInt16.ofNat byte.toNat := by
      apply UInt16.toNat_inj.mp
      simp
    rw [widened, UInt16.toInt16_ofNat', Int16.ofInt_eq_ofNat]
  have sign (x : Fin 511) : (Int16.ofInt ((x.val : Int) - 255) >>> 8).toUInt16.toUInt8 &&& 1 =
      if (x.val : Int) < 255 then 1 else 0 := by
    revert x
    decide +kernel
  have leftBound := left.toNat_lt
  have rightBound := right.toNat_lt
  have applied := sign ⟨left.toNat + 255 - right.toNat, by omega⟩
  have difference : ((left.toNat + 255 - right.toNat : Nat) : Int) - 255 =
      left.toNat - right.toNat := by omega
  have borrows : ((left.toNat + 255 - right.toNat : Nat) : Int) < 255 ↔
      left.toNat < right.toNat := by omega
  rw [extended, extended, ← Int16.ofInt_sub, ← difference, applied]
  simp only [borrows]

def Scan.of (left right : Nat) : Scan :=
  ⟨if left = right then 0 else 1, if left < right then 1 else 0⟩

/-- One more byte below: it only matters while everything above agrees. -/
theorem Scan.next_of (leftAbove rightAbove : Nat) (left right : UInt8) :
    (Scan.of leftAbove rightAbove).next left right =
      Scan.of (left.toNat + 256 * leftAbove) (right.toNat + 256 * rightAbove) := by
  have leftBound := left.toNat_lt
  have rightBound := right.toNat_lt
  simp only [Scan.next, smaller_eq, equalMask_eq, Scan.of, ← UInt8.toNat_inj]
  rcases Nat.lt_trichotomy leftAbove rightAbove with below | level | above
  · have apart : left.toNat + 256 * leftAbove < right.toNat + 256 * rightAbove := by omega
    simp only [below, Nat.ne_of_lt below, apart, Nat.ne_of_lt apart, ↓reduceIte]
    split <;> split <;> simp
  · subst level
    simp only [Nat.add_right_cancel_iff, Nat.add_lt_add_iff_right, Nat.lt_irrefl, ↓reduceIte]
    split <;> split <;> rfl
  · have apart : right.toNat + 256 * rightAbove < left.toNat + 256 * leftAbove := by omega
    simp only [Nat.ne_of_gt above, Nat.not_lt_of_gt above, Nat.ne_of_gt apart,
      Nat.not_lt_of_gt apart, ↓reduceIte]
    split <;> split <;> rfl

theorem scan_eq {left right : Bytes} (lengths : left.length = right.length) :
    (left.zip right).reverse.foldl (fun scan pair => scan.next pair.1 pair.2) ⟨0, 0⟩ =
      Scan.of (Bytes.toNat left) (Bytes.toNat right) := by
  rw [List.foldl_reverse]
  induction left generalizing right with
  | nil =>
      cases right with
      | nil => rfl
      | cons other others => simp at lengths
  | cons byte rest ih =>
      cases right with
      | nil => simp at lengths
      | cons other others =>
          simp only [List.length_cons, Nat.add_right_cancel_iff] at lengths
          rw [List.zip_cons_cons, List.foldr_cons, ih lengths, Scan.next_of]
          rfl

theorem lessThan_iff {left right : Bytes} (lengths : left.length = right.length) :
    lessThan left right = true ↔ Bytes.toNat left < Bytes.toNat right := by
  simp only [lessThan, scan_eq lengths, Scan.of]
  split <;> simp_all

end EdwardsSignature.BranchFree

namespace EdwardsSignature

theorem Scalar.isCanonical_iff (scalar : Block 32) :
    Scalar.isCanonical scalar = true ↔ scalar.toNat < Scalar.order := by
  rw [Scalar.isCanonical, BranchFree.lessThan_iff (by simp), ← Scalar.toNat_orderBlock]
  rfl

/-- Byte strings of one length compare as the numbers that they write, whatever the length, so the
canonical scalars are those below the order; and byte strings of any lengths are found equal exactly
when they are the same. -/
theorem BranchFree.comparisons_exact :
    (∀ left right : Bytes, left.length = right.length →
      (lessThan left right = true ↔ Bytes.toNat left < Bytes.toNat right)) ∧
    (∀ scalar : Block 32, Scalar.isCanonical scalar = true ↔ scalar.toNat < Scalar.order) ∧
    ∀ left right : Bytes, equal left right = true ↔ left = right := by
  refine ⟨?_, Scalar.isCanonical_iff, fun _ _ => equal_iff⟩
  intro left right lengths
  exact lessThan_iff lengths

/-- The highest byte decides against all bytes below it. -/
theorem BranchFree.comparisons_exact_highest :
    ([255, 255, 0] : Bytes).length = ([0, 0, 1] : Bytes).length ∧
      lessThan [255, 255, 0] [0, 0, 1] = true ∧ ¬lessThan [0, 0, 1] [255, 255, 0] = true :=
  ⟨rfl, (comparisons_exact.1 [255, 255, 0] [0, 0, 1] rfl).mpr (by decide),
    fun less => absurd ((comparisons_exact.1 [0, 0, 1] [255, 255, 0] rfl).mp less) (by decide)⟩

/-- The order itself is no canonical scalar, the number before it is one. -/
example : Scalar.isCanonical Scalar.orderBlock = false ∧
    Scalar.isCanonical (Block.ofNat 32 (Scalar.order - 1)) = true := by decide

end EdwardsSignature
