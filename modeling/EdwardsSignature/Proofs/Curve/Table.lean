import Mathlib
import EdwardsSignature.Curve.Naive
import EdwardsSignature.Curve.TabledPoint
import EdwardsSignature.Proofs.Curve.Coordinates

/-! Tables hold the multiples that they are meant to, and the masked choice finds them. -/

set_option autoImplicit false

namespace EdwardsSignature

variable {F : Type} [BaseField F] [LawfulBaseField F]

theorem ProjectiveNiels.Names.multiplyNaive {operand : ProjectiveNiels F} {named : CurvePoint}
    (names : operand.Names named) (scalar : Bytes) :
    (operand.multiplyNaive scalar).Names (Bytes.toNat scalar • named) := by
  rw [ProjectiveNiels.multiplyNaive, List.foldl_reverse, ← Bytes.bitsValue_bits]
  induction scalar.bits with
  | nil =>
      rw [bitsValue, zero_nsmul]
      exact Extended.names_neutral
  | cons bit rest ih =>
      have doubled := ih.double.toExtended
      rw [← two_nsmul, ← mul_nsmul'] at doubled
      rw [List.foldr_cons, ProjectiveNiels.multiplyStep]
      cases bit with
      | false =>
          rw [bitsValue, Bool.toNat_false, Nat.zero_add]
          exact doubled
      | true =>
          rw [bitsValue, Bool.toNat_true, Nat.add_comm, succ_nsmul]
          exact (doubled.add names).toExtended

namespace Table

variable {curve : Curve F} {named : CurvePoint} {point : Extended F}

/-- Repeated steps follow a sequence that every step follows. -/
theorem iterates_getElem {α : Type} (holds : Nat → α → Prop) {step : α → α}
    (next : ∀ index current, holds index current → holds (index + 1) (step current))
    (count : Nat) (start : α) (offset : Nat) (initial : holds offset start)
    (index : Nat) (inside : index < (iterates step count start).length) :
    holds (offset + index) (iterates step count start)[index] := by
  induction count generalizing start offset index with
  | zero => simp at inside
  | succ count ih =>
      cases index with
      | zero => exact initial
      | succ index =>
          have below : index < (iterates step count (step start)).length := by
            simpa [iterates] using inside
          have later := ih (step start) (offset + 1) (next offset start initial) index below
          rw [Nat.add_assoc, Nat.add_comm 1] at later
          exact later

theorem entryRow_names (standard : curve.HasStandardConstants) {step : Extended F → Extended F}
    (sequence : Nat → CurvePoint)
    (next : ∀ index current, current.Names (sequence index) →
      (step current).Names (sequence (index + 1)))
    (initial : point.Names (sequence 0)) (column : Fin 8) :
    ((entryRow curve step point).get column).Names (sequence column.val) := by
  have inside : column.val < (iterates step 8 point).length := by simp
  have reached := iterates_getElem (fun index current => current.Names (sequence index)) next 8
    point 0 initial column.val inside
  rw [Nat.zero_add] at reached
  have entry := reached.toAffineNiels standard
  simpa [entryRow, Vector.get_eq_getElem] using entry

theorem combRow_names (standard : curve.HasStandardConstants) (names : point.Names named)
    (column : Fin 8) : ((combRow curve point).get column).Names ((column.val + 1) • named) := by
  apply entryRow_names standard fun index => (index + 1) • named
  · intro index current reached
    rw [succ_nsmul]
    exact (reached.add (names.toProjectiveNiels standard)).toExtended
  · rw [Nat.zero_add, one_nsmul]
    exact names

theorem twice_names (standard : curve.HasStandardConstants) (names : point.Names named) :
    (twice curve point).Names (2 • named) := by
  rw [two_nsmul]
  exact names.plus standard names

theorem timesRowWeight_names (standard : curve.HasStandardConstants) (names : point.Names named) :
    (timesRowWeight curve point).Names (256 • named) := by
  have doubled {current : Extended F} {multiple : Nat} (reached : current.Names (multiple • named)) :
      (twice curve current).Names ((multiple * 2) • named) := by
    rw [mul_nsmul]
    exact twice_names standard reached
  rw [← one_nsmul named] at names
  exact doubled (doubled (doubled (doubled (doubled (doubled (doubled (doubled names)))))))

theorem comb_names (standard : curve.HasStandardConstants) (names : point.Names named)
    (row : Fin 32) (column : Fin 8) :
    (((comb curve point).get row).get column).Names ((column.val + 1) • 256 ^ row.val • named) := by
  have inside : row.val < (iterates (timesRowWeight curve) 32 point).length := by simp
  have next (index : Nat) (current : Extended F) (reached : current.Names (256 ^ index • named)) :
      (timesRowWeight curve current).Names (256 ^ (index + 1) • named) := by
    rw [Nat.pow_succ, mul_nsmul]
    exact timesRowWeight_names standard reached
  have initial : point.Names (256 ^ 0 • named) := by
    rw [Nat.pow_zero, one_nsmul]
    exact names
  have reached := iterates_getElem (fun index current => current.Names (256 ^ index • named)) next
    32 point 0 initial row.val inside
  rw [Nat.zero_add] at reached
  have entry := combRow_names standard reached column
  simpa [comb, Vector.get_eq_getElem] using entry

theorem odd_names (standard : curve.HasStandardConstants) (names : point.Names named)
    (column : Fin 8) : ((odd curve point).get column).Names ((2 * column.val + 1) • named) := by
  apply entryRow_names standard fun index => (2 * index + 1) • named
  · intro index current reached
    have raised : (2 * (index + 1) + 1) • named = named + (named + (2 * index + 1) • named) := by
      rw [← succ_nsmul', ← succ_nsmul']
      rfl
    rw [raised]
    exact names.plus standard (names.plus standard reached)
  · rw [Nat.mul_zero, Nat.zero_add, one_nsmul]
    exact names

end Table

end EdwardsSignature
