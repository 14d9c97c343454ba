import Mathlib
import EdwardsSignature.Proofs.Curve.Table
import EdwardsSignature.Proofs.Scalar.Radix16
import EdwardsSignature.Proofs.Scalar.SlidingWindow

/-! The two table-driven multiplications compute multiples. -/

set_option autoImplicit false

namespace EdwardsSignature

variable {F : Type} [BaseField F] [LawfulBaseField F]

section Selection

theorem AffineNiels.Names.select {unset set : AffineNiels F} {first second : CurvePoint}
    (unset_names : unset.Names first) (set_names : set.Names second) (bit : UInt8) :
    (unset.select set bit).Names (if bit &&& 1 = 1 then second else first) := by
  constructor <;> simp only [AffineNiels.select, LawfulBaseField.value_select] <;> split
  · exact set_names.yPlusX_eq
  · exact unset_names.yPlusX_eq
  · exact set_names.yMinusX_eq
  · exact unset_names.yMinusX_eq
  · exact set_names.xy2d_eq
  · exact unset_names.xy2d_eq

def EntryRow.HoldsMultiples (row : EntryRow F) (named : CurvePoint) : Prop :=
  ∀ column, (row.get column).Names ((column.val + 1) • named)

def EntryRow.HoldsOddMultiples (row : EntryRow F) (named : CurvePoint) : Prop :=
  ∀ column, (row.get column).Names ((2 * column.val + 1) • named)

/-- Visiting columns keeps the entry at the magnitude once it has come by. -/
theorem EntryRow.foldl_select_names {row : EntryRow F} {named : CurvePoint}
    (holds : row.HoldsMultiples named) (magnitude : UInt8) (columns : List (Fin 8))
    {kept : AffineNiels F} {start : CurvePoint} (names : kept.Names start) :
    (columns.foldl (fun kept column =>
      kept.select (row.get column) (BranchFree.equalMask magnitude (UInt8.ofNat (column.val + 1))))
      kept).Names
      (if ∃ column ∈ columns, column.val + 1 = magnitude.toNat then magnitude.toNat • named
        else start) := by
  induction columns generalizing kept start with
  | nil => simpa using names
  | cons column rest ih =>
      have mask : BranchFree.equalMask magnitude (UInt8.ofNat (column.val + 1)) &&& 1 = 1 ↔
          column.val + 1 = magnitude.toNat := by
        have exact : (UInt8.ofNat (column.val + 1)).toNat = column.val + 1 := by
          rw [UInt8.toNat_ofNat']
          omega
        have same : magnitude = UInt8.ofNat (column.val + 1) ↔ column.val + 1 = magnitude.toNat := by
          rw [← UInt8.toNat_inj, exact, eq_comm]
        rw [BranchFree.equalMask_eq, ← same]
        split
        · rename_i agree
          exact ⟨fun _ => agree, fun _ => rfl⟩
        · rename_i differ
          exact ⟨fun set => absurd set (by decide), fun agree => absurd agree differ⟩
      have selected := names.select (holds column)
        (BranchFree.equalMask magnitude (UInt8.ofNat (column.val + 1)))
      have later := ih selected
      simp only [mask] at later
      rw [List.foldl_cons]
      by_cases hit : column.val + 1 = magnitude.toNat
      · rw [hit] at later
        simpa [hit] using later
      · simpa [hit] using later

theorem digit_parts {digit : Int8} (low : -8 ≤ digit.toInt) (high : digit.toInt ≤ 8) :
    (BranchFree.signMask digit &&& 1 = 1 ↔ digit.toInt < 0) ∧
      (digit - ((-(BranchFree.signMask digit).toInt8 &&& digit) <<< 1)).toUInt8.toNat =
        digit.toInt.natAbs := by
  have known : digit = Int8.ofInt digit.toInt := (Int8.ofInt_toInt digit).symm
  generalize digit.toInt = value at known low high
  subst known
  interval_cases value <;> decide

theorem EntryRow.select_names {row : EntryRow F} {named : CurvePoint}
    (holds : row.HoldsMultiples named) {digit : Int8} (low : -8 ≤ digit.toInt)
    (high : digit.toInt ≤ 8) : (row.select digit).Names (digit.toInt • named) := by
  obtain ⟨sign, magnitude_eq⟩ := digit_parts low high
  have chosen := EntryRow.foldl_select_names holds
    (digit - ((-(BranchFree.signMask digit).toInt8 &&& digit) <<< 1)).toUInt8
    (List.finRange 8) (AffineNiels.names_neutral (F := F))
  rw [magnitude_eq] at chosen
  have multiple : (if ∃ column ∈ List.finRange 8, column.val + 1 = digit.toInt.natAbs
      then digit.toInt.natAbs • named else 0) = digit.toInt.natAbs • named := by
    split
    · rfl
    · rename_i missing
      have zero : digit.toInt.natAbs = 0 := by
        by_contra nonzero
        apply missing
        exact ⟨⟨digit.toInt.natAbs - 1, by omega⟩, List.mem_finRange _, by dsimp only; omega⟩
      rw [zero, zero_nsmul]
  rw [multiple] at chosen
  have signed := chosen.select chosen.negate (BranchFree.signMask digit)
  have multiple_signed : (if BranchFree.signMask digit &&& 1 = 1
      then -(digit.toInt.natAbs • named) else digit.toInt.natAbs • named) = digit.toInt • named := by
    split
    · rename_i negative
      have magnitude : (digit.toInt.natAbs : Int) = -digit.toInt := by
        have below := sign.mp negative
        omega
      rw [← natCast_zsmul, magnitude, neg_zsmul, neg_neg]
    · rename_i positive
      have magnitude : (digit.toInt.natAbs : Int) = digit.toInt := by
        have above : ¬digit.toInt < 0 := fun below => positive (sign.mpr below)
        omega
      rw [← natCast_zsmul, magnitude]
  rw [multiple_signed] at signed
  exact signed

end Selection

section Comb

theorem addRows_names {rows : CombTable F} {named : CurvePoint}
    (holds : ∀ row, (rows.get row).HoldsMultiples (256 ^ row.val • named))
    {digits : Fin 32 → Int8} (within : ∀ row, -8 ≤ (digits row).toInt ∧ (digits row).toInt ≤ 8)
    (order : List (Fin 32)) {total : Extended F} {start : CurvePoint} (names : total.Names start) :
    (order.foldl (fun total row =>
      (total.addEntry (EntryRow.select (rows.get row) (digits row))).toExtended) total).Names
      (start + (order.map fun row => (digits row).toInt * 256 ^ row.val).sum • named) := by
  induction order generalizing total start with
  | nil => simpa using names
  | cons row rest ih =>
      obtain ⟨low, high⟩ := within row
      have entry := EntryRow.select_names (holds row) low high
      have later := ih (names.addEntry entry).toExtended
      have multiple : (digits row).toInt • 256 ^ row.val • named =
          ((digits row).toInt * 256 ^ row.val) • named := by
        rw [mul_smul, ← natCast_zsmul named, Nat.cast_pow]
        rfl
      rw [List.foldl_cons, List.map_cons, List.sum_cons, add_zsmul, ← add_assoc, ← multiple]
      exact later

theorem timesSixteen_names {point : Extended F} {named : CurvePoint} (names : point.Names named) :
    (TabledPoint.timesSixteen point).Names ((16 : Int) • named) := by
  have sixteen : (16 : Int) • named =
      named + named + (named + named) + (named + named + (named + named)) +
        (named + named + (named + named) + (named + named + (named + named))) := by
    abel
  rw [sixteen]
  exact (names.double.toProjective.double.toProjective.double.toProjective.double).toExtended

theorem evenPlace_lt (row : Fin 32) : 2 * row.val < 64 := by omega

theorem oddPlace_lt (row : Fin 32) : 2 * row.val + 1 < 64 := by omega

def evenPlace (row : Fin 32) : Fin 64 := ⟨2 * row.val, evenPlace_lt row⟩

def oddPlace (row : Fin 32) : Fin 64 := ⟨2 * row.val + 1, oddPlace_lt row⟩

theorem sum_places (term : Fin 64 → Int) :
    ∑ place, term place = ∑ row, (term (evenPlace row) + term (oddPlace row)) := by
  rw [← (finProdFinEquiv : Fin 32 × Fin 2 ≃ Fin 64).sum_comp, Fintype.sum_prod_type]
  apply Finset.sum_congr rfl
  intro row _
  have even : finProdFinEquiv (row, (0 : Fin 2)) = evenPlace row := by
    ext
    simp [finProdFinEquiv, evenPlace]
  have odd : finProdFinEquiv (row, (1 : Fin 2)) = oddPlace row := by
    ext
    simp [finProdFinEquiv, oddPlace, add_comm]
  rw [Fin.sum_univ_two, even, odd]

/-- The digits at even and at odd places, each half in powers of 256. -/
theorem digitsValue_eq_rows (digits : Vector Int8 64) :
    Radix16.digitsValue (digits.toList.map Int8.toInt) =
      16 * ((List.finRange 32).map fun row =>
          (digits.get (oddPlace row)).toInt * 256 ^ row.val).sum +
        ((List.finRange 32).map fun row =>
          (digits.get (evenPlace row)).toInt * 256 ^ row.val).sum := by
  rw [Radix16.digitsValue_toInts, sum_places, ← Fin.sum_univ_def, ← Fin.sum_univ_def,
    Finset.mul_sum, ← Finset.sum_add_distrib]
  apply Finset.sum_congr rfl
  intro row _
  have even : (16 : Int) ^ (evenPlace row).val = 256 ^ row.val := by
    rw [evenPlace, pow_mul]
    rfl
  have odd : (16 : Int) ^ (oddPlace row).val = 256 ^ row.val * 16 := by
    rw [← even]
    exact pow_succ 16 (evenPlace row).val
  rw [even, odd]
  ring

end Comb

section Double

open SlidingWindow

theorem EntryRow.applyDigit_names {row : EntryRow F} {named : CurvePoint}
    (holds : row.HoldsOddMultiples named) {digit : WindowDigit}
    (sparse : digit = .zero ∨ digit.IsOdd) {total : Completed F} {start : CurvePoint}
    (names : total.Names start) :
    (row.applyDigit total digit).Names (start + digit.value • named) := by
  unfold EntryRow.applyDigit
  obtain rfl | odd := sparse
  · simpa [WindowDigit.zero] using names
  · have entry := holds digit.index
    rw [odd.index_eq] at entry
    split
    · rename_i positive
      have magnitude : (digit.value.natAbs : Int) = digit.value := by omega
      rw [← natCast_zsmul, magnitude] at entry
      exact names.toExtended.addEntry entry
    · rename_i nonpositive
      have negative : digit.value < 0 := by
        unfold WindowDigit.IsOdd at odd
        omega
      have magnitude : (digit.value.natAbs : Int) = -digit.value := by omega
      rw [← natCast_zsmul, magnitude, neg_zsmul] at entry
      have difference := names.toExtended.subEntry entry
      rw [sub_neg_eq_add] at difference
      rw [if_pos negative]
      exact difference

def doubleStepPoint (first second total : CurvePoint) (digits : WindowDigit × WindowDigit) :
    CurvePoint :=
  total + total + digits.1.value • first + digits.2.value • second

variable {firstRow secondRow : EntryRow F} {first second : CurvePoint}

theorem doubleStep_names (first_holds : firstRow.HoldsOddMultiples first)
    (second_holds : secondRow.HoldsOddMultiples second) {digits : WindowDigit × WindowDigit}
    (sparse : (digits.1 = .zero ∨ digits.1.IsOdd) ∧ (digits.2 = .zero ∨ digits.2.IsOdd))
    {total : Projective F} {start : CurvePoint} (names : total.Names start) :
    (TabledPoint.doubleStep firstRow secondRow total digits).Names
      (doubleStepPoint first second start digits) := by
  have added := EntryRow.applyDigit_names first_holds sparse.1 names.double
  exact (EntryRow.applyDigit_names second_holds sparse.2 added).toProjective

theorem foldl_doubleStep_names (first_holds : firstRow.HoldsOddMultiples first)
    (second_holds : secondRow.HoldsOddMultiples second)
    {places : List (WindowDigit × WindowDigit)}
    (sparse : ∀ digits ∈ places,
      (digits.1 = .zero ∨ digits.1.IsOdd) ∧ (digits.2 = .zero ∨ digits.2.IsOdd))
    {total : Projective F} {start : CurvePoint} (names : total.Names start) :
    (places.foldl (TabledPoint.doubleStep firstRow secondRow) total).Names
      (places.foldl (doubleStepPoint first second) start) := by
  induction places generalizing total start with
  | nil => exact names
  | cons digits rest ih =>
      rw [List.forall_mem_cons] at sparse
      exact ih sparse.2 (doubleStep_names first_holds second_holds sparse.1 names)

theorem foldl_doubleStepPoint_dropWhile (places : List (WindowDigit × WindowDigit)) :
    (places.dropWhile fun digits => digits.1.value == 0 && digits.2.value == 0).foldl
        (doubleStepPoint first second) 0 =
      places.foldl (doubleStepPoint first second) 0 := by
  induction places with
  | nil => rfl
  | cons digits rest ih =>
      rw [List.dropWhile_cons]
      split
      · rename_i unused
        simp only [Bool.and_eq_true, beq_iff_eq] at unused
        have still : doubleStepPoint first second 0 digits = 0 := by
          simp [doubleStepPoint, unused.1, unused.2]
        rw [ih, List.foldl_cons, still]
      · rfl

/-- From the highest place down, the places add up the two multiples. -/
theorem foldr_doubleStepPoint (first second : CurvePoint)
    {firstDigits secondDigits : List WindowDigit}
    (lengths : firstDigits.length = secondDigits.length) :
    (firstDigits.zip secondDigits).foldr
        (fun digits total => doubleStepPoint first second total digits) 0 =
      digitsValue firstDigits • first + digitsValue secondDigits • second := by
  induction firstDigits generalizing secondDigits with
  | nil =>
      cases secondDigits with
      | nil => simp [digitsValue]
      | cons digit rest => simp at lengths
  | cons digit rest ih =>
      cases secondDigits with
      | nil => simp at lengths
      | cons other others =>
          simp only [List.length_cons, Nat.add_right_cancel_iff] at lengths
          rw [List.zip_cons_cons, List.foldr_cons, ih lengths, doubleStepPoint, digitsValue,
            digitsValue, add_zsmul, add_zsmul, two_mul, two_mul, add_zsmul, add_zsmul]
          abel

end Double

structure TabledPoint.Names (tabled : TabledPoint F) (named : CurvePoint) : Prop where
  standard : tabled.curve.HasStandardConstants
  point_names : tabled.point.Names named

namespace TabledPoint.Names

variable {tabled other : TabledPoint F} {named other_named : CurvePoint}

theorem comb_holds (names : tabled.Names named) (row : Fin 32) :
    (tabled.comb.get.get row).HoldsMultiples (256 ^ row.val • named) := by
  intro column
  rw [tabled.comb_eq]
  exact Table.comb_names names.standard names.point_names row column

theorem odd_holds (names : tabled.Names named) : tabled.odd.get.HoldsOddMultiples named := by
  intro column
  rw [tabled.odd_eq]
  exact Table.odd_names names.standard names.point_names column

theorem multiplyDigits (names : tabled.Names named) {digits : Vector Int8 64}
    (within : ∀ place, -8 ≤ (digits.get place).toInt ∧ (digits.get place).toInt ≤ 8) :
    (tabled.multiplyDigits digits).Names
      (Radix16.digitsValue (digits.toList.map Int8.toInt) • named) := by
  have upper := addRows_names names.comb_holds (fun row => within (oddPlace row))
    (List.finRange 32) Extended.names_neutral
  have lower := addRows_names names.comb_holds (fun row => within (evenPlace row))
    (List.finRange 32) (timesSixteen_names upper)
  rw [digitsValue_eq_rows, add_zsmul, mul_smul]
  rw [zero_add] at lower
  exact lower

theorem multiply (names : tabled.Names named) {scalar : Block 32}
    (narrow : scalar.toNat < 2 ^ 255) :
    ∃ product, tabled.multiply scalar = .ok product ∧ product.Names (scalar.toNat • named) := by
  have value := Radix16.digitsValue_exactDigits scalar
  rw [← Radix16.toInt_digitVector] at value
  have within (place : Fin 64) :
      -8 ≤ ((Radix16.digitVector scalar).get place).toInt ∧
        ((Radix16.digitVector scalar).get place).toInt ≤ 8 := by
    obtain ⟨earlier, last⟩ :=
      Radix16.digitVector_within ((Radix16.top_le_iff scalar).mpr narrow) place
    rcases Nat.lt_or_eq_of_le (Nat.le_of_lt_succ place.isLt) with before | final
    · exact ⟨(earlier before).1, (earlier before).2.trans (by decide)⟩
    · exact ⟨(last final).1.trans' (by decide), (last final).2⟩
  have product := names.multiplyDigits within
  rw [value, natCast_zsmul] at product
  refine ⟨_, ?_, product⟩
  rw [TabledPoint.multiply, Radix16.recode_of_lt narrow]
  rfl

/-- The sum of two multiples, whatever the two points have to do with one another: each scalar
counts as the number that its digits write. -/
theorem multiplyDouble_digits (names : tabled.Names named) (other_names : other.Names other_named)
    (otherScalar scalar : Block 32) :
    (tabled.multiplyDouble other otherScalar scalar).Names
      (SlidingWindow.digitsValue (SlidingWindow.recode otherScalar) • other_named +
        SlidingWindow.digitsValue (SlidingWindow.recode scalar) • named) := by
  have lengths : (SlidingWindow.recode otherScalar).length = (SlidingWindow.recode scalar).length := by
    rw [SlidingWindow.length_recode, SlidingWindow.length_recode]
  rw [← foldr_doubleStepPoint other_named named lengths, ← List.foldl_reverse,
    ← foldl_doubleStepPoint_dropWhile]
  apply foldl_doubleStep_names other_names.odd_holds names.odd_holds _ Projective.names_neutral
  intro digits member
  have placed := List.of_mem_zip (List.mem_reverse.mp ((List.dropWhile_suffix _).subset member))
  exact ⟨SlidingWindow.recode_sparse _ _ placed.1, SlidingWindow.recode_sparse _ _ placed.2⟩

theorem multiplyDouble (names : tabled.Names named) (other_names : other.Names other_named)
    {otherScalar scalar : Block 32} (other_narrow : otherScalar.toNat < 2 ^ 255)
    (narrow : scalar.toNat < 2 ^ 255) :
    (tabled.multiplyDouble other otherScalar scalar).Names
      (otherScalar.toNat • other_named + scalar.toNat • named) := by
  have total := names.multiplyDouble_digits other_names otherScalar scalar
  rw [SlidingWindow.digitsValue_recode other_narrow, SlidingWindow.digitsValue_recode narrow,
    natCast_zsmul, natCast_zsmul] at total
  exact total

end TabledPoint.Names

end EdwardsSignature
