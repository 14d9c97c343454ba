import Mathlib
import EdwardsSignature.Field.LimbElement
import EdwardsSignature.Program.Operation
import EdwardsSignature.Proofs.Curve.CheckedMultiplication
import EdwardsSignature.Proofs.Field.LimbElement

/-! The tables, entry by entry, and what the masked choice finds in a row.

The comb table is read as the flat list that it is stored as: the entry of row `i` and column `j`
stands at `8 * i + j`. -/

set_option autoImplicit false

namespace EdwardsSignature

open Program (TableName)

namespace EdwardsPoint

/-- The table entry of a curve point: `(y + x, y - x, 2dxy)`. -/
def entry (point : CurvePoint) : AffineNiels (ZMod fieldPrime) :=
  ⟨point.y + point.x, point.y - point.x,
    (standardCurve.d + standardCurve.d) * point.x * point.y⟩

theorem entry_zero : entry 0 = ⟨1, 1, 0⟩ := by
  simp [entry]

end EdwardsPoint

variable {F : Type} [BaseField F]

section Flat

variable (tabled : TabledPoint F)

theorem TabledPoint.length_comb_entries : (TableName.comb.entries tabled).length = 256 := by
  simp [TableName.entries, List.length_flatMap]

theorem TabledPoint.length_odd_entries : (TableName.odd.entries tabled).length = 8 :=
  Vector.length_toList

theorem TabledPoint.comb_entries_getElem? (row : Fin 32) (column : Fin 8) :
    (TableName.comb.entries tabled)[8 * row.val + column.val]? =
      some ((tabled.comb.get.get row).get column) := by
  have inside : row.val < tabled.comb.get.toList.length := by simp
  have found := congrArg (·[column.val]?)
    (EntryRow.take_drop_flatMap tabled.comb.get.toList row.val inside)
  simpa [TableName.entries, Vector.get_eq_getElem] using found

theorem TabledPoint.odd_entries_getElem? (column : Fin 8) :
    (TableName.odd.entries tabled)[column.val]? = some (tabled.odd.get.get column) := by
  simp [TableName.entries, Vector.get_eq_getElem]

end Flat

variable [LawfulBaseField F]

theorem AffineNiels.Names.map_value_eq {entry : AffineNiels F} {named : CurvePoint}
    (names : entry.Names named) : entry.map value = named.entry := by
  rw [AffineNiels.map, names.yPlusX_eq, names.yMinusX_eq, names.xy2d_eq, two_mul]
  rfl

/-- What the masked choice answers for the digits from `-8` to `8`, said of a row's entries. -/
structure EntryRow.SelectsMultiples (row : EntryRow F) (named : CurvePoint) : Prop where
  multiple : ∀ digit : Int8, -8 ≤ digit.toInt → digit.toInt ≤ 8 →
    (row.select digit).map value = (digit.toInt • named).entry
  zero : (row.select 0).map value = ⟨1, 1, 0⟩
  positive : ∀ (digit : Int8) (column : Fin 8), digit.toInt = column.val + 1 →
    (row.select digit).map value = (row.get column).map value
  negative : ∀ (digit : Int8) (column : Fin 8), digit.toInt = -(column.val + 1) →
    (row.select digit).map value = (row.get column).negate.map value

theorem EntryRow.HoldsMultiples.selects {row : EntryRow F} {named : CurvePoint}
    (holds : row.HoldsMultiples named) : row.SelectsMultiples named where
  multiple digit low high := (select_names holds low high).map_value_eq
  zero := by
    have selected : (row.select 0).Names _ := select_names holds (by decide) (by decide)
    rw [Int8.toInt_zero, zero_zsmul] at selected
    rw [selected.map_value_eq, EdwardsPoint.entry_zero]
  positive digit column magnitude := by
    have selected : (row.select digit).Names _ := select_names holds (by omega) (by omega)
    have multiple : digit.toInt • named = (column.val + 1) • named := by
      rw [magnitude, ← natCast_zsmul, Nat.cast_succ]
    rw [multiple] at selected
    exact selected.map_value (holds column)
  negative digit column magnitude := by
    have selected : (row.select digit).Names _ := select_names holds (by omega) (by omega)
    have multiple : digit.toInt • named = -((column.val + 1) • named) := by
      rw [magnitude, neg_zsmul, ← natCast_zsmul, Nat.cast_succ]
    rw [multiple] at selected
    exact selected.map_value (holds column).negate

namespace TabledPoint

variable {tabled : TabledPoint F}

/-- The comb table has 256 entries and the odd table eight, and each is the entry of the multiple
that its place stands for. The masked choice from a row of the comb table answers the entry of the
digit's multiple: the neutral one for zero, the one in the digit's column for a positive digit,
and that one negated for a negative digit. -/
theorem tables_exact (standard : tabled.curve.HasStandardConstants)
    (valid : tabled.point.Valid) :
    let comb := TableName.comb.entries tabled
    let odd := TableName.odd.entries tabled
    let named := valid.curvePoint
    comb.length = 256 ∧
    (∀ (row : Fin 32) (column : Fin 8), ∃ entry,
      comb[8 * row.val + column.val]? = some entry ∧
      entry.map value = ((column.val + 1) • 256 ^ row.val • named).entry) ∧
    odd.length = 8 ∧
    (∀ column : Fin 8, ∃ entry, odd[column.val]? = some entry ∧
      entry.map value = ((2 * column.val + 1) • named).entry) ∧
    ∀ row : Fin 32, ∃ entries, EntryRow.ofTable? comb row.val = some entries ∧
      entries.SelectsMultiples (256 ^ row.val • named) := by
  intro comb odd named
  have names : tabled.Names named := ⟨standard, valid.names⟩
  refine ⟨tabled.length_comb_entries, ?_, tabled.length_odd_entries, ?_, ?_⟩
  · intro row column
    exact ⟨_, tabled.comb_entries_getElem? row column,
      (names.comb_holds row column).map_value_eq⟩
  · intro column
    exact ⟨_, tabled.odd_entries_getElem? column, (names.odd_holds column).map_value_eq⟩
  · intro row
    exact ⟨_, EntryRow.ofTable?_comb tabled.comb.get row, (names.comb_holds row).selects⟩

/-- Multiples of the point of order two: the last entry of each table, and a negative digit. -/
theorem tables_exact_order_two :
    let tabled : TabledPoint LimbElement := .ofExtended .standard .orderTwo
    let comb := TableName.comb.entries tabled
    (∃ entry, comb[255]? = some entry ∧ entry.map value = ⟨1, 1, 0⟩) ∧
    (∃ entry, (TableName.odd.entries tabled)[7]? = some entry ∧
      entry.map value = ⟨-1, -1, 0⟩) ∧
    ∃ entries, EntryRow.ofTable? comb 0 = some entries ∧
      (entries.select (-3)).map value = ⟨-1, -1, 0⟩ := by
  intro tabled comb
  have standard : tabled.curve.HasStandardConstants := Curve.standard_hasStandardConstants
  have valid : tabled.point.Valid := Extended.orderTwo_valid
  have entry_eq : valid.curvePoint.entry = ⟨-1, -1, 0⟩ := by
    simp [EdwardsPoint.entry, Extended.Valid.curvePoint, Extended.orderTwo, tabled, ofExtended]
  have odd (count : Nat) : (2 * count + 1) • valid.curvePoint = valid.curvePoint :=
    Extended.odd_nsmul_orderTwo count
  have twice : 2 • valid.curvePoint = 0 := Extended.two_nsmul_orderTwo
  have last : 8 • 256 ^ 31 • valid.curvePoint = 0 := by
    rw [smul_comm, mul_nsmul valid.curvePoint 2 4, twice, nsmul_zero, nsmul_zero]
  have negative : (-3 : Int) • 256 ^ 0 • valid.curvePoint = valid.curvePoint := by
    rw [two_nsmul] at twice
    rw [pow_zero, one_nsmul, neg_zsmul]
    exact (congrArg Neg.neg ((natCast_zsmul _ 3).trans (odd 1))).trans
      (neg_eq_of_add_eq_zero_left twice)
  obtain ⟨_, comb_entries, _, odd_entries, rows⟩ := tables_exact standard valid
  obtain ⟨comb_entry, comb_found, comb_eq⟩ := comb_entries 31 7
  obtain ⟨odd_entry, odd_found, odd_eq⟩ := odd_entries 7
  obtain ⟨entries, row_found, selects⟩ := rows 0
  refine ⟨⟨comb_entry, comb_found, ?_⟩, ⟨odd_entry, odd_found, ?_⟩, entries, row_found, ?_⟩
  · exact comb_eq.trans ((congrArg EdwardsPoint.entry last).trans EdwardsPoint.entry_zero)
  · exact odd_eq.trans ((congrArg EdwardsPoint.entry (odd 7)).trans entry_eq)
  · have selected := selects.multiple (-3) (by decide) (by decide)
    exact selected.trans ((congrArg EdwardsPoint.entry negative).trans entry_eq)

end TabledPoint

end EdwardsSignature
