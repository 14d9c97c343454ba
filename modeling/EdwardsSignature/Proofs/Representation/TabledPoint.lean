import Mathlib
import EdwardsSignature.Proofs.Representation.Curve

/-! Tables and the multiplications that read them, under a change of the representation.

A tabled point is its curve and its point; the changed one has the tables of the changed
point, and those are the changed tables. -/

set_option autoImplicit false

namespace EdwardsSignature

variable {F G : Type} [BaseField F] [BaseField G] (hom : FieldHom F G)

theorem Table.iterates_map {α β : Type} {change : α → β} {step : α → α} {changed : β → β}
    (commutes : ∀ current, changed (change current) = change (step current)) (count : Nat)
    (start : α) : iterates changed count (change start) = (iterates step count start).map change := by
  induction count generalizing start with
  | zero => rfl
  | succ count ih => rw [iterates, iterates, commutes, ih, List.map_cons]

namespace EntryRow

def map (row : EntryRow F) : EntryRow G := Vector.map (AffineNiels.map hom) row

theorem getElem_map (row : EntryRow F) (column : Nat) (inside : column < 8) :
    (row.map hom)[column] = row[column].map hom :=
  Vector.getElem_map _ inside

/-- The walk over a row keeps the changed entry wherever it keeps the entry. -/
theorem chosen_map (entries : Fin 8 → AffineNiels F) (magnitude : UInt8) :
    (List.finRange 8).foldl (fun kept column =>
        kept.select ((entries column).map hom)
          (BranchFree.equalMask magnitude (UInt8.ofNat (column.val + 1)))) AffineNiels.neutral =
      ((List.finRange 8).foldl (fun kept column =>
        kept.select (entries column)
          (BranchFree.equalMask magnitude (UInt8.ofNat (column.val + 1))))
        AffineNiels.neutral).map hom := by
  rw [← AffineNiels.map_neutral hom]
  apply List.foldl_hom
  intro kept column
  exact AffineNiels.select_map hom _ _ _

theorem select_map (row : EntryRow F) (digit : Int8) :
    (row.map hom).select digit = (row.select digit).map hom := by
  simp only [select, Fin.getElem_fin, getElem_map, chosen_map, AffineNiels.negate_map,
    AffineNiels.select_map]

theorem applyDigit_map (row : EntryRow F) (total : Completed F) (digit : WindowDigit) :
    (row.map hom).applyDigit (total.map hom) digit = (row.applyDigit total digit).map hom := by
  simp only [applyDigit]
  split
  · simp [getElem_map]
  · split
    · simp [getElem_map]
    · rfl

end EntryRow

namespace Table

variable (curve : Curve F) (point : Extended F)

theorem entryRow_map {step : Extended F → Extended F} {changed : Extended G → Extended G}
    (commutes : ∀ multiple, changed (multiple.map hom) = (step multiple).map hom) :
    entryRow (curve.map hom) changed (point.map hom) = (entryRow curve step point).map hom := by
  apply Vector.toList_inj.mp
  simp [entryRow, EntryRow.map, iterates_map commutes, Function.comp_def]

theorem combRow_map :
    combRow (curve.map hom) (point.map hom) = (combRow curve point).map hom :=
  entryRow_map hom curve point fun multiple => by simp

theorem twice_map : twice (curve.map hom) (point.map hom) = (twice curve point).map hom :=
  Extended.plus_map hom curve point point

theorem comb_map :
    comb (curve.map hom) (point.map hom) = (comb curve point).map (EntryRow.map hom) := by
  have commutes (current : Extended F) : timesRowWeight (curve.map hom) (current.map hom) =
      (timesRowWeight curve current).map hom := by
    simp only [timesRowWeight, twice_map]
  apply Vector.toList_inj.mp
  simp [comb, iterates_map commutes, combRow_map, Function.comp_def]

theorem odd_map : odd (curve.map hom) (point.map hom) = (odd curve point).map hom :=
  entryRow_map hom curve point fun multiple => by simp [nextOdd]

end Table

namespace TabledPoint

variable (tabled other : TabledPoint F)

/-- The tables follow from the curve and the point, so nothing else has to be changed. -/
def map : TabledPoint G := ofExtended (tabled.curve.map hom) (tabled.point.map hom)

theorem ofExtended_map (curve : Curve F) (point : Extended F) :
    ofExtended (curve.map hom) (point.map hom) = (ofExtended curve point).map hom := rfl

theorem decode_eq_map (curve : Curve F) (bytes : Bytes) :
    decode (curve.map hom) bytes = map hom <$> decode curve bytes := by
  rw [decode, decode, Curve.decodePoint_eq_map]
  cases curve.decodePoint bytes with
  | error cause => rfl
  | ok point => rfl

theorem encode_map : (tabled.map hom).encode = tabled.encode :=
  Extended.encode_map hom tabled.point

theorem negate_map : (tabled.map hom).negate = tabled.negate.map hom := by
  have negated := Extended.negate_map hom tabled.curve tabled.point
  exact congrArg (ofExtended (tabled.curve.map hom)) negated

theorem comb_get_map : (tabled.map hom).comb.get = tabled.comb.get.map (EntryRow.map hom) := by
  rw [TabledPoint.comb_eq, TabledPoint.comb_eq]
  exact Table.comb_map hom tabled.curve tabled.point

theorem odd_get_map : (tabled.map hom).odd.get = EntryRow.map hom tabled.odd.get := by
  rw [TabledPoint.odd_eq, TabledPoint.odd_eq]
  exact Table.odd_map hom tabled.curve tabled.point

theorem addRows_map (digits : Fin 32 → Int8) (start : Extended F) :
    (tabled.map hom).addRows digits (start.map hom) = (tabled.addRows digits start).map hom := by
  simp only [addRows]
  apply List.foldl_hom
  intro total row
  simp [comb_get_map, EntryRow.select_map]

theorem timesSixteen_map (point : Extended F) :
    timesSixteen (point.map hom) = (timesSixteen point).map hom := by
  simp [timesSixteen]

theorem multiply_eq_map (scalar : Block 32) :
    (tabled.map hom).multiply scalar = Extended.map hom <$> tabled.multiply scalar := by
  simp only [multiply]
  cases Radix16.recode scalar with
  | error cause => rfl
  | ok digits =>
      simp only [Except.map_ok, multiplyDigits]
      rw [← Extended.map_neutral hom, addRows_map, timesSixteen_map, addRows_map]

theorem multiplyDouble_map (otherScalar scalar : Block 32) :
    (tabled.map hom).multiplyDouble (other.map hom) otherScalar scalar =
      (tabled.multiplyDouble other otherScalar scalar).map hom := by
  simp only [multiplyDouble]
  rw [← Projective.map_neutral hom]
  apply List.foldl_hom
  intro total digits
  simp [doubleStep, odd_get_map, EntryRow.applyDigit_map]

end TabledPoint

end EdwardsSignature
