import EdwardsSignature.Curve.Formulas

/-! Tables of multiples of a point, as affine entries.

The comb table has a row for each power of 256 and the multiples one to eight in each
row; the odd table has the odd multiples one to fifteen. -/
set_option autoImplicit false
namespace EdwardsSignature

/-- A row of the comb table, or the odd table. -/
abbrev EntryRow (F : Type) := Vector (AffineNiels F) 8

def combRows : Nat := 32

def combColumns : Nat := 8

abbrev CombTable (F : Type) := Vector (EntryRow F) 32

namespace Table

variable {α : Type}

def iterates (step : α → α) : Nat → α → List α
  | 0, _ => []
  | count + 1, current => current :: iterates step count (step current)

@[simp] theorem length_iterates (step : α → α) (count : Nat) (start : α) :
    (iterates step count start).length = count := by
  induction count generalizing start with
  | zero => rfl
  | succ count ih => simp [iterates, ih]

variable {F : Type} [BaseField F]

def entryRow (curve : Curve F) (step : Extended F → Extended F) (start : Extended F) :
    EntryRow F :=
  ⟨((iterates step 8 start).map (·.toAffineNiels curve)).toArray, by simp⟩

def combRow (curve : Curve F) (point : Extended F) : EntryRow F :=
  let operand := point.toProjectiveNiels curve
  entryRow curve (fun multiple => (multiple.add operand).toExtended) point

def twice (curve : Curve F) (point : Extended F) : Extended F :=
  point.plus curve point

/-- Eight doublings: the point that the next row starts from. -/
def timesRowWeight (curve : Curve F) (point : Extended F) : Extended F :=
  twice curve (twice curve (twice curve (twice curve
    (twice curve (twice curve (twice curve (twice curve point)))))))

/-- Row `i`, column `j` holds `(j + 1) · 256 ^ i` times the point. -/
def comb (curve : Curve F) (point : Extended F) : CombTable F :=
  ⟨((iterates (timesRowWeight curve) 32 point).map (combRow curve)).toArray, by simp⟩

def nextOdd (curve : Curve F) (point multiple : Extended F) : Extended F :=
  point.plus curve (point.plus curve multiple)

/-- Entry `k` holds `2 · k + 1` times the point. -/
def odd (curve : Curve F) (point : Extended F) : EntryRow F :=
  entryRow curve (nextOdd curve point) point

end Table

end EdwardsSignature
