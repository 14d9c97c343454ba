import Mathlib
import EdwardsSignature.Scalar.Arithmetic
import EdwardsSignature.Proofs.Scalar.Reduction

/-! Arithmetic in limbs and on natural numbers is lawful: both answer the least residue. -/

set_option autoImplicit false

namespace EdwardsSignature.Scalar

open LawfulLimbWord (Denotes)

section Split

/-- The limbs of a number, the last of which keeps every bit that is left. -/
def numberLimbs (count number : Nat) : Vector Int count :=
  Vector.ofFn fun place : Fin count =>
    if place.val + 1 < count then ((number / 2 ^ (21 * place.val) % 2 ^ 21 : Nat) : Int)
    else ((number / 2 ^ (21 * place.val) : Nat) : Int)

theorem sum_low_limbs (count number : Nat) :
    ∑ place : Fin count, ((number / 2 ^ (21 * place.val) % 2 ^ 21 : Nat) : Int) *
        2 ^ (21 * place.val) = (number % 2 ^ (21 * count) : Nat) := by
  induction count with
  | zero => simp [Nat.mod_one]
  | succ count ih =>
      rw [Fin.sum_univ_castSucc]
      simp only [Fin.val_castSucc, Fin.val_last]
      rw [ih, Nat.mul_succ, pow_add, Nat.mod_mul]
      push_cast
      ring

theorem limbsValue_numberLimbs (count number : Nat) :
    limbsValue (numberLimbs (count + 1) number) = number := by
  have low (place : Fin count) : (numberLimbs (count + 1) number).get place.castSucc =
      ((number / 2 ^ (21 * place.val) % 2 ^ 21 : Nat) : Int) := by
    simp [numberLimbs]
  have last : (numberLimbs (count + 1) number).get (Fin.last count) =
      ((number / 2 ^ (21 * count) : Nat) : Int) := by
    simp [numberLimbs]
  have parts := Nat.mod_add_div number (2 ^ (21 * count))
  rw [limbsValue, Fin.sum_univ_castSucc, last, Finset.sum_congr rfl fun place _ => by rw [low]]
  simp only [Fin.val_castSucc, Fin.val_last]
  rw [sum_low_limbs]
  conv => rhs; rw [← parts]
  push_cast
  ring

theorem denotes_split {α : Type} [LimbWord α] [LawfulLimbWord α 64] {count width : Nat}
    {bytes : Bytes} (fits : Bytes.toNat bytes < 2 ^ (21 * (count - 1) + width))
    (wide : 21 ≤ width) (narrow : width ≤ 57) (place : Fin count) :
    Denotes ((split α count bytes).get place) ((numberLimbs count (Bytes.toNat bytes)).get place) ∧
      0 ≤ (numberLimbs count (Bytes.toNat bytes)).get place ∧
      (numberLimbs count (Bytes.toNat bytes)).get place < 2 ^ width := by
  have low_power : (2 : Int) ^ 21 ≤ 2 ^ width := pow_le_pow_right₀ (by decide) wide
  have high_power : (2 : Int) ^ width ≤ 2 ^ 57 := pow_le_pow_right₀ (by decide) narrow
  simp only [split, numberLimbs, Vector.get_ofFn]
  split
  · rename_i lower
    have bound : Bytes.toNat bytes / 2 ^ (21 * place.val) % 2 ^ 21 < 2 ^ 21 :=
      Nat.mod_lt _ (by decide)
    rw [BitField.toNat_field bytes _ (by decide)]
    exact ⟨LawfulLimbWord.literal (by unfold InRange; omega), by omega, by omega⟩
  · rename_i last
    have position : count - 1 = place.val := by omega
    have top_small : Bytes.toNat bytes / 2 ^ (21 * place.val) < 2 ^ width := by
      rw [position, pow_add] at fits
      exact Nat.div_lt_of_lt_mul fits
    have reach : Bytes.toNat bytes / 2 ^ (21 * place.val) < 2 ^ (64 - 21 * place.val % 8) :=
      Nat.lt_of_lt_of_le top_small (Nat.pow_le_pow_right (by decide) (by omega))
    rw [BitField.toNat_window, Nat.mod_eq_of_lt reach]
    generalize Bytes.toNat bytes / 2 ^ (21 * place.val) = top at top_small
    zify at top_small
    exact ⟨LawfulLimbWord.literal (by unfold InRange; omega), by omega, by omega⟩

end Split

section Pack

/-- Words of 21 bits are fields that packing keeps, and the last one may be `2 ^ 21` where the
last byte has a bit to spare. -/
theorem fits_of_small {held : Nat} {words : List UInt64} {last : UInt64}
    (small : ∀ word ∈ words, word.toNat < 2 ^ 21) (last_small : last.toNat ≤ 2 ^ 21)
    (spare : (held + 21 * (words.length + 1)) % 8 ≠ 0) :
    BitField.Fits held ((words ++ [last]).map fun word => (21, word)) := by
  induction words generalizing held with
  | nil =>
      refine ⟨by decide, Nat.lt_of_le_of_lt last_small ?_⟩
      simp only [List.length_nil] at spare
      exact Nat.pow_lt_pow_right (by decide) (by omega)
  | cons word rest ih =>
      rw [List.forall_mem_cons] at small
      rw [List.length_cons] at spare
      have spare_later : ((held + 21) % 8 + 21 * (rest.length + 1)) % 8 ≠ 0 := by omega
      have later := ih small.2 spare_later
      cases rest with
      | nil => exact ⟨by decide, small.1, later⟩
      | cons second others => exact ⟨by decide, small.1, later⟩

theorem fieldsValue_ofFn {count : Nat} (word : Fin count → UInt64) :
    (BitField.fieldsValue ((List.ofFn word).map fun word => (21, word)) : Int) =
      ∑ place, ((word place).toNat : Int) * 2 ^ (21 * place.val) := by
  induction count with
  | zero => simp [BitField.fieldsValue]
  | succ count ih =>
      have above := ih fun place => word place.succ
      have shifted (place : Fin count) : ((word place.succ).toNat : Int) *
          2 ^ (21 * place.succ.val) =
          2 ^ 21 * (((word place.succ).toNat : Int) * 2 ^ (21 * place.val)) := by
        rw [Fin.val_succ, Nat.mul_succ, pow_add]
        ring
      rw [List.ofFn_succ, List.map_cons, BitField.fieldsValue, Fin.sum_univ_succ,
        Finset.sum_congr rfl fun place _ => shifted place, ← Finset.mul_sum, ← above,
        Nat.cast_add, Nat.cast_mul]
      simp

def packedWord (limbs : Accumulator Int64) (place : Fin 12) : UInt64 :=
  (limbs.get (Fin.castAdd 12 place)).toUInt64

theorem toList_pack (limbs : Accumulator Int64) :
    (pack limbs).toList =
      BitField.pack 0 0 ((List.ofFn (packedWord limbs)).map fun word => (21, word)) := by
  have fields : (limbs.toList.take 12).map (fun limb => (21, limb.toUInt64)) =
      (List.ofFn (packedWord limbs)).map fun word => (21, word) := by
    apply List.ext_getElem
    · rw [List.length_map, List.length_map, List.length_take, List.length_ofFn,
        Vector.length_toList]
      rfl
    · intro place _ _
      simp only [List.getElem_map, List.getElem_take, Vector.getElem_toList, List.getElem_ofFn,
        packedWord]
      rfl
  rw [← fields]
  rfl

theorem toNat_packedWord {limbs : Accumulator Int64} {values : Accumulator Int}
    (tracks : Tracks limbs values reducedBounds) (nonneg : 0 ≤ lowValue values)
    (place : Fin 12) :
    ((packedWord limbs place).toNat : Int) = values.get (Fin.castAdd 12 place) := by
  obtain ⟨_, low, _, top_nonneg⟩ := tracks.reduced
  have positive : 0 ≤ values.get (Fin.castAdd 12 place) := by
    induction place using Fin.lastCases with
    | last => exact top_nonneg nonneg
    | cast place => exact (low place).1
  exact BitField.toNat_toUInt64_of_nonneg (tracks (Fin.castAdd 12 place)).1 positive

theorem toNat_pack {limbs : Accumulator Int64} {values : Accumulator Int}
    (tracks : Tracks limbs values reducedBounds) (nonneg : 0 ≤ lowValue values) :
    ((pack limbs).toNat : Int) = lowValue values := by
  obtain ⟨_, low, top, _⟩ := tracks.reduced
  have words := toNat_packedWord tracks nonneg
  have fits : BitField.Fits 0 ((List.ofFn (packedWord limbs)).map fun word => (21, word)) := by
    rw [List.ofFn_succ_last]
    apply fits_of_small
    · intro lower member
      obtain ⟨place, rfl⟩ := List.mem_ofFn.mp member
      have bound := (low place).2
      have same : _ = values.get (Fin.castAdd 13 place) := words place.castSucc
      omega
    · have same : _ = values.get 11 := words (Fin.last 11)
      omega
    · rw [List.length_ofFn]
      decide
  have packed := BitField.toNat_pack (by decide) (by decide : (0 : UInt64).toNat < 2 ^ 0) fits
  have written := fieldsValue_ofFn (packedWord limbs)
  rw [Block.toNat, toList_pack, packed, UInt64.toNat_zero, Nat.zero_add, Nat.pow_zero, Nat.one_mul,
    written, lowValue]
  exact Finset.sum_congr rfl fun place _ => by rw [words]

end Pack

section Product

/-- One column of a product, over its rows. -/
def column {α : Type} [LimbWord α] (left right : Vector α 12) (place : Fin 24) (rows : List (Fin 12))
    (start : α) : α :=
  rows.foldl (fun total row =>
    if row.val ≤ place.val then
      if inside : place.val - row.val < 12 then
        total + left.get row * right.get ⟨place.val - row.val, inside⟩
      else total
    else total) start

variable {left right : Vector Int 12}

theorem denotes_column {α : Type} [LimbWord α] [LawfulLimbWord α 64] {leftWords rightWords : Vector α 12}
    (left_denotes : ∀ place, Denotes (leftWords.get place) (left.get place) ∧
      0 ≤ left.get place ∧ left.get place < 2 ^ 25)
    (right_denotes : ∀ place, Denotes (rightWords.get place) (right.get place) ∧
      0 ≤ right.get place ∧ right.get place < 2 ^ 25)
    (place : Fin 24) (rows : List (Fin 12)) {word : α} {start : Int} (denotes : Denotes word start)
    (nonneg : 0 ≤ start) (room : start + rows.length * 2 ^ 50 < 2 ^ 54) :
    Denotes (column leftWords rightWords place rows word) (column left right place rows start) ∧
      0 ≤ column left right place rows start ∧ column left right place rows start < 2 ^ 54 := by
  induction rows generalizing word start with
  | nil => exact ⟨denotes, nonneg, by simpa [column] using room⟩
  | cons row rest ih =>
      rw [List.length_cons] at room
      push_cast at room
      simp only [column, List.foldl_cons]
      split
      · split
        · rename_i inside
          obtain ⟨first, first_nonneg, first_small⟩ := left_denotes row
          obtain ⟨second, second_nonneg, second_small⟩ :=
            right_denotes ⟨place.val - row.val, inside⟩
          have product_nonneg := mul_nonneg first_nonneg second_nonneg
          have product_small :
              left.get row * right.get ⟨place.val - row.val, inside⟩ < 2 ^ 50 := by nlinarith
          have product := LawfulLimbWord.mul first second (by unfold InRange; omega)
          have sum := LawfulLimbWord.add denotes product (by unfold InRange; omega)
          exact ih sum (by omega) (by omega)
        · exact ih denotes nonneg (by omega)
      · exact ih denotes nonneg (by omega)

def rowTerm (left right : Vector Int 12) (place : Fin 24) (row : Fin 12) : Int :=
  if row.val ≤ place.val then
    if inside : place.val - row.val < 12 then
      left.get row * right.get ⟨place.val - row.val, inside⟩
    else 0
  else 0

theorem column_eq (place : Fin 24) (rows : List (Fin 12)) (start : Int) :
    column left right place rows start = start + (rows.map (rowTerm left right place)).sum := by
  induction rows generalizing start with
  | nil => simp [column]
  | cons row rest ih =>
      have unfolded : column left right place (row :: rest) start =
          column left right place rest (start + rowTerm left right place row) := by
        simp only [column, List.foldl_cons, rowTerm]
        split
        · split
          · rfl
          · rw [add_zero]
        · rw [add_zero]
      rw [unfolded, ih, List.map_cons, List.sum_cons, add_assoc]

/-- A row meets a column at no more than one limb of the right factor. -/
theorem rowTerm_eq_sum (place : Fin 24) (row : Fin 12) :
    rowTerm left right place row =
      ∑ shift : Fin 12, if row.val + shift.val = place.val then
        left.get row * right.get shift else 0 := by
  by_cases inside : row.val ≤ place.val ∧ place.val - row.val < 12
  · rw [rowTerm, if_pos inside.1, dif_pos inside.2,
      Finset.sum_eq_single ⟨place.val - row.val, inside.2⟩]
    · rw [if_pos (by dsimp only; omega)]
    · intro shift _ differ
      apply if_neg
      intro same
      apply differ
      ext
      dsimp only
      omega
    · simp
  · have outside : rowTerm left right place row = 0 := by
      by_cases low : row.val ≤ place.val
      · rw [rowTerm, if_pos low, dif_neg fun near => inside ⟨low, near⟩]
      · rw [rowTerm, if_neg low]
    rw [outside, Finset.sum_eq_zero]
    intro shift _
    apply if_neg
    omega

/-- Over all columns, a row adds the whole right factor at its own weight. -/
theorem sum_rowTerm (row : Fin 12) :
    ∑ place : Fin 24, rowTerm left right place row * 2 ^ (21 * place.val) =
      left.get row * 2 ^ (21 * row.val) * limbsValue right := by
  have met (shift : Fin 12) :
      ∑ place : Fin 24, (if row.val + shift.val = place.val then
        left.get row * right.get shift else 0) * 2 ^ (21 * place.val) =
      left.get row * 2 ^ (21 * row.val) * (right.get shift * 2 ^ (21 * shift.val)) := by
    rw [Finset.sum_eq_single ⟨row.val + shift.val, by omega⟩]
    · rw [if_pos rfl, Nat.mul_add, pow_add]
      ring
    · intro place _ differ
      rw [if_neg fun same => differ (Fin.ext same.symm), zero_mul]
    · simp
  simp only [rowTerm_eq_sum, Finset.sum_mul]
  rw [Finset.sum_comm, limbsValue, Finset.mul_sum]
  exact Finset.sum_congr rfl fun shift _ => met shift

def addendLimb (addend : Vector Int 12) (place : Fin 24) : Int :=
  if low : place.val < 12 then addend.get ⟨place.val, low⟩ else 0

theorem sum_addendLimb (addend : Vector Int 12) :
    ∑ place : Fin 24, addendLimb addend place * 2 ^ (21 * place.val) = limbsValue addend := by
  have parts := Fin.sum_univ_add (a := 12) (b := 12) fun place : Fin (12 + 12) =>
    addendLimb addend place * (2 : Int) ^ (21 * place.val)
  refine parts.trans ?_
  have upper (place : Fin 12) : addendLimb addend (Fin.natAdd 12 place) = 0 := by
    rw [addendLimb, dif_neg (by simp)]
  have lower (place : Fin 12) : addendLimb addend (Fin.castAdd 12 place) = addend.get place := by
    rw [addendLimb, dif_pos (by simp)]
    rfl
  have upper_sum : ∑ place : Fin 12, addendLimb addend (Fin.natAdd 12 place) *
      (2 : Int) ^ (21 * (Fin.natAdd 12 place).val) = 0 :=
    Finset.sum_eq_zero fun place _ => by rw [upper, zero_mul]
  rw [upper_sum, add_zero]
  apply Finset.sum_congr rfl
  intro place _
  rw [lower]
  rfl

theorem get_productPlus {α : Type} [LimbWord α] (left right addend : Vector α 12)
    (place : Fin 24) : (productPlus left right addend).get place =
      column left right place (List.finRange 12)
        (if low : place.val < 12 then addend.get ⟨place.val, low⟩ else LimbWord.literal 0) := by
  rw [productPlus, Vector.get_ofFn, column]
  dsimp only
  congr 1
  funext total row
  by_cases low : row.val ≤ place.val
  · by_cases near : place.val - row.val < 12
    · rw [dif_pos ⟨low, near⟩, if_pos low, dif_pos near]
      rfl
    · rw [dif_neg fun inside => near inside.2, if_pos low, dif_neg near]
  · rw [dif_neg fun inside => low inside.1, if_neg low]

theorem limbsValue_productPlus (addend : Vector Int 12) :
    limbsValue (productPlus left right addend) =
      limbsValue left * limbsValue right + limbsValue addend := by
  have term (place : Fin 24) :
      (productPlus left right addend).get place * 2 ^ (21 * place.val) =
        addendLimb addend place * 2 ^ (21 * place.val) +
          ∑ row : Fin 12, rowTerm left right place row * 2 ^ (21 * place.val) := by
    rw [get_productPlus, column_eq, ← Fin.sum_univ_def, add_mul, Finset.sum_mul]
    rfl
  rw [limbsValue, Finset.sum_congr rfl fun place _ => term place, Finset.sum_add_distrib,
    sum_addendLimb, Finset.sum_comm, Finset.sum_congr rfl fun row _ => sum_rowTerm row,
    ← Finset.sum_mul, add_comm]
  rfl

/-- Intervals for the columns of a product of two scalars, the last of which is empty. -/
def productBounds : Bounds := put (Vector.replicate 24 ⟨0, 2 ^ 54⟩) 23 ⟨0, 0⟩

theorem run_productSchedule :
    ∃ after, productBounds.run productSchedule = some after ∧
      ∀ place : Fin 24, (after.get place).Within (startBounds.get place) := by
  refine ⟨(productBounds.run productSchedule).get (by decide +kernel), by simp, ?_⟩
  decide +kernel

theorem column_last (rows : List (Fin 12)) (start : Int) :
    column left right 23 rows start = start := by
  have none (row : Fin 12) : rowTerm left right 23 row = 0 := by
    have far : ¬(23 : Fin 24).val - row.val < 12 := by
      have position : (23 : Fin 24).val = 23 := rfl
      omega
    by_cases low : row.val ≤ (23 : Fin 24).val
    · rw [rowTerm, if_pos low, dif_neg far]
    · rw [rowTerm, if_neg low]
  rw [column_eq, funext none]
  simp

theorem tracks_productPlus {α : Type} [LimbWord α] [LawfulLimbWord α 64]
    {leftWords rightWords addendWords : Vector α 12} {addend : Vector Int 12}
    (left_denotes : ∀ place, Denotes (leftWords.get place) (left.get place) ∧
      0 ≤ left.get place ∧ left.get place < 2 ^ 25)
    (right_denotes : ∀ place, Denotes (rightWords.get place) (right.get place) ∧
      0 ≤ right.get place ∧ right.get place < 2 ^ 25)
    (addend_denotes : ∀ place, Denotes (addendWords.get place) (addend.get place) ∧
      0 ≤ addend.get place ∧ addend.get place < 2 ^ 25) :
    Tracks (productPlus leftWords rightWords addendWords) (productPlus left right addend)
      productBounds := by
  intro place
  have start : Denotes (if low : place.val < 12 then addendWords.get ⟨place.val, low⟩
      else LimbWord.literal 0 : α) (addendLimb addend place) ∧
      0 ≤ addendLimb addend place ∧ addendLimb addend place < 2 ^ 25 := by
    unfold addendLimb
    split
    · rename_i low
      exact addend_denotes ⟨place.val, low⟩
    · exact ⟨LawfulLimbWord.literal (by decide), by decide, by decide⟩
  obtain ⟨denotes, nonneg, small⟩ := denotes_column left_denotes right_denotes place
    (List.finRange 12) start.1 start.2.1 (by rw [List.length_finRange]; omega)
  rw [get_productPlus, get_productPlus]
  constructor
  · exact denotes
  · by_cases last : place = 23
    · subst last
      rw [column_last]
      exact ⟨Int.le_refl 0, Int.le_refl 0⟩
    · have interval : productBounds.get place = ⟨0, 2 ^ 54⟩ := by
        rw [productBounds, get_put_of_ne _ last, Vector.get_replicate]
      rw [interval]
      exact ⟨nonneg, small.le⟩

end Product

section Results

theorem Tracks.lowValue_nonneg {α : Type} [LimbWord α] [LawfulLimbWord α 64]
    {limbs : Accumulator α} {values : Accumulator Int} (tracks : Tracks limbs values startBounds) :
    0 ≤ lowValue (Scalar.run reductionSchedule values) := by
  obtain ⟨reduced, value_eq⟩ := tracks.reduction
  have positive : (0 : Int) < order := by decide
  rw [← reduced.reduced.1, value_eq]
  exact Int.emod_nonneg _ positive.ne'

theorem toNat_pack_reduction {limbs : Accumulator Int64} {values : Accumulator Int}
    (tracks : Tracks limbs values startBounds) :
    ((pack (run reductionSchedule limbs)).toNat : Int) = limbsValue values % order := by
  obtain ⟨reduced, value_eq⟩ := tracks.reduction
  rw [toNat_pack reduced tracks.lowValue_nonneg, ← reduced.reduced.1, value_eq]

theorem wide_fits (wide : Block 64) : Bytes.toNat wide.toList < 2 ^ (21 * (24 - 1) + 29) := by
  have power : 256 ^ 64 = 2 ^ (21 * (24 - 1) + 29) := by decide +kernel
  exact power ▸ wide.toNat_lt

theorem scalar_fits (scalar : Block 32) : Bytes.toNat scalar.toList < 2 ^ (21 * (12 - 1) + 25) := by
  have power : 256 ^ 32 = 2 ^ (21 * (12 - 1) + 25) := by decide
  exact power ▸ scalar.toNat_lt

section Start

variable {α : Type} [LimbWord α] [LawfulLimbWord α 64]

theorem tracks_split (wide : Block 64) :
    Tracks (split α 24 wide.toList) (numberLimbs 24 wide.toNat) startBounds := by
  intro place
  obtain ⟨denotes, nonneg, small⟩ :=
    denotes_split (α := α) (wide_fits wide) (by decide) (by decide) place
  refine ⟨denotes, ?_⟩
  have interval : startBounds.get place = ⟨-2 ^ 34, 2 ^ 34⟩ := by
    rw [startBounds, Vector.get_replicate]
  rw [interval]
  rw [← Block.toNat] at nonneg small
  exact ⟨by dsimp only; omega, by dsimp only; omega⟩

theorem tracks_product (left right addend : Block 32) :
    Tracks
      (productPlus (split α 12 left.toList) (split α 12 right.toList) (split α 12 addend.toList))
      (productPlus (numberLimbs 12 left.toNat) (numberLimbs 12 right.toNat)
        (numberLimbs 12 addend.toNat)) productBounds := by
  have limbs (scalar : Block 32) :=
    denotes_split (α := α) (scalar_fits scalar) (by decide) (by decide)
  exact tracks_productPlus (limbs left) (limbs right) (limbs addend)

/-- The carries after a product bring its limbs to where the reduction may start. -/
theorem Tracks.carryProduct {limbs : Accumulator α} {values : Accumulator Int}
    (tracks : Tracks limbs values productBounds) :
    Tracks (Scalar.run productSchedule limbs) (Scalar.run productSchedule values) startBounds := by
  obtain ⟨after, run_eq, within⟩ := run_productSchedule
  exact (tracks.run run_eq).widen within

end Start

theorem limbsValue_product (left right addend : Block 32) :
    limbsValue (productPlus (numberLimbs 12 left.toNat) (numberLimbs 12 right.toNat)
      (numberLimbs 12 addend.toNat)) = left.toNat * right.toNat + addend.toNat := by
  rw [limbsValue_productPlus, limbsValue_numberLimbs, limbsValue_numberLimbs,
    limbsValue_numberLimbs]

theorem toNat_reduceLimbs (wide : Block 64) : (reduceLimbs wide).toNat = wide.toNat % order := by
  have packed := toNat_pack_reduction (tracks_split wide)
  rw [limbsValue_numberLimbs] at packed
  exact_mod_cast packed

theorem toNat_multiplyAddLimbs (left right addend : Block 32) :
    (multiplyAddLimbs left right addend).toNat =
      (left.toNat * right.toNat + addend.toNat) % order := by
  have packed := toNat_pack_reduction (tracks_product left right addend).carryProduct
  have residue := limbsValue_run_modEq productSchedule (productPlus (numberLimbs 12 left.toNat)
    (numberLimbs 12 right.toNat) (numberLimbs 12 addend.toNat))
  rw [residue.eq, limbsValue_product] at packed
  rw [multiplyAddLimbs, run_append]
  exact_mod_cast packed

end Results

theorem order_lt_two_pow : order < 2 ^ 255 := by decide

end EdwardsSignature.Scalar

namespace EdwardsSignature.ScalarArithmetic

theorem order_lt : Scalar.order < 256 ^ 32 := by decide

theorem order_pos : 0 < Scalar.order := by decide

theorem limbs_lawful : limbs.Lawful := ⟨Scalar.toNat_reduceLimbs, Scalar.toNat_multiplyAddLimbs⟩

theorem toNat_ofNat_mod_order (number : Nat) :
    (Block.ofNat 32 (number % Scalar.order)).toNat = number % Scalar.order :=
  Block.toNat_ofNat_of_lt ((Nat.mod_lt number order_pos).trans order_lt)

theorem naturals_lawful : naturals.Lawful :=
  ⟨fun _ => toNat_ofNat_mod_order _, fun _ _ _ => toNat_ofNat_mod_order _⟩

/-- Reduced scalars leave bit 255 free. -/
theorem mod_order_lt_two_pow (number : Nat) : number % Scalar.order < 2 ^ 255 :=
  (Nat.mod_lt number order_pos).trans Scalar.order_lt_two_pow

namespace Lawful

variable {scalars : ScalarArithmetic}

theorem reduce_lt_two_pow (lawful : scalars.Lawful) (wide : Block 64) :
    (scalars.reduce wide).toNat < 2 ^ 255 := by
  rw [lawful.toNat_reduce]
  exact mod_order_lt_two_pow _

end Lawful

end EdwardsSignature.ScalarArithmetic
