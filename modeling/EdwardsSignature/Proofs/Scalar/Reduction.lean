import Mathlib
import EdwardsSignature.Proofs.BitField
import EdwardsSignature.Proofs.Scalar.Bounds

/-! A schedule of folds and carries changes the number only by multiples of the order, and
the reduction's leaves the least residue. -/

set_option autoImplicit false

namespace EdwardsSignature.Scalar

section Value

/-- The number that limbs stand for. -/
def limbsValue {count : Nat} (limbs : Vector Int count) : Int :=
  ∑ place : Fin count, limbs.get place * 2 ^ (21 * place.val)

theorem limbsValue_put {count : Nat} (limbs : Vector Int count) (place : Fin count) (limb : Int) :
    limbsValue (put limbs place limb) =
      limbsValue limbs + (limb - limbs.get place) * 2 ^ (21 * place.val) := by
  have changed (other : Fin count) : (put limbs place limb).get other * 2 ^ (21 * other.val) =
      limbs.get other * 2 ^ (21 * other.val) +
        if other = place then (limb - limbs.get place) * 2 ^ (21 * place.val) else 0 := by
    rw [get_put]
    split
    · rename_i same
      subst same
      ring
    · rw [add_zero]
  rw [limbsValue, Finset.sum_congr rfl fun other _ => changed other, Finset.sum_add_distrib,
    Finset.sum_ite_eq' Finset.univ place]
  simp [limbsValue]

theorem limbsValue_moveUp (limbs : Accumulator Int) (source : Fin 23) (carried : Int) :
    limbsValue (moveUp limbs source carried) = limbsValue limbs := by
  have apart : source.castSucc ≠ source.succ := (Fin.castSucc_lt_succ).ne
  have weight : (2 : Int) ^ (21 * source.succ.val) = 2 ^ 21 * 2 ^ (21 * source.castSucc.val) := by
    rw [Fin.val_succ, Fin.val_castSucc, Nat.mul_succ, Nat.add_comm, pow_add]
  have back : LimbWord.shiftLeft carried 21 = carried * 2 ^ 21 := rfl
  rw [moveUp_eq, limbsValue_put, limbsValue_put, get_put_of_ne _ apart, weight, back]
  ring

/-- The fold digits write what `2 ^ 252` exceeds the order by, which is negative. -/
theorem foldDigits_value :
    ∑ digit : Fin 6, foldDigits.get digit * (2 : Int) ^ (21 * digit.val) = 2 ^ 252 - order := by
  decide +kernel

theorem limbsValue_addDigits (low : Fin 12) (folded : Int) (digits : List (Fin 6))
    (limbs : Accumulator Int) :
    limbsValue (digits.foldl (addDigit low folded) limbs) =
      limbsValue limbs + folded * 2 ^ (21 * low.val) *
        (digits.map fun digit => foldDigits.get digit * (2 : Int) ^ (21 * digit.val)).sum := by
  induction digits generalizing limbs with
  | nil => simp
  | cons digit rest ih =>
      have weight : (2 : Int) ^ (21 * (digitPlace low digit).val) =
          2 ^ (21 * low.val) * 2 ^ (21 * digit.val) := by
        rw [digitPlace, Nat.mul_add, pow_add]
      have literal : (LimbWord.literal (foldDigits.get digit) : Int) = foldDigits.get digit := rfl
      rw [List.foldl_cons, ih, List.map_cons, List.sum_cons, addDigit, limbsValue_put, weight,
        literal]
      ring

theorem get_addDigits (low : Fin 12) (folded : Int) (digits : List (Fin 6))
    (limbs : Accumulator Int) :
    (digits.foldl (addDigit low folded) limbs).get (low.addNat 12) = limbs.get (low.addNat 12) := by
  induction digits generalizing limbs with
  | nil => rfl
  | cons digit rest ih =>
      have apart : low.addNat 12 ≠ digitPlace low digit := by
        intro same
        have positions := congrArg Fin.val same
        simp only [digitPlace, Fin.val_addNat] at positions
        omega
      rw [List.foldl_cons, ih, addDigit, get_put_of_ne _ apart]

/-- Folding takes away the folded limb's multiple of the order, at the limb's weight. -/
theorem limbsValue_fold (limbs : Accumulator Int) (low : Fin 12) :
    limbsValue (Step.apply limbs (.fold low)) =
      limbsValue limbs - limbs.get (low.addNat 12) * 2 ^ (21 * low.val) * order := by
  have weight : (2 : Int) ^ (21 * (low.addNat 12).val) = 2 ^ (21 * low.val) * 2 ^ 252 := by
    rw [Fin.val_addNat, Nat.mul_add, pow_add]
  have zero : (LimbWord.literal 0 : Int) = 0 := rfl
  rw [apply_fold, limbsValue_put, addFolded_eq, limbsValue_addDigits, get_addDigits,
    ← Fin.sum_univ_def, foldDigits_value, weight, zero]
  ring

theorem limbsValue_floorCarry (limbs : Accumulator Int) (source : Fin 23) :
    limbsValue (Step.apply limbs (.floorCarry source)) = limbsValue limbs :=
  limbsValue_moveUp limbs source _

theorem limbsValue_carry (limbs : Accumulator Int) (source : Fin 23) :
    limbsValue (Step.apply limbs (.carry source)) = limbsValue limbs :=
  limbsValue_moveUp limbs source _

theorem limbsValue_apply_modEq (limbs : Accumulator Int) (step : Step) :
    limbsValue (Step.apply limbs step) ≡ limbsValue limbs [ZMOD order] := by
  cases step with
  | fold low =>
      rw [limbsValue_fold]
      exact (Int.modEq_iff_dvd.mpr (by simp))
  | carry source => rw [limbsValue_carry]
  | floorCarry source => rw [limbsValue_floorCarry]

theorem limbsValue_run_modEq (schedule : List Step) (limbs : Accumulator Int) :
    limbsValue (run schedule limbs) ≡ limbsValue limbs [ZMOD order] := by
  induction schedule generalizing limbs with
  | nil => rfl
  | cons step rest ih => exact (ih (Step.apply limbs step)).trans (limbsValue_apply_modEq limbs step)

end Value

section Range

theorem digits_within {count : Nat} {digit : Fin count → Int}
    (within : ∀ place, 0 ≤ digit place ∧ digit place ≤ 2 ^ 21 - 1) :
    0 ≤ ∑ place, digit place * 2 ^ (21 * place.val) ∧
      ∑ place, digit place * 2 ^ (21 * place.val) < 2 ^ (21 * count) := by
  induction count with
  | zero => simp
  | succ count ih =>
      obtain ⟨low, high⟩ := ih fun place => within place.castSucc
      obtain ⟨nonneg, small⟩ := within (Fin.last count)
      have positive : (0 : Int) < 2 ^ (21 * count) := by positivity
      have weight : (2 : Int) ^ (21 * (count + 1)) = 2 ^ 21 * 2 ^ (21 * count) := by
        rw [Nat.mul_succ, Nat.add_comm, pow_add]
      rw [Fin.sum_univ_castSucc, weight]
      simp only [Fin.val_castSucc, Fin.val_last]
      constructor
      · positivity
      · nlinarith

def lowValue (limbs : Accumulator Int) : Int :=
  ∑ place : Fin 12, limbs.get (Fin.castAdd 12 place) * 2 ^ (21 * place.val)

theorem limbsValue_eq_of_zero {limbs : Accumulator Int}
    (zero : ∀ place : Fin 24, 12 < place.val → limbs.get place = 0) :
    limbsValue limbs = lowValue limbs + limbs.get 12 * 2 ^ 252 := by
  have upper : ∑ place : Fin 12,
      limbs.get (Fin.natAdd 12 place) * (2 : Int) ^ (21 * (Fin.natAdd 12 place).val) =
        limbs.get 12 * 2 ^ 252 := by
    rw [Fin.sum_univ_succ, Finset.sum_eq_zero, add_zero]
    · rfl
    · intro place _
      have vanishes := zero (Fin.natAdd 12 place.succ) (by simp)
      rw [vanishes, zero_mul]
  rw [← upper]
  exact Fin.sum_univ_add (a := 12) (b := 12) fun place => limbs.get place * 2 ^ (21 * place.val)

def startBounds : Bounds := Vector.replicate 24 ⟨-2 ^ 34, 2 ^ 34⟩

/-- What the first chain of floor carries leaves. -/
def settledBounds : Bounds :=
  Vector.ofFn fun place : Fin 24 =>
    if place.val < 12 then ⟨0, 2 ^ 21 - 1⟩ else if place.val = 12 then ⟨-1, 0⟩ else ⟨0, 0⟩

/-- What the last chain of floor carries leaves. -/
def reducedBounds : Bounds :=
  Vector.ofFn fun place : Fin 24 =>
    if place.val < 11 then ⟨0, 2 ^ 21 - 1⟩ else if place.val = 11 then ⟨-1, 2 ^ 21⟩ else ⟨0, 0⟩

def settlingSchedule : List Step := reductionSchedule.take 48

def lastCarries : List Step := reductionSchedule.drop 49

theorem reductionSchedule_eq :
    reductionSchedule = settlingSchedule ++ .fold 0 :: lastCarries := rfl

theorem run_settlingSchedule : startBounds.run settlingSchedule = some settledBounds := by
  decide +kernel

theorem run_lastCarries : settledBounds.run (.fold 0 :: lastCarries) = some reducedBounds := by
  decide +kernel

theorem run_append {α : Type} [LimbWord α] (first second : List Step) (limbs : Accumulator α) :
    run (first ++ second) limbs = run second (run first limbs) :=
  List.foldl_append

theorem limbsValue_run_floorCarries {schedule : List Step}
    (floors : ∀ step ∈ schedule, ∃ source, step = .floorCarry source) (limbs : Accumulator Int) :
    limbsValue (run schedule limbs) = limbsValue limbs := by
  induction schedule generalizing limbs with
  | nil => rfl
  | cons step rest ih =>
      rw [List.forall_mem_cons] at floors
      obtain ⟨⟨source, rfl⟩, later⟩ := floors
      exact (ih later _).trans (limbsValue_floorCarry limbs source)

theorem lastCarries_floor : ∀ step ∈ lastCarries, ∃ source, step = .floorCarry source := by
  decide

section Tracked

variable {α : Type} [LimbWord α] [LawfulLimbWord α 64] {limbs : Accumulator α}
  {values : Accumulator Int}

/-- Settled limbs are a number below `2 ^ 252`, less that power or not. -/
theorem Tracks.settled (tracks : Tracks limbs values settledBounds) :
    (0 ≤ lowValue values ∧ lowValue values < 2 ^ 252) ∧ -1 ≤ values.get 12 ∧ values.get 12 ≤ 0 ∧
      limbsValue values = lowValue values + values.get 12 * 2 ^ 252 := by
  have digit (place : Fin 12) : 0 ≤ values.get (Fin.castAdd 12 place) ∧
      values.get (Fin.castAdd 12 place) ≤ 2 ^ 21 - 1 := by
    have inside := (tracks (Fin.castAdd 12 place)).2
    rw [settledBounds, Vector.get_ofFn, if_pos (by simp)] at inside
    exact inside
  have top : -1 ≤ values.get 12 ∧ values.get 12 ≤ 0 := (tracks 12).2
  refine ⟨digits_within digit, top.1, top.2, limbsValue_eq_of_zero ?_⟩
  intro place above
  have inside := (tracks place).2
  rw [settledBounds, Vector.get_ofFn, if_neg (by omega), if_neg (by omega)] at inside
  exact le_antisymm inside.2 inside.1

theorem Tracks.get_eq_zero (tracks : Tracks limbs values reducedBounds) {place : Fin 24}
    (above : 11 < place.val) : values.get place = 0 := by
  have inside := (tracks place).2
  rw [reducedBounds, Vector.get_ofFn, if_neg (by omega), if_neg (by omega)] at inside
  exact le_antisymm inside.2 inside.1

theorem Tracks.reduced (tracks : Tracks limbs values reducedBounds) :
    limbsValue values = lowValue values ∧
      (∀ place : Fin 11, 0 ≤ values.get (Fin.castAdd 13 place) ∧
        values.get (Fin.castAdd 13 place) ≤ 2 ^ 21 - 1) ∧
      values.get 11 ≤ 2 ^ 21 ∧ (0 ≤ lowValue values → 0 ≤ values.get 11) := by
  have digit (place : Fin 11) : 0 ≤ values.get (Fin.castAdd 13 place) ∧
      values.get (Fin.castAdd 13 place) ≤ 2 ^ 21 - 1 := by
    have inside := (tracks (Fin.castAdd 13 place)).2
    rw [reducedBounds, Vector.get_ofFn, if_pos (by simp)] at inside
    exact inside
  have top : values.get 11 ≤ 2 ^ 21 := (tracks 11).2.2
  have twelfth : values.get 12 = 0 := tracks.get_eq_zero (by decide)
  refine ⟨?_, digit, top, ?_⟩
  · rw [limbsValue_eq_of_zero fun _ above => tracks.get_eq_zero (by omega), twelfth, zero_mul,
      add_zero]
  · intro nonneg
    have below := (digits_within digit).2
    rw [lowValue, Fin.sum_univ_castSucc] at nonneg
    simp only [Fin.val_castSucc, Fin.val_last] at nonneg
    have last : values.get (Fin.castAdd 12 (Fin.last 11)) = values.get 11 := rfl
    have others (place : Fin 11) : values.get (Fin.castAdd 12 place.castSucc) =
        values.get (Fin.castAdd 13 place) := rfl
    simp only [last, others] at nonneg
    have power : (0 : Int) < 2 ^ (21 * 11) := by positivity
    by_contra negative
    have lowest : values.get 11 ≤ -1 := by omega
    nlinarith

/-- The schedule leads from any limbs that it may start from to the least residue. -/
theorem Tracks.reduction (tracks : Tracks limbs values startBounds) :
    Tracks (Scalar.run reductionSchedule limbs) (Scalar.run reductionSchedule values)
        reducedBounds ∧
      limbsValue (Scalar.run reductionSchedule values) = limbsValue values % order := by
  have settling := tracks.run run_settlingSchedule
  have finished := settling.run run_lastCarries
  have residue := limbsValue_run_modEq settlingSchedule values
  rw [reductionSchedule_eq, run_append, run_append]
  refine ⟨finished, ?_⟩
  generalize Scalar.run settlingSchedule values = middle at *
  obtain ⟨⟨low, high⟩, below, above, value_eq⟩ := settling.settled
  have folded := limbsValue_fold middle 0
  have kept := limbsValue_run_floorCarries lastCarries_floor (Step.apply middle (.fold 0))
  have value_after : limbsValue (Scalar.run (.fold 0 :: lastCarries) middle) =
      limbsValue middle - middle.get 12 * order := by
    have unfolded : Scalar.run (.fold 0 :: lastCarries) middle =
        Scalar.run lastCarries (Step.apply middle (.fold 0)) := List.foldl_cons
    rw [unfolded, kept, folded]
    have twelfth : middle.get (Fin.addNat 0 12) = middle.get 12 := rfl
    rw [twelfth, Fin.val_zero, Nat.mul_zero, pow_zero, mul_one]
  have order_eq : (order : Int) = 2 ^ 252 + 27742317777372353535851937790883648493 := by
    decide +kernel
  have congruent : limbsValue middle - middle.get 12 * order ≡ limbsValue values [ZMOD order] := by
    refine Int.ModEq.trans ?_ residue
    exact Int.modEq_iff_dvd.mpr (by simp)
  have inside : 0 ≤ limbsValue middle - middle.get 12 * order ∧
      limbsValue middle - middle.get 12 * order < order := by
    rw [value_eq]
    -- Limb 12 is the sign: a number below zero gets the order added once more.
    obtain zero | minus : middle.get 12 = 0 ∨ middle.get 12 = -1 := by omega
    · rw [zero]
      omega
    · rw [minus]
      omega
  rw [value_after]
  exact (Int.emod_eq_of_lt inside.1 inside.2).symm.trans congruent

end Tracked

end Range

end EdwardsSignature.Scalar
