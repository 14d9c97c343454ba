import Mathlib
import EdwardsSignature.Proofs.Scalar.Arithmetic

/-! Scalar arithmetic on limbs that watches every word.

Each schedule is run on machine words, on words that remember leaving their range, and on
integers. After any number of steps the three runs hold the same limbs, so no word formed on
the way has overflowed. What is packed at the end loses no bit: the packed limbs fit their fields, the
others are zero, and the bytes write the number of all limbs. -/

set_option autoImplicit false

namespace EdwardsSignature.Scalar

/-- Limbs of the three runs that stand for the same integers. A checked word that is there has
been formed from words that were there, each within 64 bits. -/
structure InStep {count : Nat} (machine : Vector Int64 count)
    (checked : Vector (Checked 64) count) (exact : Vector Int count) : Prop where
  machine_eq : ∀ place : Fin count, (machine.get place).toInt = exact.get place
  checked_eq : ∀ place : Fin count, (checked.get place).value? = some (exact.get place)

section Steps

variable {machine : Accumulator Int64} {checked : Accumulator (Checked 64)}
  {exact : Accumulator Int}

theorem Tracks.inStep {machineBounds checkedBounds : Bounds}
    (runs : Tracks machine exact machineBounds) (checks : Tracks checked exact checkedBounds) :
    InStep machine checked exact :=
  ⟨fun place => (runs place).1, fun place => (checks place).1⟩

/-- The runs agree after any number of steps. -/
def StaysInStep (schedule : List Step) (machine : Accumulator Int64)
    (checked : Accumulator (Checked 64)) (exact : Accumulator Int) : Prop :=
  ∀ count, InStep (run (schedule.take count) machine) (run (schedule.take count) checked)
    (run (schedule.take count) exact)

theorem Tracks.staysInStep {bounds after : Bounds} {schedule : List Step}
    (runs : Tracks machine exact bounds) (checks : Tracks checked exact bounds)
    (accepted : bounds.run schedule = some after) : StaysInStep schedule machine checked exact := by
  intro count
  obtain ⟨_, machine_tracks⟩ := runs.run_take accepted count
  obtain ⟨_, checked_tracks⟩ := checks.run_take accepted count
  exact machine_tracks.inStep checked_tracks

theorem StaysInStep.append {first second : List Step}
    (before : StaysInStep first machine checked exact)
    (after : StaysInStep second (run first machine) (run first checked) (run first exact)) :
    StaysInStep (first ++ second) machine checked exact := by
  intro count
  rw [List.take_append]
  rcases Nat.le_total count first.length with within | beyond
  · rw [Nat.sub_eq_zero_of_le within, List.take_zero, List.append_nil]
    exact before count
  · rw [List.take_of_length_le beyond, run_append, run_append, run_append]
    exact after (count - first.length)

end Steps

theorem run_reductionSchedule : startBounds.run reductionSchedule = some reducedBounds := by
  have split := Bounds.run_append settlingSchedule (.fold 0 :: lastCarries) startBounds
  rw [run_settlingSchedule, Option.bind_some, run_lastCarries] at split
  rw [reductionSchedule_eq, split]

/-- A schedule from given limbs to what it packs: the runs stay in step, the number stays the
same modulo the order, the limbs that are packed fit their fields, and the ones above them are
zero. So the bytes write the limbs that are packed, and these are the whole number. -/
structure RunsExactly (schedule : List Step) (machine : Accumulator Int64)
    (checked : Accumulator (Checked 64)) (exact : Accumulator Int) (packed : Block 32) : Prop where
  staysInStep : StaysInStep schedule machine checked exact
  modEq : ∀ count, limbsValue (run (schedule.take count) exact) ≡ limbsValue exact [ZMOD order]
  low : ∀ place : Fin 11,
    0 ≤ ((run schedule machine).get (Fin.castAdd 13 place)).toInt ∧
      ((run schedule machine).get (Fin.castAdd 13 place)).toInt < 2 ^ 21
  last : 0 ≤ ((run schedule machine).get 11).toInt ∧ ((run schedule machine).get 11).toInt ≤ 2 ^ 21
  above : ∀ place : Fin 12, ((run schedule machine).get (Fin.natAdd 12 place)).toInt = 0
  packed_eq : (packed.toNat : Int) =
    ∑ place : Fin 12, ((run schedule machine).get (Fin.castAdd 12 place)).toInt *
      2 ^ (21 * place.val)
  whole_eq : (packed.toNat : Int) = limbsValue (run schedule exact)

section Runs

variable {machine : Accumulator Int64} {checked : Accumulator (Checked 64)}
  {exact : Accumulator Int}

theorem Tracks.runsExactly (runs : Tracks machine exact startBounds)
    (checks : Tracks checked exact startBounds) :
    RunsExactly reductionSchedule machine checked exact
      (pack (Scalar.run reductionSchedule machine)) := by
  have reduced := runs.reduction.1
  have nonneg := runs.lowValue_nonneg
  obtain ⟨value_eq, low, high, last_nonneg⟩ := reduced.reduced
  have machine_eq (place : Fin 24) : ((Scalar.run reductionSchedule machine).get place).toInt =
      (Scalar.run reductionSchedule exact).get place := (reduced place).1
  refine ⟨runs.staysInStep checks run_reductionSchedule, ?_, ?_, ?_, ?_, ?_, ?_⟩
  · intro count
    exact limbsValue_run_modEq _ exact
  · intro place
    rw [machine_eq]
    have within := low place
    omega
  · rw [machine_eq]
    exact ⟨last_nonneg nonneg, high⟩
  · intro place
    rw [machine_eq]
    exact reduced.get_eq_zero (by rw [Fin.val_natAdd]; omega)
  · rw [toNat_pack reduced nonneg, lowValue]
    exact Finset.sum_congr rfl fun place _ => by rw [machine_eq]
  · rw [toNat_pack reduced nonneg, value_eq]

/-- Carries before the reduction change nothing of it. -/
theorem RunsExactly.after {carries : List Step} {packed : Block 32}
    (carried : StaysInStep carries machine checked exact)
    (reduces : RunsExactly reductionSchedule (run carries machine) (run carries checked)
      (run carries exact) packed) :
    RunsExactly (carries ++ reductionSchedule) machine checked exact packed where
  staysInStep := carried.append reduces.staysInStep
  modEq := fun _ => limbsValue_run_modEq _ exact
  low := by
    rw [run_append]
    exact reduces.low
  last := by
    rw [run_append]
    exact reduces.last
  above := by
    rw [run_append]
    exact reduces.above
  packed_eq := by
    rw [run_append]
    exact reduces.packed_eq
  whole_eq := by
    rw [run_append]
    exact reduces.whole_eq

end Runs

theorem inStep_splitScalar (scalar : Block 32) :
    InStep (split Int64 12 scalar.toList) (split (Checked 64) 12 scalar.toList)
      (numberLimbs 12 scalar.toNat) := by
  have machine := denotes_split (α := Int64) (scalar_fits scalar) (by decide) (by decide)
  have checked := denotes_split (α := Checked 64) (scalar_fits scalar) (by decide) (by decide)
  exact ⟨fun place => (machine place).1, fun place => (checked place).1⟩

theorem runsExactly_reduce (wide : Block 64) :
    RunsExactly reductionSchedule (split Int64 24 wide.toList) (split (Checked 64) 24 wide.toList)
      (numberLimbs 24 wide.toNat) (reduceLimbs wide) :=
  (tracks_split wide).runsExactly (tracks_split wide)

/-- The limbs of `left · right + addend` before any carry. -/
def scalarProduct (α : Type) [LimbWord α] (left right addend : Block 32) : Accumulator α :=
  productPlus (split α 12 left.toList) (split α 12 right.toList) (split α 12 addend.toList)

/-- The same limbs as integers. -/
def exactProduct (left right addend : Block 32) : Accumulator Int :=
  productPlus (numberLimbs 12 left.toNat) (numberLimbs 12 right.toNat)
    (numberLimbs 12 addend.toNat)

theorem runsExactly_multiplyAdd (left right addend : Block 32) :
    RunsExactly (productSchedule ++ reductionSchedule) (scalarProduct Int64 left right addend)
      (scalarProduct (Checked 64) left right addend) (exactProduct left right addend)
      (multiplyAddLimbs left right addend) := by
  have machine := tracks_product (α := Int64) left right addend
  have checked := tracks_product (α := Checked 64) left right addend
  obtain ⟨after, accepted, _⟩ := run_productSchedule
  have packed : multiplyAddLimbs left right addend = pack (run reductionSchedule
      (run productSchedule (scalarProduct Int64 left right addend))) := by
    rw [multiplyAddLimbs, run_append]
    rfl
  rw [packed]
  exact .after (machine.staysInStep checked accepted)
    (machine.carryProduct.runsExactly checked.carryProduct)

/-- Reduction and multiplication with addition never overflow, on any bytes. Splitting is exact,
the product's columns are, and so is every step after them: the run that watches every word holds
the machine's limbs after each. Folds and carries keep the number modulo the order, whatever the
limbs. Packing keeps the limbs that they lead to, and what it leaves out is zero. -/
theorem limbs_never_overflow :
    (∀ wide : Block 64,
      limbsValue (numberLimbs 24 wide.toNat) = wide.toNat ∧
      RunsExactly reductionSchedule (split Int64 24 wide.toList)
        (split (Checked 64) 24 wide.toList) (numberLimbs 24 wide.toNat) (reduceLimbs wide)) ∧
    (∀ scalar : Block 32,
      limbsValue (numberLimbs 12 scalar.toNat) = scalar.toNat ∧
      InStep (split Int64 12 scalar.toList) (split (Checked 64) 12 scalar.toList)
        (numberLimbs 12 scalar.toNat)) ∧
    (∀ left right addend : Block 32,
      limbsValue (exactProduct left right addend) = left.toNat * right.toNat + addend.toNat ∧
      RunsExactly (productSchedule ++ reductionSchedule) (scalarProduct Int64 left right addend)
        (scalarProduct (Checked 64) left right addend) (exactProduct left right addend)
        (multiplyAddLimbs left right addend)) ∧
    ∀ (limbs : Accumulator Int) (step : Step),
      limbsValue (step.apply limbs) ≡ limbsValue limbs [ZMOD order] := by
  refine ⟨?_, ?_, ?_, limbsValue_apply_modEq⟩
  · intro wide
    exact ⟨limbsValue_numberLimbs 23 wide.toNat, runsExactly_reduce wide⟩
  · intro scalar
    exact ⟨limbsValue_numberLimbs 11 scalar.toNat, inStep_splitScalar scalar⟩
  · intro left right addend
    exact ⟨limbsValue_product left right addend, runsExactly_multiplyAdd left right addend⟩

end EdwardsSignature.Scalar
