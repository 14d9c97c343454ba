import Mathlib
import EdwardsSignature.Limb.Lawful
import EdwardsSignature.Scalar.Reduction

/-! Intervals that hold the limbs throughout a schedule.

Intervals are computed along a schedule without looking at any limb value. Where that
succeeds, every lawful word of 64 bits stays within them, so nothing overflows on the way. -/

set_option autoImplicit false

namespace EdwardsSignature.Scalar

open LawfulLimbWord (Denotes)

structure Interval where
  (low high : Int)
  deriving DecidableEq, Repr

namespace Interval

def Contains (interval : Interval) (value : Int) : Prop :=
  interval.low ≤ value ∧ value ≤ interval.high

/-- Far enough inside a word that one more bit cannot leave it. -/
def Small (interval : Interval) : Prop := -2 ^ 62 ≤ interval.low ∧ interval.high ≤ 2 ^ 62

instance (interval : Interval) : Decidable interval.Small := inferInstanceAs (Decidable (_ ∧ _))

def Within (inner outer : Interval) : Prop := outer.low ≤ inner.low ∧ inner.high ≤ outer.high

instance (inner outer : Interval) : Decidable (inner.Within outer) :=
  inferInstanceAs (Decidable (_ ∧ _))

def add (left right : Interval) : Interval := ⟨left.low + right.low, left.high + right.high⟩

def scale (interval : Interval) (factor : Int) : Interval :=
  if 0 ≤ factor then ⟨interval.low * factor, interval.high * factor⟩
  else ⟨interval.high * factor, interval.low * factor⟩

/-- The quotients by `2 ^ 21` after `half` is added. -/
def carried (interval : Interval) (half : Int) : Interval :=
  ⟨(interval.low + half) / 2 ^ 21, (interval.high + half) / 2 ^ 21⟩

def left (half : Int) : Interval := ⟨-half, 2 ^ 21 - 1 - half⟩

variable {interval first second : Interval} {value x y : Int}

theorem Contains.add (inside : first.Contains x) (inside' : second.Contains y) :
    (first.add second).Contains (x + y) :=
  ⟨Int.add_le_add inside.1 inside'.1, Int.add_le_add inside.2 inside'.2⟩

theorem Contains.scale (inside : interval.Contains value) (factor : Int) :
    (interval.scale factor).Contains (value * factor) := by
  unfold Interval.scale
  split
  · rename_i nonneg
    exact ⟨Int.mul_le_mul_of_nonneg_right inside.1 nonneg,
      Int.mul_le_mul_of_nonneg_right inside.2 nonneg⟩
  · rename_i negative
    have nonpos : factor ≤ 0 := by omega
    exact ⟨Int.mul_le_mul_of_nonpos_right inside.2 nonpos,
      Int.mul_le_mul_of_nonpos_right inside.1 nonpos⟩

theorem Contains.carried (inside : interval.Contains value) (half : Int) :
    (interval.carried half).Contains ((value + half) / 2 ^ 21) := by
  obtain ⟨low, high⟩ := inside
  constructor <;> simp only [Interval.carried] <;> omega

theorem contains_left (value half : Int) :
    (left half).Contains (value - (value + half) / 2 ^ 21 * 2 ^ 21) := by
  constructor <;> simp only [left] <;> omega

theorem small_left {half : Int} (room : 0 ≤ half ∧ half ≤ 2 ^ 20) : (left half).Small := by
  constructor <;> simp only [left] <;> omega

theorem Contains.inRange (inside : interval.Contains value) (small : interval.Small) :
    InRange 64 value := by
  obtain ⟨low, high⟩ := inside
  obtain ⟨lowest, highest⟩ := small
  unfold InRange
  omega

theorem Contains.widen (inside : first.Contains value) (within : first.Within second) :
    second.Contains value :=
  ⟨within.1.trans inside.1, inside.2.trans within.2⟩

end Interval

section Places

variable {α : Type}

def put {count : Nat} (limbs : Vector α count) (place : Fin count) (limb : α) : Vector α count :=
  limbs.set place.val limb place.isLt

theorem get_put {count : Nat} (limbs : Vector α count) (place other : Fin count) (limb : α) :
    (put limbs place limb).get other = if other = place then limb else limbs.get other := by
  simp only [put, Vector.get_eq_getElem, Vector.getElem_set, Fin.ext_iff, eq_comm]

theorem get_put_of_ne {count : Nat} (limbs : Vector α count) {place other : Fin count}
    (apart : other ≠ place) (limb : α) : (put limbs place limb).get other = limbs.get other := by
  rw [get_put, if_neg apart]

theorem digitPlace_lt (low : Fin 12) (digit : Fin 6) : low.val + digit.val < 24 := by omega

def digitPlace (low : Fin 12) (digit : Fin 6) : Fin 24 :=
  ⟨low.val + digit.val, digitPlace_lt low digit⟩

variable [LimbWord α]

theorem moveUp_eq (limbs : Accumulator α) (source : Fin 23) (carried : α) :
    moveUp limbs source carried =
      put (put limbs source.succ (limbs.get source.succ + carried)) source.castSucc
        (limbs.get source.castSucc - LimbWord.shiftLeft carried 21) := by
  rw [moveUp, Vector.getElem_set_ne _ _ (by omega)]
  rfl

def addDigit (low : Fin 12) (folded : α) (limbs : Accumulator α) (digit : Fin 6) : Accumulator α :=
  put limbs (digitPlace low digit)
    (limbs.get (digitPlace low digit) + folded * LimbWord.literal (foldDigits.get digit))

theorem addFolded_eq (limbs : Accumulator α) (low : Fin 12) :
    addFolded limbs low =
      (List.finRange 6).foldl (addDigit low (limbs.get (low.addNat 12))) limbs := rfl

theorem apply_fold (limbs : Accumulator α) (low : Fin 12) :
    Step.apply limbs (.fold low) =
      put (addFolded limbs low) (low.addNat 12) (LimbWord.literal 0) := rfl

end Places

abbrev Bounds := Vector Interval 24

namespace Bounds

/-- Adds an interval at one place, unless the sum gets near the end of the range. -/
def raise (bounds : Bounds) (place : Fin 24) (added : Interval) : Option Bounds :=
  let sum := (bounds.get place).add added
  if sum.Small then some (put bounds place sum) else none

def moveUp (bounds : Bounds) (source : Fin 23) (half : Int) : Option Bounds :=
  if (bounds.get source.castSucc).Small then
    (bounds.raise source.succ ((bounds.get source.castSucc).carried half)).map
      (put · source.castSucc (.left half))
  else none

def addFolded (folded : Interval) (low : Fin 12) :
    List (Fin 6) → Bounds → Option Bounds
  | [], bounds => some bounds
  | digit :: rest, bounds =>
      let product := folded.scale (foldDigits.get digit)
      if product.Small then
        (bounds.raise (digitPlace low digit) product).bind (addFolded folded low rest)
      else none

def step (bounds : Bounds) : Step → Option Bounds
  | .fold low =>
      (addFolded (bounds.get (low.addNat 12)) low (List.finRange 6) bounds).map
        (put · (low.addNat 12) ⟨0, 0⟩)
  | .carry source => bounds.moveUp source (2 ^ 20)
  | .floorCarry source => bounds.moveUp source 0

def run : List Step → Bounds → Option Bounds
  | [], bounds => some bounds
  | step :: rest, bounds => (bounds.step step).bind (run rest)

theorem run_append (first second : List Step) (bounds : Bounds) :
    bounds.run (first ++ second) = (bounds.run first).bind (run second) := by
  induction first generalizing bounds with
  | nil => rfl
  | cons step rest ih =>
      simp only [List.cons_append, run, Option.bind_assoc]
      exact congrArg (Option.bind _) (funext ih)

theorem small_of_moveUp {bounds after : Bounds} {source : Fin 23} {half : Int}
    (accepted : bounds.moveUp source half = some after) :
    (bounds.get source.castSucc).Small := by
  unfold moveUp at accepted
  split at accepted
  · assumption
  · contradiction

end Bounds

theorem foldDigits_inRange (digit : Fin 6) : InRange 64 (foldDigits.get digit) := by
  revert digit
  decide

def Tracks {α : Type} [LimbWord α] [LawfulLimbWord α 64] (limbs : Accumulator α)
    (values : Accumulator Int) (bounds : Bounds) : Prop :=
  ∀ place : Fin 24, Denotes (limbs.get place) (values.get place) ∧
    (bounds.get place).Contains (values.get place)

namespace Tracks

variable {α : Type} [LimbWord α] [LawfulLimbWord α 64] {limbs : Accumulator α}
  {values : Accumulator Int} {bounds after : Bounds}

theorem put (tracks : Tracks limbs values bounds) (place : Fin 24) {word : α} {value : Int}
    {interval : Interval} (denotes : Denotes word value) (inside : interval.Contains value) :
    Tracks (Scalar.put limbs place word) (Scalar.put values place value)
      (Scalar.put bounds place interval) := by
  intro other
  simp only [get_put]
  split
  · exact ⟨denotes, inside⟩
  · exact tracks other

theorem raise (tracks : Tracks limbs values bounds) {place : Fin 24} {word : α} {value : Int}
    {added : Interval} (denotes : Denotes word value) (inside : added.Contains value)
    (accepted : bounds.raise place added = some after) :
    Tracks (Scalar.put limbs place (limbs.get place + word))
      (Scalar.put values place (values.get place + value)) after := by
  unfold Bounds.raise at accepted
  dsimp only at accepted
  split at accepted
  · rename_i small
    obtain rfl := Option.some.inj accepted
    have sum := (tracks place).2.add inside
    exact tracks.put place (LawfulLimbWord.add (tracks place).1 denotes (sum.inRange small)) sum
  · contradiction

theorem moveUp (tracks : Tracks limbs values bounds) (source : Fin 23) {half : Int}
    {carriedWord : α}
    (denotes : Denotes carriedWord ((values.get source.castSucc + half) / 2 ^ 21))
    (room : 0 ≤ half ∧ half ≤ 2 ^ 20) (accepted : bounds.moveUp source half = some after) :
    Tracks (Scalar.moveUp limbs source carriedWord)
      (Scalar.moveUp values source ((values.get source.castSucc + half) / 2 ^ 21)) after := by
  unfold Bounds.moveUp at accepted
  split at accepted
  · rename_i small
    obtain ⟨raised, raised_eq, after_eq⟩ := Option.map_eq_some_iff.mp accepted
    obtain ⟨word_denotes, inside⟩ := tracks source.castSucc
    have next := tracks.raise denotes (inside.carried half) raised_eq
    have bounded : InRange 64 ((values.get source.castSucc + half) / 2 ^ 21 * 2 ^ 21) := by
      obtain ⟨low, high⟩ := inside
      obtain ⟨lowest, highest⟩ := small
      unfold InRange
      omega
    have shifted := LawfulLimbWord.shiftLeft denotes (by decide) bounded
    have remainder := Interval.contains_left (values.get source.castSucc) half
    have stays :=
      LawfulLimbWord.sub word_denotes shifted (remainder.inRange (Interval.small_left room))
    rw [← after_eq, moveUp_eq, moveUp_eq]
    exact next.put source.castSucc stays remainder
  · contradiction

theorem addFolded (tracks : Tracks limbs values bounds) {low : Fin 12} {folded : α}
    {foldedValue : Int} {interval : Interval} (denotes : Denotes folded foldedValue)
    (inside : interval.Contains foldedValue) (digits : List (Fin 6))
    (accepted : Bounds.addFolded interval low digits bounds = some after) :
    Tracks (digits.foldl (addDigit low folded) limbs)
      (digits.foldl (addDigit low foldedValue) values) after := by
  induction digits generalizing limbs values bounds with
  | nil =>
      obtain rfl := Option.some.inj accepted
      exact tracks
  | cons digit rest ih =>
      unfold Bounds.addFolded at accepted
      dsimp only at accepted
      split at accepted
      · rename_i small
        obtain ⟨raised, raised_eq, rest_eq⟩ := Option.bind_eq_some_iff.mp accepted
        have literal : Denotes (LimbWord.literal (foldDigits.get digit) : α)
            (foldDigits.get digit) :=
          LawfulLimbWord.literal (foldDigits_inRange digit)
        have scaled := inside.scale (foldDigits.get digit)
        have product := LawfulLimbWord.mul denotes literal (scaled.inRange small)
        exact ih (tracks.raise product scaled raised_eq) rest_eq
      · contradiction

theorem apply (tracks : Tracks limbs values bounds) {step : Step}
    (accepted : bounds.step step = some after) :
    Tracks (Step.apply limbs step) (Step.apply values step) after := by
  cases step with
  | fold low =>
      obtain ⟨folded, folded_eq, after_eq⟩ := Option.map_eq_some_iff.mp accepted
      obtain ⟨denotes, inside⟩ := tracks (low.addNat 12)
      have added := tracks.addFolded denotes inside (List.finRange 6) folded_eq
      have zero : Denotes (LimbWord.literal 0 : α) 0 := LawfulLimbWord.literal (by decide)
      rw [← after_eq, apply_fold, apply_fold, addFolded_eq, addFolded_eq]
      exact added.put (low.addNat 12) zero ⟨Int.le_refl 0, Int.le_refl 0⟩
  | carry source =>
      have one : Denotes (LimbWord.literal 1 : α) 1 := LawfulLimbWord.literal (by decide)
      have half := LawfulLimbWord.shiftLeft one (by decide : 20 < 64) (by decide)
      obtain ⟨denotes, low, high⟩ := tracks source.castSucc
      obtain ⟨lowest, highest⟩ := Bounds.small_of_moveUp accepted
      have rounded := LawfulLimbWord.add denotes half (by unfold InRange; omega)
      have quotient := LawfulLimbWord.shiftRight rounded (by decide : 21 < 64)
        (by unfold InRange; omega)
      exact tracks.moveUp source quotient (by decide) accepted
  | floorCarry source =>
      obtain ⟨denotes, low, high⟩ := tracks source.castSucc
      obtain ⟨lowest, highest⟩ := Bounds.small_of_moveUp accepted
      have quotient := LawfulLimbWord.shiftRight denotes (by decide : 21 < 64)
        (by unfold InRange; omega)
      have unrounded : (values.get source.castSucc + 0) / 2 ^ 21 =
          values.get source.castSucc / 2 ^ 21 := by
        rw [add_zero]
      rw [← unrounded] at quotient
      have moved := tracks.moveUp source quotient (by decide) accepted
      rw [add_zero] at moved
      exact moved

/-- No step of a schedule overflows where the intervals are accepted. -/
theorem run (tracks : Tracks limbs values bounds) {schedule : List Step}
    (accepted : bounds.run schedule = some after) :
    Tracks (Scalar.run schedule limbs) (Scalar.run schedule values) after := by
  induction schedule generalizing limbs values bounds with
  | nil =>
      obtain rfl := Option.some.inj accepted
      exact tracks
  | cons step rest ih =>
      obtain ⟨next, next_eq, rest_eq⟩ := Option.bind_eq_some_iff.mp accepted
      exact ih (tracks.apply next_eq) rest_eq

/-- Nor does the beginning of one. -/
theorem run_take (tracks : Tracks limbs values bounds) {schedule : List Step}
    (accepted : bounds.run schedule = some after) (count : Nat) :
    ∃ reached, Tracks (Scalar.run (schedule.take count) limbs)
      (Scalar.run (schedule.take count) values) reached := by
  rw [← List.take_append_drop count schedule, Bounds.run_append] at accepted
  obtain ⟨reached, reached_eq, _⟩ := Option.bind_eq_some_iff.mp accepted
  exact ⟨reached, tracks.run reached_eq⟩

theorem widen (tracks : Tracks limbs values bounds)
    (within : ∀ place : Fin 24, (bounds.get place).Within (after.get place)) :
    Tracks limbs values after :=
  fun place => ⟨(tracks place).1, (tracks place).2.widen (within place)⟩

end Tracks

end EdwardsSignature.Scalar
