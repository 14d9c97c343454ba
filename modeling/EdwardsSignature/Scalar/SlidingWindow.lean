import EdwardsSignature.Bytes

/-! Sparse signed digits of a scalar for variable-time multiplication.

Reading bits upwards, the first set bit opens a window. The window takes in the next
six bits as long as its digit stays within `-15 … 15`: a bit is added when that fits,
else subtracted against a bit borrowed from above. A borrow beyond the top is lost. -/
set_option autoImplicit false
namespace EdwardsSignature

/-- A digit that selects one of eight odd multiples and a sign, or nothing. -/
structure WindowDigit where
  value : Int
  lower : -15 ≤ value
  upper : value ≤ 15
  deriving DecidableEq, Repr

namespace WindowDigit

def zero : WindowDigit := ⟨0, by decide, by decide⟩

def one : WindowDigit := ⟨1, by decide, by decide⟩

def add (digit : WindowDigit) (weight : Nat) (fits : digit.value + weight ≤ 15) : WindowDigit :=
  ⟨digit.value + weight, by have lower := digit.lower; omega, fits⟩

def sub (digit : WindowDigit) (weight : Nat) (fits : -15 ≤ digit.value - weight) : WindowDigit :=
  ⟨digit.value - weight, fits, by have upper := digit.upper; omega⟩

/-- The place of the digit's magnitude among the odd multiples. -/
def index (digit : WindowDigit) : Fin 8 :=
  ⟨digit.value.natAbs / 2, by have lower := digit.lower; have upper := digit.upper; omega⟩

end WindowDigit

namespace SlidingWindow

/-- Adds one to a little-endian bit list; a carry out of the top is lost. -/
def increment : List Bool → List Bool
  | [] => []
  | false :: rest => true :: rest
  | true :: rest => false :: increment rest

/-- Extends an open window by up to `reach` more bits, the first of which weighs `weight`.
Answers the digit and the bits that remain. -/
def extend : (reach weight : Nat) → WindowDigit → List Bool → WindowDigit × List Bool
  | 0, _, digit, bits => (digit, bits)
  | _, _, digit, [] => (digit, [])
  | reach + 1, weight, digit, false :: rest =>
      let extended := extend reach (2 * weight) digit rest
      (extended.1, false :: extended.2)
  | reach + 1, weight, digit, true :: rest =>
      if added : digit.value + weight ≤ 15 then
        let extended := extend reach (2 * weight) (digit.add weight added) rest
        (extended.1, false :: extended.2)
      else if subtracted : -15 ≤ digit.value - weight then
        let extended := extend reach (2 * weight) (digit.sub weight subtracted) (increment rest)
        (extended.1, false :: extended.2)
      else (digit, true :: rest)

def digits : (count : Nat) → List Bool → List WindowDigit
  | 0, _ => []
  | count + 1, [] => .zero :: digits count []
  | count + 1, false :: rest => .zero :: digits count rest
  | count + 1, true :: rest =>
      let window := extend 6 2 .one rest
      window.1 :: digits count window.2

def recode (scalar : Block 32) : List WindowDigit :=
  digits 256 (Bytes.bits scalar.toList)

@[simp] theorem length_digits (count : Nat) (bits : List Bool) :
    (digits count bits).length = count := by
  fun_induction digits count bits with
  | case1 => rfl
  | case2 count ih => simp [ih]
  | case3 count rest ih => simp [ih]
  | case4 count rest window ih => simp [ih]

end SlidingWindow

end EdwardsSignature
