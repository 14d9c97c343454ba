/-! The words that limb arithmetic runs on.

An algorithm on limbs is written once over any `LimbWord`. Run on machine words it
is the program; run on `Int` it is the exact computation; run on `Checked` words it
also reports the first step that leaves the range. -/
set_option autoImplicit false
namespace EdwardsSignature

/-! Powers are core's here, whatever other instances are in scope. -/
attribute [local instance (high)] instPowNat

/-- A signed word. Shifting right rounds down. -/
class LimbWord (α : Type) extends Add α, Sub α, Mul α where
  literal : Int → α
  shiftLeft : α → Nat → α
  shiftRight : α → Nat → α

namespace LimbWord

@[always_inline, inline]
instance machine64 : LimbWord Int64 where
  add left right := left + right
  sub left right := left - right
  mul left right := left * right
  literal value := Int64.ofInt value
  shiftLeft value amount := value <<< Int64.ofNat amount
  shiftRight value amount := value >>> Int64.ofNat amount

@[always_inline, inline]
instance machine8 : LimbWord Int8 where
  add left right := left + right
  sub left right := left - right
  mul left right := left * right
  literal value := Int8.ofInt value
  shiftLeft value amount := value <<< Int8.ofNat amount
  shiftRight value amount := value >>> Int8.ofNat amount

instance exact : LimbWord Int where
  add left right := left + right
  sub left right := left - right
  mul left right := left * right
  literal value := value
  shiftLeft value amount := value * 2 ^ amount
  shiftRight value amount := value / 2 ^ amount

end LimbWord

/-- The integers that a signed word of `width` bits holds. -/
def InRange (width : Nat) (value : Int) : Prop :=
  -2 ^ (width - 1) ≤ value ∧ value < 2 ^ (width - 1)

instance (width : Nat) (value : Int) : Decidable (InRange width value) :=
  inferInstanceAs (Decidable (_ ∧ _))

/-- A signed word of `width` bits that remembers leaving its range: once an operand is
missing or a result does not fit, nothing is left. -/
structure Checked (width : Nat) where
  value? : Option Int
  deriving DecidableEq, Repr

namespace Checked

def ofInt (width : Nat) (value : Int) : Checked width :=
  ⟨if InRange width value then some value else none⟩

/-- Applies an operation to values that are there, and keeps a result that fits. -/
def lift₂ {width : Nat} (operation : Int → Int → Int) (left right : Checked width) :
    Checked width :=
  match left.value?, right.value? with
  | some leftValue, some rightValue => ofInt width (operation leftValue rightValue)
  | _, _ => ⟨none⟩

/-- Shift amounts of the word's width or more are out of range too. -/
def shift {width : Nat} (operation : Int → Int) (amount : Nat) (word : Checked width) :
    Checked width :=
  match word.value? with
  | some value => if amount < width then ofInt width (operation value) else ⟨none⟩
  | none => ⟨none⟩

instance limbWord (width : Nat) : LimbWord (Checked width) where
  add := lift₂ (· + ·)
  sub := lift₂ (· - ·)
  mul := lift₂ (· * ·)
  literal := ofInt width
  shiftLeft word amount := shift (· * 2 ^ amount) amount word
  shiftRight word amount := shift (· / 2 ^ amount) amount word

end Checked

end EdwardsSignature
