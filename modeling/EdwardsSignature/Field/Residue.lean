import EdwardsSignature.Field.Basic

/-! The plain representation of the base field: the least non-negative residue itself. -/
set_option autoImplicit false
namespace EdwardsSignature

/-! Powers are core's here, whatever other instances are in scope. -/
attribute [local instance (high)] instPowNat

structure Residue where
  value : Nat
  reduced : value < fieldPrime
  deriving DecidableEq

namespace Residue

theorem fieldPrime_pos : 0 < fieldPrime := by decide

def ofNat (number : Nat) : Residue :=
  ⟨number % fieldPrime, Nat.mod_lt _ fieldPrime_pos⟩

def add (left right : Residue) : Residue := ofNat (left.value + right.value)

/-- The prime is added first, so that the difference is a natural number. -/
def sub (left right : Residue) : Residue := ofNat (left.value + fieldPrime - right.value)

def neg (element : Residue) : Residue := ofNat (fieldPrime - element.value)

def mul (left right : Residue) : Residue := ofNat (left.value * right.value)

def doubleSquare (element : Residue) : Residue := ofNat (2 * (element.value * element.value))

def exponentBits (exponent : Nat) : List Bool :=
  (List.range 255).reverse.map exponent.testBit

def powerAlong (base : Residue) (bits : List Bool) : Residue :=
  let step (power : Residue) (bit : Bool) : Residue :=
    if bit then mul (mul power power) base else mul power power
  bits.foldl step (ofNat 1)

def inversionBits : List Bool := exponentBits (fieldPrime - 2)

def rootBits : List Bool := exponentBits ((fieldPrime - 5) / 8)

def invert (element : Residue) : Residue := powerAlong element inversionBits

def rootPower (element : Residue) : Residue := powerAlong element rootBits

/-- Bit 255 of the encoding is ignored. -/
def ofBlock (block : Block 32) : Residue := ofNat (block.toNat % 2 ^ (255 : Nat))

def toBlock (element : Residue) : Block 32 := Block.ofNat 32 element.value

def select (unset set : Residue) (bit : UInt8) : Residue :=
  if bit &&& 1 == 1 then set else unset

def isNonZero (element : Residue) : Bool := element.value != 0

def same (left right : Residue) : Bool := left.value == right.value

/-- Hexadecimal, most significant digit first and without leading zeros. -/
def describe (element : Residue) : String :=
  s!"BigFieldElement({String.ofList (Nat.toDigits 16 element.value)})"

instance : BaseField Residue where
  zero := ofNat 0
  one := ofNat 1
  add := add
  sub := sub
  neg := neg
  mul := mul
  ofBlock := ofBlock
  toBlock := toBlock
  square element := mul element element
  doubleSquare := doubleSquare
  invert := invert
  rootPower := rootPower
  select := select
  isNonZero := isNonZero
  same := same
  describe := describe

end Residue

end EdwardsSignature
