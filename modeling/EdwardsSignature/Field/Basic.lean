import EdwardsSignature.Bytes
import EdwardsSignature.BranchFree
import EdwardsSignature.Failure

/-! The base field of the curve, as its representations provide it.

A representation gives arithmetic modulo `2 ^ 255 - 19`, the canonical encoding in
32 bytes, a selection that does not branch, and its own tests for zero and equality. What
can be said through those alone is defined here once for every representation. -/
set_option autoImplicit false
namespace EdwardsSignature

/-! Powers are core's here, whatever other instances are in scope. -/
attribute [local instance (high)] instPowNat

def fieldPrime : Nat := 2 ^ (255 : Nat) - 19

/-- Whether any byte of an encoding is set. -/
def Block.isNonZero (block : Block 32) : Bool :=
  block.toList.foldl (· ||| ·) 0 != 0

/-- A representation of the residues modulo `fieldPrime`. -/
class BaseField (F : Type) extends Zero F, One F, Add F, Sub F, Neg F, Mul F where
  /-- The residue of the number in the low 255 bits; bit 255 is ignored. -/
  ofBlock : Block 32 → F
  /-- The least non-negative number of the residue, little-endian. -/
  toBlock : F → Block 32
  square : F → F
  /-- Twice the square. -/
  doubleSquare : F → F
  /-- The inverse of a non-zero element; zero for zero. -/
  invert : F → F
  /-- The power with exponent `(fieldPrime - 5) / 8`, from which square roots are taken. -/
  rootPower : F → F
  /-- The second element when the lowest bit of the byte is set, else the first. -/
  select : F → F → UInt8 → F
  /-- Found on the encoding, unless the representation knows better. -/
  isNonZero : F → Bool := fun element => (toBlock element).isNonZero
  /-- The representation's own equality. -/
  same : F → F → Bool
  /-- The element as structured descriptions write it. -/
  describe : F → String

namespace BaseField

variable {F : Type} [BaseField F]

def decode (bytes : Bytes) : Except Rejection F :=
  match Block.ofBytes? 32 bytes with
  | some block => .ok (ofBlock block)
  | none => .error (.invalidLength 32 bytes.length)

/-- An element is negative when its least non-negative number is odd. -/
def isNegative (element : F) : Bool :=
  (toBlock element).bottom &&& 1 == 1

def equal (left right : F) : Bool :=
  BranchFree.equal (toBlock left).toList (toBlock right).toList

def divide (numerator denominator : F) : F :=
  numerator * invert denominator

def powerStep (base : F) (power : F) (bit : Bool) : F :=
  if bit then square power * base else square power

/-- The power with a little-endian exponent, from its highest bit down. -/
def power (base : F) (exponent : Bytes) : F :=
  exponent.bits.reverse.foldl (powerStep base) 1

end BaseField

end EdwardsSignature
