import EdwardsSignature.Field.Basic

/-! The description of a prime field: encoding width, modulus bytes and derived exponents.

The modulus is only described here. Arithmetic on elements does not consult it, so any
32 bytes are a description, and the exponents wrap around like the bytes do. -/
set_option autoImplicit false
namespace EdwardsSignature

/-- An encoding width in bits and a little-endian modulus. -/
structure FieldParameters where
  width : Nat
  modulus : Block 32
  deriving DecidableEq

namespace FieldParameters

def subtractSmall (borrow : UInt8) : Bytes → Bytes
  | [] => []
  | byte :: rest => (byte - borrow) :: subtractSmall (if byte < borrow then 1 else 0) rest

def shiftRight3 : Bytes → Bytes
  | [] => []
  | byte :: rest => ((byte >>> 3) ||| (rest.headD 0 <<< 5)) :: shiftRight3 rest

@[simp] theorem length_subtractSmall (borrow : UInt8) (bytes : Bytes) :
    (subtractSmall borrow bytes).length = bytes.length := by
  induction bytes generalizing borrow with
  | nil => rfl
  | cons byte rest ih => simp [subtractSmall, ih]

@[simp] theorem length_shiftRight3 (bytes : Bytes) :
    (shiftRight3 bytes).length = bytes.length := by
  induction bytes with
  | nil => rfl
  | cons byte rest ih => simp [shiftRight3, ih]

def ofBytes (width : Nat) (bytes : Bytes) : Except Rejection FieldParameters :=
  match Block.ofBytes? 32 bytes with
  | some modulus => .ok ⟨width, modulus⟩
  | none => .error (.invalidLength 32 bytes.length)

def inversionExponent (parameters : FieldParameters) : Block 32 :=
  ⟨(subtractSmall 2 parameters.modulus.toList).toArray, by simp⟩

def rootExponent (parameters : FieldParameters) : Block 32 :=
  ⟨(shiftRight3 (subtractSmall 5 parameters.modulus.toList)).toArray, by simp⟩

def constant {F : Type} [BaseField F] (value : Nat) : F :=
  BaseField.ofBlock (Block.ofNat 32 value)

end FieldParameters

end EdwardsSignature
