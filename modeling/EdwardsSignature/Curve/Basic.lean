import EdwardsSignature.Field.Parameters

/-! The twisted Edwards curve `-x² + y² = 1 + d·x²·y²`. -/
set_option autoImplicit false
namespace EdwardsSignature

/-- A curve's constants. The square root of `-1` is given, not computed, and what it is
given as is not checked; the same holds for `d`. -/
structure Curve (F : Type) [BaseField F] where
  field : FieldParameters
  d : F
  rootOfMinusOne : F
  twiceD : F
  twiceD_eq : twiceD = d + d

namespace Curve

def standardModulus : Block 32 := Block.ofNat 32 fieldPrime

/-- The standard `d`, which is `-121665 / 121666`. -/
def standardD : Block 32 := Block.ofNat 32
  37095705934669439343138083508754565189542113879843219016388785533085940283555

def standardRoot : Block 32 := Block.ofNat 32
  19681161376707505956807079304988542015446066515923890162744021073123829784752

/-- The encoding of the standard base point: `y` is `4 / 5` and `x` is even. -/
def standardBase : Block 32 := Block.ofNat 32
  46316835694926478169428394003475163141307993866256225615783033603165251855960

def standardWidth : Nat := 256

variable {F : Type} [BaseField F]

/-- A curve from the encodings of its constants, read in this order. -/
def ofBytes (field : FieldParameters) (d root : Bytes) : Except Rejection (Curve F) := do
  let d : F ← BaseField.decode d
  let rootOfMinusOne : F ← BaseField.decode root
  return ⟨field, d, rootOfMinusOne, d + d, rfl⟩

def standard : Curve F :=
  let d : F := BaseField.ofBlock standardD
  ⟨⟨standardWidth, standardModulus⟩, d, BaseField.ofBlock standardRoot, d + d, rfl⟩

end Curve

end EdwardsSignature
