import EdwardsSignature.Curve.Formulas

/-! Double-and-add over the bits of a scalar: the plain multiplication. -/
set_option autoImplicit false
namespace EdwardsSignature

variable {F : Type} [BaseField F]

namespace ProjectiveNiels

def multiplyStep (operand : ProjectiveNiels F) (total : Extended F) (bit : Bool) : Extended F :=
  let doubled := total.double.toExtended
  if bit then (doubled.add operand).toExtended else doubled

/-- The multiple by a little-endian scalar of any length, from its highest bit down. -/
def multiplyNaive (operand : ProjectiveNiels F) (scalar : Bytes) : Extended F :=
  scalar.bits.reverse.foldl operand.multiplyStep .neutral

end ProjectiveNiels

end EdwardsSignature
