import EdwardsSignature.Curve.Coordinates

/-! Doubling, addition and negation.

Subtraction exchanges the sum and the difference of the right operand's coordinates and
takes its product with the opposite sign, which negates that operand. -/
set_option autoImplicit false
namespace EdwardsSignature

variable {F : Type} [BaseField F]

namespace Projective

def double (point : Projective F) : Completed F :=
  let xx := BaseField.square point.x
  let yy := BaseField.square point.y
  let zz2 := BaseField.doubleSquare point.z
  let sumSquared := BaseField.square (point.x + point.y)
  let y := yy + xx
  let z := yy - xx
  ⟨sumSquared - y, y, z, zz2 - z⟩

end Projective

namespace Extended

/-- Doubling does not read `T`. -/
def double (point : Extended F) : Completed F :=
  point.toProjective.double

def addEntry (point : Extended F) (entry : AffineNiels F) : Completed F :=
  let a := (point.y + point.x) * entry.yPlusX
  let b := (point.y - point.x) * entry.yMinusX
  let c := entry.xy2d * point.t
  let d := point.z + point.z
  ⟨a - b, a + b, d + c, d - c⟩

def subEntry (point : Extended F) (entry : AffineNiels F) : Completed F :=
  let a := (point.y + point.x) * entry.yMinusX
  let b := (point.y - point.x) * entry.yPlusX
  let c := entry.xy2d * point.t
  let d := point.z + point.z
  ⟨a - b, a + b, d - c, d + c⟩

def add (point : Extended F) (operand : ProjectiveNiels F) : Completed F :=
  let a := (point.y + point.x) * operand.yPlusX
  let b := (point.y - point.x) * operand.yMinusX
  let c := operand.t2d * point.t
  let zz := point.z * operand.z
  let d := zz + zz
  ⟨a - b, a + b, d + c, d - c⟩

def sub (point : Extended F) (operand : ProjectiveNiels F) : Completed F :=
  let a := (point.y + point.x) * operand.yMinusX
  let b := (point.y - point.x) * operand.yPlusX
  let c := operand.t2d * point.t
  let zz := point.z * operand.z
  let d := zz + zz
  ⟨a - b, a + b, d - c, d + c⟩

def plus (curve : Curve F) (left right : Extended F) : Extended F :=
  (left.add (right.toProjectiveNiels curve)).toExtended

/-- Negation subtracts from the neutral point. -/
def negate (curve : Curve F) (point : Extended F) : Extended F :=
  (Extended.neutral.sub (point.toProjectiveNiels curve)).toExtended

end Extended

end EdwardsSignature
