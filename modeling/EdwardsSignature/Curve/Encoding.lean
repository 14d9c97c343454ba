import EdwardsSignature.Curve.Coordinates

/-! Encodings of curve points: the affine `y`, with the sign of `x` in bit 255. -/
set_option autoImplicit false
namespace EdwardsSignature

open BaseField

variable {F : Type} [BaseField F]

namespace Projective

/-- The affine coordinates. A zero denominator gives zeros. -/
def affine (point : Projective F) : F × F :=
  let inverse := invert point.z
  (point.x * inverse, point.y * inverse)

def encode (point : Projective F) : Block 32 :=
  let (x, y) := point.affine
  (toBlock y).mapTop (· ||| (if isNegative x then 128 else 0))

def isOnCurve (curve : Curve F) (point : Projective F) : Bool :=
  let (x, y) := point.affine
  let xx := square x
  let yy := square y
  equal (1 + curve.d * xx * yy + xx) yy

/-- Whether two points have the same affine coordinates: directly when the denominators
agree, and across the denominators otherwise. -/
def equal (left right : Projective F) : Bool :=
  if BaseField.equal left.z right.z then
    BaseField.equal left.x right.x && BaseField.equal left.y right.y
  else
    BaseField.equal (left.x * right.z) (right.x * left.z) &&
      BaseField.equal (left.y * right.z) (right.y * left.z)

end Projective

namespace Extended

def encode (point : Extended F) : Block 32 := point.toProjective.encode

def isOnCurve (curve : Curve F) (point : Extended F) : Bool := point.toProjective.isOnCurve curve

end Extended

namespace Curve

/-- Recovers `x` up to its sign from `u / v`, where `u = y² - 1` and `v = d·y² + 1`: a root
of `u / v` or of its negative is `u·v³·(u·v⁷)^((p - 5) / 8)`. -/
def recoverX (curve : Curve F) (y : F) : Option F :=
  let yy := square y
  let u := yy - 1
  let v := yy * curve.d + 1
  let v3 := square v * v
  let x := v3 * u * rootPower (square v3 * v * u)
  let vxx := square x * v
  if isNonZero (vxx - u) then
    if isNonZero (vxx + u) then none else some (x * curve.rootOfMinusOne)
  else some x

/-- Decodes a point: 32 bytes whose `y` belongs to a point of the curve. The sign bit
chooses between `x` and its negative. -/
def decodePoint (curve : Curve F) (bytes : Bytes) : Except Rejection (Extended F) :=
  match Block.ofBytes? 32 bytes with
  | none => .error (.invalidLength 32 bytes.length)
  | some block =>
      let y : F := ofBlock block
      match curve.recoverX y with
      | none => .error .invalidPoint
      | some root =>
          let negative := block.top >>> 7 == 1
          let x := if isNegative root != negative then -root else root
          .ok ⟨x, y, 1, x * y⟩

end Curve

end EdwardsSignature
