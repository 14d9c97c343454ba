import EdwardsSignature.Parameters.Basic

/-! Public keys: an encoded point, the point, and its negative with tables. -/
set_option autoImplicit false
namespace EdwardsSignature

/-- A public key. Verification reads the encoding and the prepared negative. -/
structure PublicKey (F : Type) [BaseField F] where
  encoding : Block 32
  point : Extended F
  negated : TabledPoint F
  parameters : Parameters F
  encoding_eq : encoding = point.encode
  negated_point : negated.point = point.negate parameters.curve

namespace PublicKey

variable {F : Type} [BaseField F]

def wrap (parameters : Parameters F) (point : Extended F) : PublicKey F :=
  ⟨point.encode, point, .ofExtended parameters.curve (point.negate parameters.curve), parameters,
    rfl, rfl⟩

/-- Wraps a point on the curve. The curve equation is looked at first, which the operand
forms do not have; then the coordinates must convert to extended ones. -/
def ofPoint (parameters : Parameters F) (point : Point F) : Except Failure (PublicKey F) :=
  match point.isOnCurve parameters.curve with
  | .error cause => .error (.violated cause)
  | .ok false => .error (.rejected .invalidPoint)
  | .ok true =>
      match point.convertExtended with
      | .error cause => .error (.rejected cause)
      | .ok extended => .ok (wrap parameters extended)

def ofBytes (parameters : Parameters F) (bytes : Bytes) : Except Failure (PublicKey F) :=
  if bytes.length = parameters.encodedLength then
    match parameters.curve.decodePoint bytes with
    | .ok point => ofPoint parameters (.extended point)
    | .error cause => .error (.rejected cause)
  else .error (.rejected (.invalidLength parameters.encodedLength bytes.length))

def equal (left right : PublicKey F) : Bool := left.encoding == right.encoding

def describe (key : PublicKey F) : String :=
  s!"PublicKey({Bytes.hex key.encoding.toList})"

end PublicKey

end EdwardsSignature
