import EdwardsSignature.Parameters.Basic

/-! Curves and parameter sets as the encodings that describe them.

A description says nothing about how field elements are represented, so one description
gives a curve or a parameter set in every representation, or the same rejection. -/
set_option autoImplicit false
namespace EdwardsSignature

structure CurveDescription where
  width : Nat
  modulus : Bytes
  d : Bytes
  rootOfMinusOne : Bytes

inductive BaseDescription where
  | encoding (bytes : Bytes)
  | point (encoded : Point Bytes)

structure ParametersDescription where
  curve : CurveDescription
  algorithm : HashAlgorithm
  scalars : ScalarArithmetic
  base : BaseDescription

def CurveDescription.standard : CurveDescription where
  width := Curve.standardWidth
  modulus := Curve.standardModulus.toList
  d := Curve.standardD.toList
  rootOfMinusOne := Curve.standardRoot.toList

def BaseDescription.standard : BaseDescription := .encoding Curve.standardBase.toList

def ParametersDescription.standard : ParametersDescription :=
  ⟨.standard, .sha512, .limbs, .standard⟩

variable {F : Type} [BaseField F]

/-- The curve of a description: the modulus is read before the constants. -/
def Curve.ofDescription (description : CurveDescription) : Except Rejection (Curve F) := do
  let field ← FieldParameters.ofBytes description.width description.modulus
  Curve.ofBytes field description.d description.rootOfMinusOne

/-- The base point of a description. An encoding is decoded on the curve; coordinates are
taken as they are. -/
def Curve.basePoint (curve : Curve F) : BaseDescription → Except Rejection (Point F)
  | .encoding bytes => Point.extended <$> curve.decodePoint bytes
  | .point encoded => encoded.decode

def Parameters.ofDescription (hashes : HashFamily) (description : ParametersDescription) :
    Except Rejection (Parameters F) := do
  let curve : Curve F ← Curve.ofDescription description.curve
  let base ← curve.basePoint description.base
  assemble curve (hashes.function description.algorithm) description.scalars base

end EdwardsSignature
