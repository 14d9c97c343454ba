import EdwardsSignature.Curve.Point
import EdwardsSignature.Curve.TabledPoint
import EdwardsSignature.Hash.Function
import EdwardsSignature.Scalar.Arithmetic

/-! Parameter sets: a curve, a hash function, scalar arithmetic and a base point.

Half of a seed's hash becomes a scalar and the other half keys nonces, so the hash has
to give a quarter of the encoding width in bytes. -/
set_option autoImplicit false
namespace EdwardsSignature

/-- Everything needed to derive keys, sign and verify. The tables of the base point are
shared by all who share the parameters. -/
structure Parameters (F : Type) [BaseField F] where
  curve : Curve F
  hash : HashFunction
  scalars : ScalarArithmetic
  base : TabledPoint F
  base_curve : base.curve = curve
  hash_size : hash.algorithm.outputSize = curve.field.width / 4

namespace Parameters

variable {F : Type} [BaseField F]

def width (parameters : Parameters F) : Nat := parameters.curve.field.width

/-- The length of seeds, encoded points and scalars. -/
def encodedLength (parameters : Parameters F) : Nat := parameters.width / 8

/-- The length of seed hashes and signatures. -/
def signatureLength (parameters : Parameters F) : Nat := parameters.width / 4

/-- Assembles a parameter set. The hash's length is looked at before the base point, which
must be given in coordinates that convert to extended ones. -/
def assemble (curve : Curve F) (hash : HashFunction) (scalars : ScalarArithmetic)
    (base : Point F) : Except Rejection (Parameters F) :=
  if sized : hash.algorithm.outputSize = curve.field.width / 4 then
    match base.convertExtended with
    | .ok point => .ok ⟨curve, hash, scalars, .ofExtended curve point, rfl, sized⟩
    | .error cause => .error cause
  else .error (.hashLengthMismatch (curve.field.width / 4) hash.algorithm.outputSize)

def standardWith (hash : HashFunction) (scalars : ScalarArithmetic) :
    Except Rejection (Parameters F) := do
  let curve : Curve F := .standard
  let base ← curve.decodePoint Curve.standardBase.toList
  assemble curve hash scalars (.extended base)

def standard : Except Rejection (Parameters F) :=
  standardWith HashAlgorithm.sha512.function .limbs

end Parameters

end EdwardsSignature
