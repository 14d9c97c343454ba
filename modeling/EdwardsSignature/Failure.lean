import EdwardsSignature.Curve.CoordinateSystem
import EdwardsSignature.Hash.Algorithm
import EdwardsSignature.Session.Mode

/-! The two ways an operation can end without a result.

A `Rejection` answers an input that the library refuses. A `Violation` is a use that
the arithmetic does not define, such as doubling a table entry. -/
set_option autoImplicit false
namespace EdwardsSignature

/-- Why an input is refused. -/
inductive Rejection where
  | invalidLength (expected actual : Nat)
  | invalidPoint
  | unsupportedConversion (source target : CoordinateSystem)
  | unknownCurve (name : String)
  | unknownStrength (bits : Nat)
  | hashLengthMismatch (expected actual : Nat)
  | digestMismatch (required declared : HashAlgorithm)
  | invalidSeedLength (expected actual : Nat)
  | invalidHashLength (expected actual : Nat)
  | invalidSignatureLength (expected actual : Nat)
  | notInitialized
  | wrongMode (expected actual : SessionMode)
  | oneShotReentry
  | oneShotAfterUpdate
  | oneShotByteUpdate
  deriving DecidableEq, Repr

def Rejection.message : Rejection → String
  | invalidLength expected actual =>
      s!"invalid length: expected {expected} bytes, got {actual}"
  | invalidPoint => "encoding does not decode to a point on the curve"
  | unsupportedConversion source target =>
      s!"unsupported conversion from {source.name} to {target.name}"
  | unknownCurve name => s!"unknown curve: {name}"
  | unknownStrength bits => s!"unsupported key strength: {bits} bits"
  | hashLengthMismatch expected actual =>
      s!"hash output of {actual} bytes does not match the required {expected} bytes"
  | digestMismatch required declared =>
      s!"key declares {declared.name} but the engine is bound to {required.name}"
  | invalidSeedLength expected actual =>
      s!"invalid seed length: expected {expected} bytes, got {actual}"
  | invalidHashLength expected actual =>
      s!"invalid seed hash length: expected {expected} bytes, got {actual}"
  | invalidSignatureLength expected actual =>
      s!"invalid signature length: expected {expected} bytes, got {actual}"
  | notInitialized => "engine has no key bound"
  | wrongMode expected actual =>
      s!"engine is initialized for {actual.activity}, not {expected.activity}"
  | oneShotReentry => "update() already called in one-shot mode"
  | oneShotAfterUpdate => "one-shot mode must be enabled before the first update()"
  | oneShotByteUpdate => "single-byte updates are unsupported in one-shot mode"

inductive PointOperation where
  | encoding
  | toProjective
  | toExtended
  | toProjectiveNiels
  | doubling
  | mixedAddition
  | mixedAdditionOperand
  | addition
  | additionOperand
  | negation
  | curveMembership
  deriving DecidableEq, Repr

def PointOperation.name : PointOperation → String
  | encoding => "encoding"
  | toProjective => "conversion to P2"
  | toExtended => "conversion to P3"
  | toProjectiveNiels => "conversion to CACHED"
  | doubling => "doubling"
  | mixedAddition => "mixed addition"
  | mixedAdditionOperand => "mixed addition operand"
  | addition => "addition"
  | additionOperand => "addition operand"
  | negation => "negation"
  | curveMembership => "curve membership"

/-- A use that is not defined. -/
inductive Violation where
  | undefinedFor (operation : PointOperation) (system : CoordinateSystem)
  | scalarTooWide
  | signatureTooShort
  deriving DecidableEq, Repr

def Violation.message : Violation → String
  | undefinedFor operation system => s!"{operation.name} is undefined for {system.name} points"
  | scalarTooWide => "radix-16 recoding needs a scalar below 2^255"
  | signatureTooShort => "a signature needs 32 bytes before its scalar"

/-- Either way of ending without a result. -/
inductive Failure where
  | rejected (cause : Rejection)
  | violated (cause : Violation)
  deriving DecidableEq, Repr

namespace Failure

def message : Failure → String
  | rejected cause => cause.message
  | violated cause => cause.message

end Failure

instance : MonadLift (Except Rejection) (Except Failure) where
  monadLift := Except.mapError Failure.rejected

instance : MonadLift (Except Violation) (Except Failure) where
  monadLift := Except.mapError Failure.violated

end EdwardsSignature
