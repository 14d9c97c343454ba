import EdwardsSignature.Key.Basic
import EdwardsSignature.Key.Generator
import EdwardsSignature.Parameters.Description
import EdwardsSignature.Session.Call

/-! Operations as data, in terms that no representation of the field enters.

An operation names earlier results by their number and brings everything else as bytes.
Operations with one shape are gathered under one constructor, with what they compute
beside them. -/
set_option autoImplicit false
namespace EdwardsSignature.Program

/-- The number of an earlier operation, whose result is meant. -/
abbrev Slot := Nat

section Field

inductive FieldUnary where
  | negate
  | square
  | doubleSquare
  | invert
  | rootPower
  | addOne
  | subtractOne
  | power (exponent : Bytes)

inductive FieldBinary where
  | add
  | subtract
  | multiply
  | divide
  | select (bit : UInt8)

inductive FieldTest where
  | isNonZero
  | isNegative

variable {F : Type} [BaseField F]

def FieldUnary.apply : FieldUnary → F → F
  | negate, element => -element
  | square, element => BaseField.square element
  | doubleSquare, element => BaseField.doubleSquare element
  | invert, element => BaseField.invert element
  | rootPower, element => BaseField.rootPower element
  | addOne, element => element + 1
  | subtractOne, element => element - 1
  | power exponent, element => BaseField.power element exponent

def FieldBinary.apply : FieldBinary → F → F → F
  | add, left, right => left + right
  | subtract, left, right => left - right
  | multiply, left, right => left * right
  | divide, left, right => BaseField.divide left right
  | select bit, unset, set => BaseField.select unset set bit

def FieldTest.apply : FieldTest → F → Bool
  | isNonZero, element => BaseField.isNonZero element
  | isNegative, element => BaseField.isNegative element

end Field

section Group

inductive PointUnary where
  | double
  | negate
  | toProjective
  | toExtended
  | toProjectiveNiels
  | convert (target : CoordinateSystem)
  | multiplyNaive (scalar : Bytes)

inductive PointBinary where
  | add
  | sub
  | addEntry
  | subEntry

inductive TableName where
  | comb
  | odd

inductive CurveConstant where
  | d
  | twiceD
  | rootOfMinusOne

variable {F : Type} [BaseField F]

def PointUnary.apply (curve : Curve F) : PointUnary → Point F → Except Failure (Point F)
  | double, point => do return Point.completed (← point.double)
  | negate, point => do return Point.extended (← point.negate curve)
  | toProjective, point => do return Point.projective (← point.toProjective)
  | toExtended, point => do return Point.extended (← point.toExtended)
  | toProjectiveNiels, point => do return Point.projectiveNiels (← point.toProjectiveNiels curve)
  | convert target, point => do return ← point.convert curve target
  | multiplyNaive scalar, point => do return Point.extended (← point.multiplyNaive curve scalar)

def PointBinary.apply : PointBinary → Point F → Point F → Except Violation (Completed F)
  | add, left, right => left.add right
  | sub, left, right => left.sub right
  | addEntry, left, right => left.addEntry right
  | subEntry, left, right => left.subEntry right

def TableName.entries : TableName → TabledPoint F → List (AffineNiels F)
  | comb, tabled => tabled.comb.get.toList.flatMap (·.toList)
  | odd, tabled => tabled.odd.get.toList

def CurveConstant.of : CurveConstant → Curve F → F
  | d, curve => curve.d
  | twiceD, curve => curve.twiceD
  | rootOfMinusOne, curve => curve.rootOfMinusOne

end Group

inductive FieldOperation where
  | zero
  | one
  | constant (value : Nat)
  | decode (encoding : Bytes)
  | coordinate (point : Slot) (index : Nat)
  | unary (operation : FieldUnary) (operand : Slot)
  | binary (operation : FieldBinary) (left right : Slot)
  | test (property : FieldTest) (operand : Slot)
  | equal (left right : Slot)
  | same (left right : Slot)

inductive GroupOperation where
  | constant (name : CurveConstant)
  | decode (encoding : Bytes)
  | point (encoded : Point Bytes)
  | assemble (coordinates : Point Slot)
  | neutral (system : CoordinateSystem)
  | unary (operation : PointUnary) (operand : Slot)
  | binary (operation : PointBinary) (left right : Slot)
  | encode (operand : Slot)
  | isOnCurve (operand : Slot)
  | equal (left right : Slot)
  | prepare (operand : Slot)
  | prepareDecoded (encoding : Bytes)
  | negatePrepared (operand : Slot)
  | encodePrepared (operand : Slot)
  | entries (table : TableName) (operand : Slot) (start stop : Nat)
  | entry (table : TableName) (operand : Slot) (index : Nat)
  | multiply (operand : Slot) (scalar : Block 32)
  | multiplyDouble (other operand : Slot) (otherScalar scalar : Block 32)

/-- Operations that make parameters and keys and take them apart. Without a description,
parameters are the standard ones. -/
inductive KeyOperation where
  | parameters (description : Option ParametersDescription)
  | assemble (curve : CurveDescription) (algorithm : HashAlgorithm) (scalars : ScalarArithmetic)
      (base : Slot)
  | parametersOf (key : Slot)
  | base (parameters : Slot)
  | key (description : Option ParametersDescription) (material : KeyMaterial)
  | keyUnder (parameters : Slot) (material : KeyMaterial)
  | generate (parameters : Slot) (source : CyclicSource)
  | wrap (parameters point : Slot)
  | publicKey (key : Slot)
  | point (key : Slot)
  | negated (key : Slot)
  | equalPrivate (left right : Slot)
  | equalPublic (left right : Slot)

/-- An operation of any kind. Group operations take place on the workspace's curve or on a
described one, and calls in the first session or in one that was opened later. A session
call names its key by activity and slot. -/
inductive Operation where
  | field (operation : FieldOperation)
  | group (operation : GroupOperation)
  | groupOn (curve : CurveDescription) (operation : GroupOperation)
  | key (operation : KeyOperation)
  | session (call : Call (SessionMode × Slot))
  | openSession (required : Option HashAlgorithm)
  | sessionAt (number : Nat) (call : Call (SessionMode × Slot))

end EdwardsSignature.Program
