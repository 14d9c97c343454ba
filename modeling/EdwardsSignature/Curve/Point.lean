import EdwardsSignature.Curve.Encoding
import EdwardsSignature.Curve.Naive

/-! Points whose coordinate system is known only at run time.

Each operation is the one of the systems that have it, and a violation on the others.
The left operand of an addition is looked at first. -/
set_option autoImplicit false
namespace EdwardsSignature

inductive Point (F : Type) where
  | projective (point : Projective F)
  | extended (point : Extended F)
  | completed (point : Completed F)
  | affineNiels (entry : AffineNiels F)
  | projectiveNiels (operand : ProjectiveNiels F)

namespace Point

variable {F : Type}

def system : Point F → CoordinateSystem
  | projective _ => .projective
  | extended _ => .extended
  | completed _ => .completed
  | affineNiels _ => .affineNiels
  | projectiveNiels _ => .projectiveNiels

def coordinates : Point F → List (String × F)
  | projective ⟨x, y, z⟩ => [("x", x), ("y", y), ("z", z)]
  | extended ⟨x, y, z, t⟩ => [("x", x), ("y", y), ("z", z), ("t", t)]
  | completed ⟨x, y, z, t⟩ => [("x", x), ("y", y), ("z", z), ("t", t)]
  | affineNiels ⟨yPlusX, yMinusX, xy2d⟩ =>
      [("y_plus_x", yPlusX), ("y_minus_x", yMinusX), ("xy2d", xy2d)]
  | projectiveNiels ⟨yPlusX, yMinusX, z, t2d⟩ =>
      [("y_plus_x", yPlusX), ("y_minus_x", yMinusX), ("z", z), ("t2d", t2d)]

def ofCoordinates? : CoordinateSystem → List F → Option (Point F)
  | .projective, [x, y, z] => some (projective ⟨x, y, z⟩)
  | .extended, [x, y, z, t] => some (extended ⟨x, y, z, t⟩)
  | .completed, [x, y, z, t] => some (completed ⟨x, y, z, t⟩)
  | .affineNiels, [yPlusX, yMinusX, xy2d] => some (affineNiels ⟨yPlusX, yMinusX, xy2d⟩)
  | .projectiveNiels, [yPlusX, yMinusX, z, t2d] =>
      some (projectiveNiels ⟨yPlusX, yMinusX, z, t2d⟩)
  | _, _ => none

theorem ofCoordinates?_coordinates (point : Point F) :
    ofCoordinates? point.system (point.coordinates.map (·.2)) = some point := by
  cases point <;> rfl

def mapM {G ε : Type} (change : F → Except ε G) : Point F → Except ε (Point G)
  | projective point => projective <$> point.mapM change
  | extended point => extended <$> point.mapM change
  | completed point => completed <$> point.mapM change
  | affineNiels entry => affineNiels <$> entry.mapM change
  | projectiveNiels operand => projectiveNiels <$> operand.mapM change

def map {G : Type} (change : F → G) : Point F → Point G
  | projective point => projective (point.map change)
  | extended point => extended (point.map change)
  | completed point => completed (point.map change)
  | affineNiels entry => affineNiels (entry.map change)
  | projectiveNiels operand => projectiveNiels (operand.map change)

def label : Point F → String
  | projective _ => "P2"
  | extended _ => "P3"
  | completed _ => "P1P1"
  | affineNiels _ => "Precomp"
  | projectiveNiels _ => "Cached"

variable [BaseField F]

def decode (encoded : Point Bytes) : Except Rejection (Point F) :=
  encoded.mapM BaseField.decode

def coordinateBlocks (point : Point F) : Point (Block 32) :=
  point.map BaseField.toBlock

def describe (point : Point F) : String :=
  let fields := point.coordinates.map fun named => named.1 ++ ": " ++ BaseField.describe named.2
  point.label ++ " \x7b " ++ String.intercalate ", " fields ++ " \x7d"

def neutral : CoordinateSystem → Point F
  | .projective => projective .neutral
  | .extended => extended .neutral
  | .completed => completed .neutral
  | .affineNiels => affineNiels .neutral
  | .projectiveNiels => projectiveNiels .neutral

def undefined {α : Type} (operation : PointOperation) (point : Point F) : Except Violation α :=
  .error (.undefinedFor operation point.system)

def toProjective : Point F → Except Violation (Projective F)
  | projective point => .ok point
  | extended point => .ok point.toProjective
  | completed point => .ok point.toProjective
  | other => undefined .toProjective other

def toExtended : Point F → Except Violation (Extended F)
  | extended point => .ok point
  | completed point => .ok point.toExtended
  | other => undefined .toExtended other

def toProjectiveNiels (curve : Curve F) : Point F → Except Violation (ProjectiveNiels F)
  | projectiveNiels operand => .ok operand
  | extended point => .ok (point.toProjectiveNiels curve)
  | other => undefined .toProjectiveNiels other

/-- Converts to a given system. Besides staying in one's own, only the conversions that the
algorithms need exist; the others are refused. -/
def convert (curve : Curve F) (target : CoordinateSystem) :
    Point F → Except Rejection (Point F) := fun point =>
  if point.system = target then .ok point
  else match point, target with
    | extended source, .projective => .ok (projective source.toProjective)
    | completed source, .projective => .ok (projective source.toProjective)
    | completed source, .extended => .ok (extended source.toExtended)
    | extended source, .projectiveNiels => .ok (projectiveNiels (source.toProjectiveNiels curve))
    | source, target => .error (.unsupportedConversion source.system target)

/-- Converts to extended coordinates, for those that keep a point. -/
def convertExtended : Point F → Except Rejection (Extended F)
  | extended point => .ok point
  | completed point => .ok point.toExtended
  | other => .error (.unsupportedConversion other.system .extended)

theorem convert_extended (curve : Curve F) (point : Point F) :
    point.convert curve .extended = extended <$> point.convertExtended := by
  cases point <;> rfl

def encode : Point F → Except Violation (Block 32)
  | projective point => .ok point.encode
  | extended point => .ok point.encode
  | completed point => .ok point.toProjective.encode
  | other => undefined .encoding other

def isOnCurve (curve : Curve F) : Point F → Except Violation Bool
  | projective point => .ok (point.isOnCurve curve)
  | extended point => .ok (point.isOnCurve curve)
  | completed point => .ok (point.toProjective.isOnCurve curve)
  | other => undefined .curveMembership other

def double : Point F → Except Violation (Completed F)
  | projective point => .ok point.double
  | extended point => .ok point.double
  | other => undefined .doubling other

def mixedOperands : Point F → Point F → Except Violation (Extended F × AffineNiels F)
  | extended point, affineNiels entry => .ok (point, entry)
  | extended _, other => undefined .mixedAdditionOperand other
  | other, _ => undefined .mixedAddition other

def operands : Point F → Point F → Except Violation (Extended F × ProjectiveNiels F)
  | extended point, projectiveNiels operand => .ok (point, operand)
  | extended _, other => undefined .additionOperand other
  | other, _ => undefined .addition other

def addEntry (left right : Point F) : Except Violation (Completed F) :=
  (fun pair => pair.1.addEntry pair.2) <$> mixedOperands left right

def subEntry (left right : Point F) : Except Violation (Completed F) :=
  (fun pair => pair.1.subEntry pair.2) <$> mixedOperands left right

def add (left right : Point F) : Except Violation (Completed F) :=
  (fun pair => pair.1.add pair.2) <$> operands left right

def sub (left right : Point F) : Except Violation (Completed F) :=
  (fun pair => pair.1.sub pair.2) <$> operands left right

def negate (curve : Curve F) : Point F → Except Violation (Extended F)
  | extended point => .ok (point.negate curve)
  | other => undefined .negation other

def multiplyNaive (curve : Curve F) (point : Point F) (scalar : Bytes) :
    Except Violation (Extended F) :=
  (·.multiplyNaive scalar) <$> point.toProjectiveNiels curve

/-- The `(X : Y : Z)` of points that have affine coordinates. -/
def projective? : Point F → Option (Projective F)
  | projective point => some point
  | extended point => some point.toProjective
  | completed point => some point.toProjective
  | _ => none

/-- Operands are equal when their coordinates agree after scaling by the denominators. -/
def equalOperands (left right : ProjectiveNiels F) : Bool :=
  if BaseField.equal left.z right.z then
    BaseField.equal left.yPlusX right.yPlusX && BaseField.equal left.yMinusX right.yMinusX &&
      BaseField.equal left.t2d right.t2d
  else
    BaseField.equal (left.yPlusX * right.z) (right.yPlusX * left.z) &&
      BaseField.equal (left.yMinusX * right.z) (right.yMinusX * left.z) &&
      BaseField.equal (left.t2d * right.z) (right.t2d * left.z)

def equalEntries (left right : AffineNiels F) : Bool :=
  BaseField.equal left.yPlusX right.yPlusX && BaseField.equal left.yMinusX right.yMinusX &&
    BaseField.equal left.xy2d right.xy2d

/-- Points are equal when they name the same affine point. The two operand forms are only
ever equal to points of their own form. -/
def equal (left right : Point F) : Bool :=
  match left, right with
  | affineNiels leftEntry, affineNiels rightEntry => equalEntries leftEntry rightEntry
  | projectiveNiels leftOperand, projectiveNiels rightOperand =>
      equalOperands leftOperand rightOperand
  | _, _ =>
      match left.projective?, right.projective? with
      | some leftPoint, some rightPoint => leftPoint.equal rightPoint
      | _, _ => false

end Point

end EdwardsSignature
