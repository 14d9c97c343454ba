import EdwardsSignature.Curve.Basic

/-! Curve points in each coordinate system, and the conversions between systems.

The types say which operands a formula takes; nothing else about the coordinates is
checked, so a value need not lie on a curve. -/
set_option autoImplicit false
namespace EdwardsSignature

/-- `(X : Y : Z)` for `x = X / Z` and `y = Y / Z`. -/
structure Projective (F : Type) where
  (x y z : F)

/-- `(X : Y : Z : T)` with `T = X·Y / Z`. -/
structure Extended (F : Type) where
  (x y z t : F)

/-- `((X : Z), (Y : T))` for `x = X / Z` and `y = Y / T`: what additions answer. -/
structure Completed (F : Type) where
  (x y z t : F)

/-- `(y + x, y - x, 2·d·x·y)` of an affine point: an entry of a table. -/
structure AffineNiels (F : Type) where
  (yPlusX yMinusX xy2d : F)

/-- `(Y + X, Y - X, Z, 2·d·T)` of an extended point: the right operand of an addition. -/
structure ProjectiveNiels (F : Type) where
  (yPlusX yMinusX z t2d : F)

section Map

variable {A B ε : Type}

def Projective.mapM (change : A → Except ε B) (point : Projective A) :
    Except ε (Projective B) := do
  return ⟨← change point.x, ← change point.y, ← change point.z⟩

def Extended.mapM (change : A → Except ε B) (point : Extended A) : Except ε (Extended B) := do
  return ⟨← change point.x, ← change point.y, ← change point.z, ← change point.t⟩

def Completed.mapM (change : A → Except ε B) (point : Completed A) : Except ε (Completed B) := do
  return ⟨← change point.x, ← change point.y, ← change point.z, ← change point.t⟩

def AffineNiels.mapM (change : A → Except ε B) (entry : AffineNiels A) :
    Except ε (AffineNiels B) := do
  return ⟨← change entry.yPlusX, ← change entry.yMinusX, ← change entry.xy2d⟩

def ProjectiveNiels.mapM (change : A → Except ε B) (operand : ProjectiveNiels A) :
    Except ε (ProjectiveNiels B) := do
  return ⟨← change operand.yPlusX, ← change operand.yMinusX, ← change operand.z,
    ← change operand.t2d⟩

def Projective.map (change : A → B) (point : Projective A) : Projective B :=
  ⟨change point.x, change point.y, change point.z⟩

def Extended.map (change : A → B) (point : Extended A) : Extended B :=
  ⟨change point.x, change point.y, change point.z, change point.t⟩

def Completed.map (change : A → B) (point : Completed A) : Completed B :=
  ⟨change point.x, change point.y, change point.z, change point.t⟩

def AffineNiels.map (change : A → B) (entry : AffineNiels A) : AffineNiels B :=
  ⟨change entry.yPlusX, change entry.yMinusX, change entry.xy2d⟩

def ProjectiveNiels.map (change : A → B) (operand : ProjectiveNiels A) : ProjectiveNiels B :=
  ⟨change operand.yPlusX, change operand.yMinusX, change operand.z, change operand.t2d⟩

end Map

variable {F : Type} [BaseField F]

namespace Projective

def neutral : Projective F := ⟨0, 1, 1⟩

end Projective

namespace Completed

def neutral : Completed F := ⟨0, 1, 1, 1⟩

def toProjective (point : Completed F) : Projective F :=
  ⟨point.x * point.t, point.y * point.z, point.z * point.t⟩

def toExtended (point : Completed F) : Extended F :=
  ⟨point.x * point.t, point.y * point.z, point.z * point.t, point.x * point.y⟩

end Completed

namespace AffineNiels

def neutral : AffineNiels F := ⟨1, 1, 0⟩

def select (unset set : AffineNiels F) (bit : UInt8) : AffineNiels F :=
  ⟨BaseField.select unset.yPlusX set.yPlusX bit,
    BaseField.select unset.yMinusX set.yMinusX bit,
    BaseField.select unset.xy2d set.xy2d bit⟩

def negate (entry : AffineNiels F) : AffineNiels F :=
  ⟨entry.yMinusX, entry.yPlusX, -entry.xy2d⟩

end AffineNiels

namespace ProjectiveNiels

def neutral : ProjectiveNiels F := ⟨1, 1, 1, 0⟩

end ProjectiveNiels

namespace Extended

def neutral : Extended F := ⟨0, 1, 1, 0⟩

def toProjective (point : Extended F) : Projective F :=
  ⟨point.x, point.y, point.z⟩

def toProjectiveNiels (curve : Curve F) (point : Extended F) : ProjectiveNiels F :=
  ⟨point.y + point.x, point.y - point.x, point.z, point.t * curve.twiceD⟩

/-- The table entry of the affine point, which costs an inversion. -/
def toAffineNiels (curve : Curve F) (point : Extended F) : AffineNiels F :=
  let inverse := BaseField.invert point.z
  let x := point.x * inverse
  let y := point.y * inverse
  ⟨y + x, y - x, x * y * curve.twiceD⟩

end Extended

end EdwardsSignature
