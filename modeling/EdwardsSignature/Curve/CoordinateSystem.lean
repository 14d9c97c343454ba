/-! The five coordinate systems a curve point is written in. -/
set_option autoImplicit false
namespace EdwardsSignature

/-- Projective `(X : Y : Z)`, extended `(X : Y : Z : T)` with `XY = ZT`, completed
`((X : Z), (Y : T))`, and the two operand forms that addition reads: the affine
one of precomputed tables and the projective one of cached points. -/
inductive CoordinateSystem where
  | projective
  | extended
  | completed
  | affineNiels
  | projectiveNiels
  deriving DecidableEq, Repr

namespace CoordinateSystem

def name : CoordinateSystem → String
  | projective => "P2"
  | extended => "P3"
  | completed => "P1P1"
  | affineNiels => "PRECOMP"
  | projectiveNiels => "CACHED"

def all : List CoordinateSystem :=
  [projective, extended, completed, affineNiels, projectiveNiels]

end CoordinateSystem

end EdwardsSignature
