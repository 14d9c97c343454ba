import Mathlib
import EdwardsSignature.Proofs.Curve.Validity
import EdwardsSignature.Proofs.Session.Isolation

/-! What the constructors of keys refuse, over any parameters.

A constructor makes a key, or says what is wrong with its input. Only a point in an operand form,
which has no curve equation, is a use that is not defined. Where the hash is too short for two
scalars, the lengths that parameters ask for are not the ones that keys have, so nothing is made
from bytes. -/

set_option autoImplicit false

namespace EdwardsSignature

variable {F : Type} [BaseField F] {parameters : Parameters F}

section Causes

variable {cause : Failure}

namespace PublicKey

end PublicKey

namespace PrivateKey

end PrivateKey

end Causes

section Narrow

theorem Parameters.encodedLength_eq (parameters : Parameters F) :
    parameters.encodedLength = parameters.hash.algorithm.outputSize / 2 := by
  rw [parameters.hash_size, encodedLength, width]
  omega

end Narrow

end EdwardsSignature
