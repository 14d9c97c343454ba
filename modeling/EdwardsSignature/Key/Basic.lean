import EdwardsSignature.Key.Private
import EdwardsSignature.Session.Mode

/-! Keys of either kind, and what they can be made from. -/
set_option autoImplicit false
namespace EdwardsSignature

inductive Key (F : Type) [BaseField F] where
  | signing (key : PrivateKey F)
  | verifying (key : PublicKey F)

/-- What a key is made from. A point's coordinates come as their encodings. -/
inductive KeyMaterial where
  | seed (bytes : Bytes)
  | hash (bytes : Bytes)
  | encoding (bytes : Bytes)
  | point (encoded : Point Bytes)

namespace Key

variable {F : Type} [BaseField F]

def mode : Key F → SessionMode
  | signing _ => .signing
  | verifying _ => .verifying

def parameters : Key F → Parameters F
  | signing key => key.parameters
  | verifying key => key.parameters

def publicKey : Key F → PublicKey F
  | signing key => key.publicKey
  | verifying key => key

/-- The key for an activity: any key verifies, only a private one signs. -/
def forMode? : Key F → SessionMode → Option (Key F)
  | signing key, .signing => some (signing key)
  | verifying _, .signing => none
  | key, .verifying => some (verifying key.publicKey)

def ofMaterial (parameters : Parameters F) : KeyMaterial → Except Failure (Key F)
  | .seed bytes => signing <$> PrivateKey.ofSeed parameters bytes
  | .hash bytes => signing <$> PrivateKey.ofHash parameters bytes
  | .encoding bytes => verifying <$> PublicKey.ofBytes parameters bytes
  | .point encoded => do
      let point ← encoded.decode
      verifying <$> PublicKey.ofPoint parameters point

end Key

end EdwardsSignature
