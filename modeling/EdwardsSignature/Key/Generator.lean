import EdwardsSignature.Key.Private

/-! Key generation from a source of bytes. -/
set_option autoImplicit false
namespace EdwardsSignature

class ByteSource (S : Type) where
  draw : (count : Nat) → S → Block count × S

/-- A source that hands out the same bytes over and over. -/
structure CyclicSource where
  bytes : Bytes
  position : Nat

instance : ByteSource CyclicSource where
  draw count source :=
    (Vector.ofFn fun index : Fin count =>
      source.bytes.getD ((source.position + index.val) % source.bytes.length) 0,
      { source with position := source.position + count })

def defaultStrength : Nat := 256

/-- The parameters for a key strength: only one strength has any. -/
def Parameters.ofStrength {F : Type} [BaseField F] (bits : Nat) :
    Except Rejection (Parameters F) :=
  if bits = defaultStrength then Parameters.standard else .error (.unknownStrength bits)

namespace PrivateKey

variable {F : Type} [BaseField F] {S : Type} [ByteSource S]

/-- Draws a seed and expands it. The source has moved on even if expansion fails. -/
def generate (parameters : Parameters F) (source : S) : Except Failure (PrivateKey F) × S :=
  let (seed, rest) := ByteSource.draw 32 source
  (ofSeed parameters seed.toList, rest)

def generatePair (parameters : Parameters F) (source : S) :
    Except Failure (PrivateKey F × PublicKey F) × S :=
  let (generated, rest) := generate parameters source
  ((fun key => (key, key.publicKey)) <$> generated, rest)

end PrivateKey

end EdwardsSignature
