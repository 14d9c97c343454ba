import EdwardsSignature.Key.Public

/-! Private keys, expanded from a seed or given as a seed's hash. -/
set_option autoImplicit false
namespace EdwardsSignature

/-- Makes a scalar of 32 bytes: the three low bits and bit 255 are cleared and bit 254 is
set, so the scalar is a multiple of eight in the upper half of its range. -/
def clamp (bytes : Block 32) : Block 32 :=
  (bytes.mapBottom (· &&& 248)).mapTop fun byte => (byte &&& 63) ||| 64

/-- A private key: the seed, when it is known, its hash with the low half clamped, and that half
as the scalar. -/
structure PrivateKey (F : Type) [BaseField F] where
  seed : Option (Block 32)
  hash : Block 64
  scalar : Block 32
  publicKey : PublicKey F
  scalar_eq : scalar = hash.low

namespace PrivateKey

variable {F : Type} [BaseField F]

def parameters (key : PrivateKey F) : Parameters F := key.publicKey.parameters

def nonceKey (key : PrivateKey F) : Block 32 := key.hash.high

def clampLow (hash : Block 64) : Block 64 :=
  clamp hash.low ++ hash.high

theorem low_clampLow (hash : Block 64) : (clampLow hash).low = clamp hash.low :=
  Block.low_append _ _

theorem high_clampLow (hash : Block 64) : (clampLow hash).high = hash.high :=
  Block.high_append _ _

/-- Expands a seed's hash: the public point is the scalar's multiple of the base point. -/
def expand (parameters : Parameters F) (seed : Option (Block 32)) (hash : Bytes) :
    Except Failure (PrivateKey F) :=
  match Block.ofBytes? 64 hash with
  | none => .error (.rejected (.invalidHashLength 64 hash.length))
  | some block => do
      let scalar := clamp block.low
      let point ← parameters.base.multiply scalar
      let publicKey ← PublicKey.ofPoint parameters (Point.extended point)
      return ⟨seed, clampLow block, scalar, publicKey, (low_clampLow block).symm⟩

def ofSeed (parameters : Parameters F) (seed : Bytes) : Except Failure (PrivateKey F) :=
  let refused : Except Failure (PrivateKey F) :=
    .error (.rejected (.invalidSeedLength parameters.encodedLength seed.length))
  if seed.length = parameters.encodedLength then
    match Block.ofBytes? 32 seed with
    | some block => expand parameters (some block) (parameters.hash.digest seed)
    | none => refused
  else refused

/-- Expands a hash of the parameters' signature length. The key has no seed. -/
def ofHash (parameters : Parameters F) (hash : Bytes) : Except Failure (PrivateKey F) :=
  if hash.length = parameters.signatureLength then expand parameters none hash
  else .error (.rejected (.invalidHashLength parameters.signatureLength hash.length))

def equal (left right : PrivateKey F) : Bool :=
  BranchFree.equal left.hash.toList right.hash.toList

def describe (key : PrivateKey F) : String :=
  "PrivateKey \x7b public: " ++ key.publicKey.describe ++ ", .. \x7d"

end PrivateKey

end EdwardsSignature
