import EdwardsSignature.Program.Operation

/-! What operations result in, and what can be seen of it.

A value may hold field elements in some representation; what is seen of it holds their
encodings instead, and so is the same for every representation. -/
set_option autoImplicit false
namespace EdwardsSignature.Program

structure SessionStatus where
  mode : Option SessionMode
  oneShot : Bool
  description : String

inductive Value (F : Type) [BaseField F] where
  | element (value : F)
  | point (value : Point F)
  | prepared (value : TabledPoint F)
  | parameters (value : Parameters F)
  | key (value : Key F)
  | entries (total : Nat) (listed : List (AffineNiels F))
  | bytes (value : Bytes)
  | truth (value : Bool)
  | answer (result : Except Failure Answer) (status : SessionStatus)

section Parts

variable {F : Type} [BaseField F]

def Value.element? : Value F → Option F
  | element value => some value
  | _ => none

/-- A prepared point stands for its point, too. -/
def Value.point? : Value F → Option (Point F)
  | point value => some value
  | prepared value => some (.extended value.point)
  | _ => none

def Value.prepared? : Value F → Option (TabledPoint F)
  | prepared value => some value
  | _ => none

def Value.parameters? : Value F → Option (Parameters F)
  | parameters value => some value
  | _ => none

def Value.key? : Value F → Option (Key F)
  | key value => some value
  | _ => none

def Value.privateKey? : Value F → Option (PrivateKey F)
  | key (.signing value) => some value
  | _ => none

def Value.keyFor? (mode : SessionMode) (value : Value F) : Option (Key F) :=
  value.key?.bind (·.forMode? mode)

end Parts

inductive Problem where
  | failed (failure : Failure)
  /-- The slot does not hold what the operation needs, or no session has the number. -/
  | missing (slot : Slot)

instance : MonadLift (Except Failure) (Except Problem) where
  monadLift := Except.mapError Problem.failed

instance : MonadLift (Except Rejection) (Except Problem) where
  monadLift := Except.mapError fun cause => Problem.failed (.rejected cause)

instance : MonadLift (Except Violation) (Except Problem) where
  monadLift := Except.mapError fun cause => Problem.failed (.violated cause)

structure ParametersView where
  width : Nat
  encodedLength : Nat
  signatureLength : Nat
  algorithm : HashAlgorithm
  scalars : ScalarArithmetic
  base : Extended (Block 32)
  baseEncoding : Block 32

structure PublicKeyView where
  encoding : Block 32
  point : Extended (Block 32)
  negated : Extended (Block 32)
  algorithm : HashAlgorithm
  description : String

structure PrivateKeyView where
  seed : Option (Block 32)
  hash : Block 64
  scalar : Block 32
  nonceKey : Block 32
  width : Nat
  publicKey : PublicKeyView
  description : String

inductive KeyView where
  | signing (view : PrivateKeyView)
  | verifying (view : PublicKeyView)

inductive Observation where
  | element (encoding : Block 32)
  | point (encoded : Point (Block 32))
  | prepared (encoded : Extended (Block 32))
  | parameters (view : ParametersView)
  | key (view : KeyView)
  | entries (total : Nat) (encoded : List (AffineNiels (Block 32)))
  | bytes (value : Bytes)
  | truth (value : Bool)
  | answer (result : Except Failure Answer) (status : SessionStatus)

variable {F : Type} [BaseField F]

def viewParameters (parameters : Parameters F) : ParametersView where
  width := parameters.width
  encodedLength := parameters.encodedLength
  signatureLength := parameters.signatureLength
  algorithm := parameters.hash.algorithm
  scalars := parameters.scalars
  base := parameters.base.point.map BaseField.toBlock
  baseEncoding := parameters.base.encode

def viewPublicKey (key : PublicKey F) : PublicKeyView where
  encoding := key.encoding
  point := key.point.map BaseField.toBlock
  negated := key.negated.point.map BaseField.toBlock
  algorithm := key.parameters.hash.algorithm
  description := key.describe

def viewPrivateKey (key : PrivateKey F) : PrivateKeyView where
  seed := key.seed
  hash := key.hash
  scalar := key.scalar
  nonceKey := key.nonceKey
  width := key.parameters.width
  publicKey := viewPublicKey key.publicKey
  description := key.describe

def viewKey : Key F → KeyView
  | .signing key => .signing (viewPrivateKey key)
  | .verifying key => .verifying (viewPublicKey key)

def sessionStatus (session : Session F) : SessionStatus :=
  ⟨session.mode?, session.oneShot, session.describe⟩

def Value.observe : Value F → Observation
  | element value => .element (BaseField.toBlock value)
  | point value => .point value.coordinateBlocks
  | prepared value => .prepared (value.point.map BaseField.toBlock)
  | parameters value => .parameters (viewParameters value)
  | key value => .key (viewKey value)
  | entries total listed => .entries total (listed.map (·.map BaseField.toBlock))
  | bytes value => .bytes value
  | truth value => .truth value
  | answer result status => .answer result status

end EdwardsSignature.Program
