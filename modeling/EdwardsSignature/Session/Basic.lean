import EdwardsSignature.Key.Basic
import EdwardsSignature.Session.Equation

/-! Sessions that sign or verify one message after another under one key.

Message bytes are either copied into a buffer, piece by piece, or lent in one piece. In
one-shot mode a single feed is accepted; the mode ends with the message. After signing or
verifying, the session is ready for the next message under the same key. -/
set_option autoImplicit false
namespace EdwardsSignature

structure Session (F : Type) [BaseField F] where
  /-- The only hash algorithm that keys may declare, if there is one. -/
  required : Option HashAlgorithm
  digest : Option Digest
  key : Option (Key F)
  /-- Copied message bytes. -/
  buffer : Bytes
  oneShot : Bool
  /-- Whether the one feed of one-shot mode has happened. -/
  fed : Bool
  /-- Message bytes that were lent instead of copied. -/
  borrowed : Option Bytes

variable {F : Type} [BaseField F]

/-- What a digest is fed before the message: the secret half of a signing key. -/
def Key.opening : Key F → Bytes
  | .signing key => key.nonceKey.toList
  | .verifying _ => []

namespace Session

abbrev Outcome (F : Type) [BaseField F] (α : Type) := Except Failure α × Session F

def start (required : Option HashAlgorithm) : Session F :=
  ⟨required, none, none, [], false, false, none⟩

def mode? (session : Session F) : Option SessionMode := session.key.map (·.mode)

/-- The message so far: what was lent, or else what was copied. -/
def message (session : Session F) : Bytes := session.borrowed.getD session.buffer

def reject {α : Type} (session : Session F) (cause : Rejection) : Outcome F α :=
  (.error (.rejected cause), session)

/-- Drops the message and leaves one-shot mode. -/
def clearMessage (session : Session F) : Session F :=
  { session with buffer := [], oneShot := false, fed := false, borrowed := none }

/-- Starts the digest over with the key's opening. -/
def rearm (session : Session F) : Session F :=
  match session.digest, session.key with
  | some digest, some key => { session with digest := some (digest.reset.update key.opening) }
  | some digest, none => { session with digest := some digest.reset }
  | none, _ => session

def reset (session : Session F) : Session F := session.clearMessage.rearm

def checkDigest (session : Session F) (declared : HashAlgorithm) : Except Rejection Unit :=
  match session.required with
  | some required =>
      if required = declared then .ok () else .error (.digestMismatch required declared)
  | none => .ok ()

/-- Binds a key. The message is dropped even when the key is refused; the old key is not. -/
def bind (session : Session F) (key : Key F) : Outcome F Unit :=
  let cleared := session.clearMessage
  match cleared.checkDigest key.parameters.hash.algorithm with
  | .error cause => cleared.reject cause
  | .ok () =>
      (.ok (), { cleared with digest := some (.empty key.parameters.hash), key := some key }.rearm)

/-- Switches to one-shot mode, before any message bytes have come. -/
def setOneShot (session : Session F) : Outcome F Unit :=
  if session.fed || !session.buffer.isEmpty then session.reject .oneShotAfterUpdate
  else (.ok (), { session with oneShot := true })

def checkFeed (session : Session F) : Except Rejection Unit :=
  if session.key.isNone then .error .notInitialized
  else if session.oneShot && session.fed then .error .oneShotReentry
  else .ok ()

def update (session : Session F) (data : Bytes) : Outcome F Unit :=
  match session.checkFeed with
  | .error cause => session.reject cause
  | .ok () =>
      (.ok (), { session with
        buffer := session.buffer ++ data
        fed := session.fed || session.oneShot })

/-- Lends the whole message, and switches to one-shot mode if need be. -/
def updateOneShot (session : Session F) (data : Bytes) : Outcome F Unit :=
  match session.checkFeed with
  | .error cause => session.reject cause
  | .ok () =>
      let switched := if session.oneShot then (.ok (), session) else session.setOneShot
      match switched with
      | (.error cause, after) => (.error cause, after)
      | (.ok (), after) => (.ok (), { after with fed := true, borrowed := some data })

/-- Copies one byte, which one-shot mode never does. -/
def updateByte (session : Session F) (byte : UInt8) : Outcome F Unit :=
  if session.key.isNone then session.reject .notInitialized
  else if session.oneShot then session.reject .oneShotByteUpdate
  else (.ok (), { session with buffer := session.buffer ++ [byte] })

def sign (session : Session F) : Outcome F Signature :=
  match session.key with
  | none => session.reject .notInitialized
  | some (.verifying _) => session.reject (.wrongMode .signing .verifying)
  | some (.signing key) =>
      match session.digest with
      | none => session.reject .notInitialized
      | some digest => (key.signWith digest session.message, session.reset)

/-- Verifies a signature of the message and starts over, which a signature of the wrong
length brings about too. -/
def verify (session : Session F) (signature : Bytes) : Outcome F Bool :=
  match session.key with
  | none => session.reject .notInitialized
  | some (.signing _) => session.reject (.wrongMode .verifying .signing)
  | some (.verifying key) =>
      if signature.length = key.parameters.signatureLength then
        match session.digest with
        | none => session.reject .notInitialized
        | some digest => (key.verifyWith digest session.message signature, session.reset)
      else
        session.reset.reject
          (.invalidSignatureLength key.parameters.signatureLength signature.length)

def signOneShot (session : Session F) (data : Bytes) : Outcome F Signature :=
  match session.updateOneShot data with
  | (.error cause, after) => (.error cause, after)
  | (.ok (), after) => after.sign

def verifyOneShot (session : Session F) (data signature : Bytes) : Outcome F Bool :=
  match session.updateOneShot data with
  | (.error cause, after) => (.error cause, after)
  | (.ok (), after) => after.verify signature

def describeOption : Option String → String
  | some text => s!"Some({text})"
  | none => "None"

/-- The state without secrets: neither the key nor the message is shown. -/
def describe (session : Session F) : String :=
  let required := describeOption (session.required.map (·.identifier))
  let mode := describeOption (session.mode?.map (·.identifier))
  "Engine \x7b required: " ++ required ++ ", mode: " ++ mode ++
    s!", one_shot: {session.oneShot}, buffered: {session.buffer.length}" ++ " \x7d"

end Session

end EdwardsSignature
