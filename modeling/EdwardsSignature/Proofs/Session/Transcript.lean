import Mathlib
import EdwardsSignature.Session.Call

/-! What a session is seen to do from outside: a machine without a digest.

It keeps the message in one place, whether bytes were copied or lent, and computes every
signature and every verdict from scratch. A session answers every call as this machine does. -/

set_option autoImplicit false

namespace EdwardsSignature

variable {F : Type} [BaseField F]

def Parameters.wideHash (parameters : Parameters F) (message : Bytes) :
    Except Rejection (Block 64) :=
  match Block.ofBytes? 64 (parameters.hash.digest message) with
  | some block => .ok block
  | none => .error (.hashLengthMismatch 64 (parameters.hash.digest message).length)

/-- The signature of a message, from nothing but the key and the message. -/
def PrivateKey.signMessage (key : PrivateKey F) (message : Bytes) : Except Failure Signature := do
  let parameters := key.parameters
  let nonceHash ← parameters.wideHash (key.nonceKey.toList ++ message)
  let nonce := parameters.scalars.reduce nonceHash
  let commitment := (← parameters.base.multiply nonce).encode
  let challengeHash ←
    parameters.wideHash (commitment.toList ++ key.publicKey.encoding.toList ++ message)
  let challenge := parameters.scalars.reduce challengeHash
  return .ofParts commitment (parameters.scalars.multiplyAdd challenge key.scalar nonce)

def PublicKey.verdict (key : PublicKey F) (message signature : Bytes) : Except Failure Bool := do
  let parameters := key.parameters
  if signature.length < 32 then throw (.violated .signatureTooShort)
  let commitment := signature.take 32
  match Block.ofBytes? 32 (signature.drop 32) with
  | none =>
      throw (.rejected (.invalidSignatureLength parameters.signatureLength signature.length))
  | some response =>
      if Scalar.isCanonical response then
        let challengeHash ← parameters.wideHash (commitment ++ key.encoding.toList ++ message)
        let challenge := parameters.scalars.reduce challengeHash
        return (parameters.base.multiplyDouble key.negated challenge response).encode.toList
          == commitment
      else return false

def PublicKey.verifyMessage (key : PublicKey F) (message signature : Bytes) :
    Except Failure Bool :=
  if signature.length = key.parameters.signatureLength then key.verdict message signature
  else .error (.rejected
    (.invalidSignatureLength key.parameters.signatureLength signature.length))

/-- What a session is for, its key, the message so far and the one-shot flags. -/
structure Transcript (F : Type) [BaseField F] where
  required : Option HashAlgorithm
  key : Option (Key F)
  message : Bytes
  oneShot : Bool
  fed : Bool

namespace Transcript

def start (required : Option HashAlgorithm) : Transcript F := ⟨required, none, [], false, false⟩

def reject {α : Type} (transcript : Transcript F) (cause : Rejection) :
    Except Failure α × Transcript F :=
  (.error (.rejected cause), transcript)

def clear (transcript : Transcript F) : Transcript F :=
  { transcript with message := [], oneShot := false, fed := false }

def take (transcript : Transcript F) (data : Bytes) : Transcript F :=
  { transcript with message := transcript.message ++ data }

def bind (transcript : Transcript F) (key : Key F) : Except Failure Unit × Transcript F :=
  match transcript.required with
  | none => (.ok (), { transcript.clear with key := some key })
  | some required =>
      if required = key.parameters.hash.algorithm then
        (.ok (), { transcript.clear with key := some key })
      else transcript.clear.reject (.digestMismatch required key.parameters.hash.algorithm)

def setOneShot (transcript : Transcript F) : Except Failure Unit × Transcript F :=
  if transcript.fed || !transcript.message.isEmpty then transcript.reject .oneShotAfterUpdate
  else (.ok (), { transcript with oneShot := true })

def update (transcript : Transcript F) (data : Bytes) : Except Failure Unit × Transcript F :=
  if transcript.key.isNone then transcript.reject .notInitialized
  else if transcript.oneShot && transcript.fed then transcript.reject .oneShotReentry
  else (.ok (), { transcript.take data with fed := transcript.fed || transcript.oneShot })

def updateOneShot (transcript : Transcript F) (data : Bytes) :
    Except Failure Unit × Transcript F :=
  if transcript.key.isNone then transcript.reject .notInitialized
  else if transcript.oneShot && transcript.fed then transcript.reject .oneShotReentry
  else if !transcript.oneShot && (transcript.fed || !transcript.message.isEmpty) then
    transcript.reject .oneShotAfterUpdate
  else (.ok (), { transcript.take data with oneShot := true, fed := true })

def updateByte (transcript : Transcript F) (byte : UInt8) : Except Failure Unit × Transcript F :=
  if transcript.key.isNone then transcript.reject .notInitialized
  else if transcript.oneShot then transcript.reject .oneShotByteUpdate
  else (.ok (), transcript.take [byte])

def sign (transcript : Transcript F) : Except Failure Signature × Transcript F :=
  match transcript.key with
  | none => transcript.reject .notInitialized
  | some (.verifying _) => transcript.reject (.wrongMode .signing .verifying)
  | some (.signing key) => (key.signMessage transcript.message, transcript.clear)

def verify (transcript : Transcript F) (signature : Bytes) : Except Failure Bool × Transcript F :=
  match transcript.key with
  | none => transcript.reject .notInitialized
  | some (.signing _) => transcript.reject (.wrongMode .verifying .signing)
  | some (.verifying key) => (key.verifyMessage transcript.message signature, transcript.clear)

def afterOneShot {α : Type} (transcript : Transcript F) (data : Bytes)
    (next : Transcript F → Except Failure α × Transcript F) : Except Failure α × Transcript F :=
  match transcript.updateOneShot data with
  | (.error cause, after) => (.error cause, after)
  | (.ok (), after) => next after

def answer {α : Type} (outcome : Except Failure α × Transcript F) (word : α → Answer) :
    Except Failure Answer × Transcript F :=
  (word <$> outcome.1, outcome.2)

def perform (transcript : Transcript F) : Call (Key F) → Except Failure Answer × Transcript F
  | .bind key => answer (transcript.bind key) fun _ => .done
  | .setOneShot => answer transcript.setOneShot fun _ => .done
  | .reset => (.ok .done, transcript.clear)
  | .update data => answer (transcript.update data) fun _ => .done
  | .updateOneShot data => answer (transcript.updateOneShot data) fun _ => .done
  | .updateByte byte => answer (transcript.updateByte byte) fun _ => .done
  | .sign => answer transcript.sign .signed
  | .signOneShot data => answer (transcript.afterOneShot data sign) .signed
  | .verify signature => answer (transcript.verify signature) .verdict
  | .verifyOneShot data signature =>
      answer (transcript.afterOneShot data (·.verify signature)) .verdict

def run (transcript : Transcript F) :
    List (Call (Key F)) → List (Except Failure Answer) × Transcript F
  | [] => ([], transcript)
  | call :: rest =>
      let (answer, after) := transcript.perform call
      let (answers, last) := after.run rest
      (answer :: answers, last)

end Transcript

section Pending

def refusesFeed : Except Failure Answer → Bool
  | .error (.rejected .notInitialized) => true
  | .error (.rejected .oneShotReentry) => true
  | .error (.rejected .oneShotAfterUpdate) => true
  | _ => false

def refusesKey : Except Failure Answer → Bool
  | .error (.rejected .notInitialized) => true
  | .error (.rejected (.wrongMode _ _)) => true
  | _ => false

/-- The pending message after a call, told from the call and its answer alone. -/
def Call.pendingAfter {K : Type} (before : Bytes) (call : Call K)
    (answer : Except Failure Answer) : Bytes :=
  match call with
  | .bind _ => []
  | .reset => []
  | .setOneShot => before
  | .update data => if answer.isOk then before ++ data else before
  | .updateOneShot data => if answer.isOk then before ++ data else before
  | .updateByte byte => if answer.isOk then before ++ [byte] else before
  | .sign => if refusesKey answer then before else []
  | .verify _ => if refusesKey answer then before else []
  | .signOneShot data =>
      if refusesFeed answer then before
      else if refusesKey answer then before ++ data else []
  | .verifyOneShot data _ =>
      if refusesFeed answer then before
      else if refusesKey answer then before ++ data else []

/-- The data that feeds have handed over since the message was last cleared. -/
def pendingMessage {K : Type} (before : Bytes) :
    List (Call K) → List (Except Failure Answer) → Bytes
  | call :: calls, answer :: answers =>
      pendingMessage (call.pendingAfter before answer) calls answers
  | _, _ => before

end Pending

section Late

/-- Failures of the computation itself, which no refusal has. -/
def Failure.isLate : Failure → Bool
  | .violated _ => true
  | .rejected (.hashLengthMismatch _ _) => true
  | .rejected (.invalidSignatureLength _ _) => true
  | .rejected _ => false

def FailsLate {α : Type} (outcome : Except Failure α) : Prop :=
  ∀ cause, outcome = .error cause → cause.isLate = true

variable {α β : Type}

theorem failsLate_ok (value : α) : FailsLate (.ok value) := by
  intro cause failed
  contradiction

theorem failsLate_error {cause : Failure} (late : cause.isLate = true) :
    FailsLate (.error cause : Except Failure α) := by
  intro other failed
  obtain rfl := Except.error.inj failed
  exact late

theorem FailsLate.bind {outcome : Except Failure α} {next : α → Except Failure β}
    (first : FailsLate outcome) (later : ∀ value, FailsLate (next value)) :
    FailsLate (outcome >>= next) := by
  cases outcome with
  | error cause => exact failsLate_error (first cause rfl)
  | ok value => exact later value

theorem failsLate_violation (outcome : Except Violation α) :
    FailsLate (liftM outcome : Except Failure α) := by
  cases outcome with
  | error cause => exact failsLate_error rfl
  | ok value => exact failsLate_ok value

theorem failsLate_wideHash (parameters : Parameters F) (message : Bytes) :
    FailsLate (liftM (parameters.wideHash message) : Except Failure (Block 64)) := by
  unfold Parameters.wideHash
  split
  · exact failsLate_ok _
  · exact failsLate_error rfl

theorem failsLate_signMessage (key : PrivateKey F) (message : Bytes) :
    FailsLate (key.signMessage message) := by
  unfold PrivateKey.signMessage
  apply (failsLate_wideHash _ _).bind
  intro nonceHash
  apply (failsLate_violation _).bind
  intro point
  apply (failsLate_wideHash _ _).bind
  intro challengeHash
  exact failsLate_ok _

theorem failsLate_verifyMessage (key : PublicKey F) (message signature : Bytes) :
    FailsLate (key.verifyMessage message signature) := by
  unfold PublicKey.verifyMessage PublicKey.verdict
  split
  · dsimp only
    split
    · exact failsLate_error rfl
    · split
      · exact failsLate_error rfl
      · split
        · apply (failsLate_wideHash _ _).bind
          intro challengeHash
          exact failsLate_ok _
        · exact failsLate_ok _
  · exact failsLate_error rfl

theorem not_refuses_of_isLate {cause : Failure} (late : cause.isLate = true) :
    refusesKey (.error cause) = false ∧ refusesFeed (.error cause) = false := by
  cases cause with
  | violated cause => exact ⟨rfl, rfl⟩
  | rejected cause => cases cause <;> first | exact ⟨rfl, rfl⟩ | contradiction

theorem FailsLate.refusesKey {outcome : Except Failure α} (late : FailsLate outcome)
    (word : α → Answer) : refusesKey (word <$> outcome) = false := by
  cases outcome with
  | ok value => rfl
  | error cause => exact (not_refuses_of_isLate (late cause rfl)).1

theorem FailsLate.refusesFeed {outcome : Except Failure α} (late : FailsLate outcome)
    (word : α → Answer) : refusesFeed (word <$> outcome) = false := by
  cases outcome with
  | ok value => rfl
  | error cause => exact (not_refuses_of_isLate (late cause rfl)).2

end Late

namespace Transcript

/-- What signing and verifying do to the message: they refuse the key or clear the message. -/
structure Finishes {α : Type} (next : Transcript F → Except Failure α × Transcript F)
    (word : α → Answer) : Prop where
  message_eq : ∀ transcript, (next transcript).2.message =
    if refusesKey (word <$> (next transcript).1) then transcript.message else []
  refusesFeed_eq : ∀ transcript, transcript.key.isNone = false →
    refusesFeed (word <$> (next transcript).1) = false

theorem finishes_sign : Finishes (sign : Transcript F → _) Answer.signed := by
  constructor
  · intro transcript
    unfold sign
    match transcript.key with
    | none => rfl
    | some (.verifying key) => rfl
    | some (.signing key) =>
        dsimp only
        rw [(failsLate_signMessage key transcript.message).refusesKey]
        rfl
  · intro transcript bound
    unfold sign
    match found : transcript.key with
    | none => simp [found] at bound
    | some (.verifying key) => rfl
    | some (.signing key) => exact (failsLate_signMessage key transcript.message).refusesFeed _

theorem finishes_verify (signature : Bytes) :
    Finishes (fun transcript : Transcript F => transcript.verify signature) Answer.verdict := by
  constructor
  · intro transcript
    unfold verify
    match transcript.key with
    | none => rfl
    | some (.signing key) => rfl
    | some (.verifying key) =>
        dsimp only
        rw [(failsLate_verifyMessage key transcript.message signature).refusesKey]
        rfl
  · intro transcript bound
    unfold verify
    match found : transcript.key with
    | none => simp [found] at bound
    | some (.signing key) => rfl
    | some (.verifying key) =>
        exact (failsLate_verifyMessage key transcript.message signature).refusesFeed _

theorem updateOneShot_cases (transcript : Transcript F) (data : Bytes) :
    (∃ cause, transcript.updateOneShot data = (.error cause, transcript) ∧
      refusesFeed (.error cause) = true) ∨
    ∃ after, transcript.updateOneShot data = (.ok (), after) ∧
      after.message = transcript.message ++ data ∧ after.key.isNone = false := by
  unfold updateOneShot
  cases bound : transcript.key.isNone with
  | true => exact Or.inl ⟨_, rfl, rfl⟩
  | false =>
      rw [if_neg Bool.false_ne_true]
      split
      · exact Or.inl ⟨_, rfl, rfl⟩
      · split
        · exact Or.inl ⟨_, rfl, rfl⟩
        · exact Or.inr ⟨_, rfl, rfl, bound⟩

theorem message_updateOneShot (transcript : Transcript F) (data : Bytes) :
    (transcript.updateOneShot data).2.message =
      if ((fun _ => Answer.done) <$> (transcript.updateOneShot data).1).isOk then
        transcript.message ++ data
      else transcript.message := by
  obtain ⟨cause, refused, _⟩ | ⟨after, taken, message_eq, _⟩ := updateOneShot_cases transcript data
  · rw [refused]
    rfl
  · rw [taken]
    exact message_eq

theorem message_afterOneShot {α : Type}
    {next : Transcript F → Except Failure α × Transcript F} {word : α → Answer}
    (finishes : Finishes next word) (transcript : Transcript F) (data : Bytes) :
    (transcript.afterOneShot data next).2.message =
      if refusesFeed (word <$> (transcript.afterOneShot data next).1) then transcript.message
      else if refusesKey (word <$> (transcript.afterOneShot data next).1) then
        transcript.message ++ data
      else [] := by
  unfold afterOneShot
  obtain ⟨cause, refused, feed⟩ | ⟨after, taken, message_eq, bound⟩ :=
    updateOneShot_cases transcript data
  · rw [refused]
    dsimp only
    have worded : word <$> (.error cause : Except Failure α) = .error cause := rfl
    rw [worded, feed, if_pos rfl]
  · rw [taken]
    dsimp only
    rw [finishes.refusesFeed_eq after bound, finishes.message_eq after, message_eq]
    rfl

theorem message_perform (transcript : Transcript F) (call : Call (Key F)) :
    (transcript.perform call).2.message =
      call.pendingAfter transcript.message (transcript.perform call).1 := by
  cases call with
  | bind key =>
      simp only [perform, answer, bind, Call.pendingAfter]
      split
      · rfl
      · split <;> rfl
  | setOneShot =>
      simp only [perform, answer, setOneShot, Call.pendingAfter]
      split <;> rfl
  | reset => rfl
  | update data =>
      simp only [perform, answer, update, Call.pendingAfter]
      split
      · rfl
      · split <;> rfl
  | updateOneShot data => exact message_updateOneShot transcript data
  | updateByte byte =>
      simp only [perform, answer, updateByte, Call.pendingAfter]
      split
      · rfl
      · split <;> rfl
  | sign => exact finishes_sign.message_eq transcript
  | signOneShot data => exact message_afterOneShot finishes_sign transcript data
  | verify signature => exact (finishes_verify signature).message_eq transcript
  | verifyOneShot data signature =>
      exact message_afterOneShot (finishes_verify signature) transcript data

theorem message_run (transcript : Transcript F) (calls : List (Call (Key F))) :
    (transcript.run calls).2.message =
      pendingMessage transcript.message calls (transcript.run calls).1 := by
  induction calls generalizing transcript with
  | nil => rfl
  | cons call rest ih =>
      have first := message_perform transcript call
      have later := ih (transcript.perform call).2
      rw [first] at later
      exact later

end Transcript

end EdwardsSignature
