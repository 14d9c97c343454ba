import Mathlib
import EdwardsSignature.Proofs.Session.Transcript

/-! Sessions answer as their transcripts do.

The invariant says that the digest is always armed with the bound key's opening, and that
copied and lent bytes never both carry the message. -/

set_option autoImplicit false

namespace EdwardsSignature

variable {F : Type} [BaseField F]

namespace Session

/-- A digest that has been fed a key's opening and nothing else. -/
def armed (key : Key F) : Digest := ⟨key.parameters.hash, key.opening⟩

/-- The states between calls: without a key, with a message that is copied piece by piece, and in
one-shot mode before and after the one piece has been copied or lent. -/
inductive Coherent : Session F → Prop where
  | idle (required : Option HashAlgorithm) (oneShot : Bool) :
      Coherent ⟨required, none, none, [], oneShot, false, none⟩
  | collecting (required : Option HashAlgorithm) (key : Key F) (buffer : Bytes) :
      Coherent ⟨required, some (armed key), some key, buffer, false, false, none⟩
  | switched (required : Option HashAlgorithm) (key : Key F) :
      Coherent ⟨required, some (armed key), some key, [], true, false, none⟩
  | copied (required : Option HashAlgorithm) (key : Key F) (buffer : Bytes) :
      Coherent ⟨required, some (armed key), some key, buffer, true, true, none⟩
  | lent (required : Option HashAlgorithm) (key : Key F) (data : Bytes) :
      Coherent ⟨required, some (armed key), some key, [], true, true, some data⟩

def transcript (session : Session F) : Transcript F :=
  ⟨session.required, session.key, session.message, session.oneShot, session.fed⟩

/-- An outcome that the machine without a digest has too, and after which the invariant holds. -/
structure Follows {α : Type} (outcome : Outcome F α) (expected : Except Failure α × Transcript F) :
    Prop where
  outcome_eq : expected = (outcome.1, outcome.2.transcript)
  coherent : outcome.2.Coherent

theorem coherent_start (required : Option HashAlgorithm) :
    (start required : Session F).Coherent :=
  .idle required false

variable {session : Session F}

theorem Coherent.reject {α : Type} (coherent : session.Coherent) (cause : Rejection) :
    Follows (session.reject cause : Outcome F α) (session.transcript.reject cause) :=
  ⟨rfl, coherent⟩

section Clearing

/-- Dropping the message leaves the digest armed already. -/
theorem Coherent.reset_eq (coherent : session.Coherent) : session.reset = session.clearMessage := by
  cases coherent <;> rfl

theorem Coherent.clearMessage (coherent : session.Coherent) : session.clearMessage.Coherent := by
  cases coherent with
  | idle required oneShot => exact .idle required false
  | collecting required key buffer => exact .collecting required key []
  | switched required key => exact .collecting required key []
  | copied required key buffer => exact .collecting required key []
  | lent required key data => exact .collecting required key []

theorem Coherent.reset (coherent : session.Coherent) : session.reset.Coherent := by
  rw [coherent.reset_eq]
  exact coherent.clearMessage

theorem Coherent.transcript_reset (coherent : session.Coherent) :
    session.reset.transcript = session.transcript.clear := by
  rw [coherent.reset_eq]
  rfl

end Clearing

section Binding

def bound (session : Session F) (key : Key F) : Session F :=
  ⟨session.required, some (armed key), some key, [], false, false, none⟩

theorem coherent_bound (session : Session F) (key : Key F) : (session.bound key).Coherent :=
  .collecting session.required key []

/-- Binding depends on nothing but the required algorithm. -/
theorem bind_eq (session : Session F) (key : Key F) :
    session.bind key =
      match session.checkDigest key.parameters.hash.algorithm with
      | .ok () => (.ok (), session.bound key)
      | .error cause => session.clearMessage.reject cause := by
  have same : session.clearMessage.checkDigest key.parameters.hash.algorithm =
      session.checkDigest key.parameters.hash.algorithm := rfl
  unfold bind
  dsimp only
  rw [same]
  cases session.checkDigest key.parameters.hash.algorithm with
  | error cause => rfl
  | ok done => rfl

theorem Coherent.bind (coherent : session.Coherent) (key : Key F) :
    Follows (session.bind key) (session.transcript.bind key) := by
  rw [bind_eq]
  unfold checkDigest Transcript.bind
  have required_eq : session.transcript.required = session.required := rfl
  rw [required_eq]
  cases required : session.required with
  | none =>
      refine ⟨?_, coherent_bound session key⟩
      simp only [transcript, Transcript.clear, bound, required]
      rfl
  | some algorithm =>
      dsimp only
      by_cases same : algorithm = key.parameters.hash.algorithm
      · rw [if_pos same, if_pos same]
        refine ⟨?_, coherent_bound session key⟩
        simp only [transcript, Transcript.clear, bound, required]
        rfl
      · rw [if_neg same, if_neg same]
        exact coherent.clearMessage.reject (.digestMismatch algorithm _)

end Binding

section Feeding

theorem Coherent.setOneShot (coherent : session.Coherent) :
    Follows session.setOneShot session.transcript.setOneShot := by
  cases coherent with
  | idle required oneShot => exact ⟨rfl, .idle required true⟩
  | collecting required key buffer =>
      cases buffer with
      | nil => exact ⟨rfl, .switched required key⟩
      | cons byte rest => exact ⟨rfl, .collecting required key (byte :: rest)⟩
  | switched required key => exact ⟨rfl, .switched required key⟩
  | copied required key buffer => exact ⟨rfl, .copied required key buffer⟩
  | lent required key data => exact ⟨rfl, .lent required key data⟩

theorem Coherent.update (coherent : session.Coherent) (data : Bytes) :
    Follows (session.update data) (session.transcript.update data) := by
  cases coherent with
  | idle required oneShot => exact ⟨rfl, .idle required oneShot⟩
  | collecting required key buffer => exact ⟨rfl, .collecting required key (buffer ++ data)⟩
  | switched required key => exact ⟨rfl, .copied required key data⟩
  | copied required key buffer => exact ⟨rfl, .copied required key buffer⟩
  | lent required key data => exact ⟨rfl, .lent required key data⟩

theorem Coherent.updateOneShot (coherent : session.Coherent) (data : Bytes) :
    Follows (session.updateOneShot data) (session.transcript.updateOneShot data) := by
  cases coherent with
  | idle required oneShot => exact ⟨rfl, .idle required oneShot⟩
  | collecting required key buffer =>
      cases buffer with
      | nil => exact ⟨rfl, .lent required key data⟩
      | cons byte rest => exact ⟨rfl, .collecting required key (byte :: rest)⟩
  | switched required key => exact ⟨rfl, .lent required key data⟩
  | copied required key buffer => exact ⟨rfl, .copied required key buffer⟩
  | lent required key data => exact ⟨rfl, .lent required key data⟩

theorem Coherent.updateByte (coherent : session.Coherent) (byte : UInt8) :
    Follows (session.updateByte byte) (session.transcript.updateByte byte) := by
  cases coherent with
  | idle required oneShot => exact ⟨rfl, .idle required oneShot⟩
  | collecting required key buffer => exact ⟨rfl, .collecting required key (buffer ++ [byte])⟩
  | switched required key => exact ⟨rfl, .switched required key⟩
  | copied required key buffer => exact ⟨rfl, .copied required key buffer⟩
  | lent required key data => exact ⟨rfl, .lent required key data⟩

end Feeding

section Finishing

theorem wide_mk (parameters : Parameters F) (absorbed : Bytes) :
    (⟨parameters.hash, absorbed⟩ : Digest).wide = parameters.wideHash absorbed := rfl

theorem signWith_armed (key : PrivateKey F) (message : Bytes) :
    key.signWith (armed (.signing key)) message = key.signMessage message := by
  unfold PrivateKey.signWith PrivateKey.signMessage
  simp only [armed, Key.parameters, Key.opening, Digest.update, Digest.reset, Digest.empty,
    List.nil_append, wide_mk]

theorem verifyWith_armed (key : PublicKey F) (message signature : Bytes) :
    key.verifyWith (armed (.verifying key)) message signature = key.verdict message signature :=
  rfl

theorem Coherent.digest_eq (coherent : session.Coherent) :
    session.digest = session.key.map armed := by
  cases coherent <;> rfl

theorem Coherent.sign (coherent : session.Coherent) :
    Follows session.sign session.transcript.sign := by
  have digest := coherent.digest_eq
  have reset := coherent.transcript_reset
  have key_eq : session.transcript.key = session.key := rfl
  unfold Session.sign Transcript.sign
  rw [key_eq, digest]
  match session.key with
  | none => exact coherent.reject .notInitialized
  | some (.verifying key) => exact coherent.reject (.wrongMode .signing .verifying)
  | some (.signing key) =>
      refine ⟨?_, coherent.reset⟩
      dsimp only [Option.map_some]
      rw [signWith_armed, reset]
      rfl

theorem Coherent.verify (coherent : session.Coherent) (signature : Bytes) :
    Follows (session.verify signature) (session.transcript.verify signature) := by
  have digest := coherent.digest_eq
  have reset := coherent.transcript_reset
  have key_eq : session.transcript.key = session.key := rfl
  unfold Session.verify Transcript.verify
  rw [key_eq, digest]
  match session.key with
  | none => exact coherent.reject .notInitialized
  | some (.signing key) => exact coherent.reject (.wrongMode .verifying .signing)
  | some (.verifying key) =>
      dsimp only [Option.map_some, PublicKey.verifyMessage]
      split
      · refine ⟨?_, coherent.reset⟩
        rw [verifyWith_armed, reset]
        rfl
      · refine ⟨?_, coherent.reset⟩
        dsimp only [Session.reject]
        rw [reset]

end Finishing

section Runs

variable {α : Type}

theorem Follows.answer {outcome : Outcome F α} {expected : Except Failure α × Transcript F}
    (follows : Follows outcome expected) (word : α → Answer) :
    Follows (outcome.answer word) (Transcript.answer expected word) := by
  refine ⟨?_, follows.coherent⟩
  rw [follows.outcome_eq]
  rfl

theorem Coherent.afterOneShot (coherent : session.Coherent) (data : Bytes)
    {next : Session F → Outcome F α} {expected : Transcript F → Except Failure α × Transcript F}
    (continues : ∀ after : Session F, after.Coherent →
      Follows (next after) (expected after.transcript)) :
    Follows
      (match session.updateOneShot data with
        | (.error cause, after) => (.error cause, after)
        | (.ok (), after) => next after)
      (session.transcript.afterOneShot data expected) := by
  have taken := coherent.updateOneShot data
  unfold Transcript.afterOneShot
  rw [taken.outcome_eq]
  match session.updateOneShot data, taken.coherent with
  | (.error cause, _), kept => exact ⟨rfl, kept⟩
  | (.ok (), after), kept => exact continues after kept

theorem Coherent.perform (coherent : session.Coherent) (call : Call (Key F)) :
    Follows (session.perform call) (session.transcript.perform call) := by
  cases call with
  | bind key => exact (coherent.bind key).answer _
  | setOneShot => exact coherent.setOneShot.answer _
  | reset =>
      refine ⟨?_, coherent.reset⟩
      simp only [Session.perform, Transcript.perform, coherent.transcript_reset]
  | update data => exact (coherent.update data).answer _
  | updateOneShot data => exact (coherent.updateOneShot data).answer _
  | updateByte byte => exact (coherent.updateByte byte).answer _
  | sign => exact coherent.sign.answer _
  | signOneShot data =>
      exact (coherent.afterOneShot data fun after known => known.sign).answer _
  | verify signature => exact (coherent.verify signature).answer _
  | verifyOneShot data signature =>
      exact (coherent.afterOneShot data fun after known => known.verify signature).answer _

theorem Coherent.run (coherent : session.Coherent) (calls : List (Call (Key F))) :
    session.transcript.run calls = ((session.run calls).1, (session.run calls).2.transcript) ∧
      (session.run calls).2.Coherent := by
  induction calls generalizing session with
  | nil => exact ⟨rfl, coherent⟩
  | cons call rest ih =>
      have first := coherent.perform call
      obtain ⟨later, kept⟩ := ih first.coherent
      refine ⟨?_, kept⟩
      simp only [Transcript.run, first.outcome_eq, later]
      rfl

/-- Every answer of every run is that of the machine without a digest, and the message is
exactly what feeds have handed over since it was last cleared. -/
theorem run_start_eq (required : Option HashAlgorithm) (calls : List (Call (Key F))) :
    ((start required).run calls).1 = ((Transcript.start required).run calls).1 ∧
      ((start required).run calls).2.transcript = ((Transcript.start required).run calls).2 ∧
      ((start required).run calls).2.message =
        pendingMessage [] calls ((start required).run calls).1 := by
  have transcript_start : (start required : Session F).transcript = Transcript.start required := rfl
  obtain ⟨same, _⟩ := (coherent_start required).run calls
  have message_eq := Transcript.message_run (Transcript.start required) calls
  rw [transcript_start] at same
  rw [same] at message_eq ⊢
  exact ⟨rfl, rfl, message_eq⟩

end Runs

end Session

end EdwardsSignature
