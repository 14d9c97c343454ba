import Mathlib
import EdwardsSignature.Proofs.Session.Reaction

/-! What sessions answer once a key is bound and a message is pending.

It makes no difference what a session went through before, which feeds it refused, nor in
which pieces the message came: the answer is that of the key and the whole message. -/

set_option autoImplicit false

namespace EdwardsSignature

variable {F : Type} [BaseField F]

/-- A session that a run has led to, with a key bound, and with the data that feeds have handed
over since the message was last cleared. -/
structure Session.Awaits (session : Session F) (key : Key F) (pending : Bytes) : Prop where
  reached : ∃ required calls, ((start required).run calls).2 = session ∧
    pendingMessage [] calls ((start required).run calls).1 = pending
  bound : session.key = some key

/-- What sessions answer when they are to sign a message: it is pending already, or it is handed
over whole when nothing has come yet. -/
inductive PrivateKey.Answers (key : PrivateKey F) (message : Bytes) :
    Except Failure Signature → Prop where
  | collected {session : Session F} (awaits : session.Awaits (.signing key) message) :
      Answers key message session.sign.1
  | whole {session : Session F} (awaits : session.Awaits (.signing key) [])
      (unfed : session.fed = false) :
      Answers key message (session.signOneShot message).1

inductive PublicKey.Answers (key : PublicKey F) (message signature : Bytes) :
    Except Failure Bool → Prop where
  | collected {session : Session F} (awaits : session.Awaits (.verifying key) message) :
      Answers key message signature (session.verify signature).1
  | whole {session : Session F} (awaits : session.Awaits (.verifying key) [])
      (unfed : session.fed = false) :
      Answers key message signature (session.verifyOneShot message signature).1

namespace Session

variable {session : Session F} {key : Key F} {message : Bytes}

theorem Awaits.spec (awaits : session.Awaits key message) :
    session.Coherent ∧ session.message = message := by
  obtain ⟨⟨required, calls, rfl, rfl⟩, _⟩ := awaits
  obtain ⟨same, coherent⟩ := (coherent_start required).run calls
  have grown := Transcript.message_run (start required : Session F).transcript calls
  rw [same] at grown
  exact ⟨coherent, grown⟩

theorem exists_awaits (key : Key F) (message : Bytes) :
    ∃ session : Session F, session.Awaits key message := by
  refine ⟨_, ⟨none, [.bind key, .update message], rfl, ?_⟩, ?_⟩
  · have answers : ((start none).run [.bind key, .update message]).1 =
        [.ok .done, .ok .done] := rfl
    rw [answers]
    rfl
  · rfl

theorem Awaits.updateOneShot (awaits : session.Awaits key []) (unfed : session.fed = false)
    (message : Bytes) :
    ∃ after, session.updateOneShot message = (.ok (), after) ∧ after.Coherent ∧
      after.key = some key ∧ after.message = message := by
  have bound := awaits.bound
  obtain ⟨coherent, empty⟩ := awaits.spec
  cases coherent with
  | idle required oneShot => contradiction
  | collecting required other buffer =>
      obtain rfl : buffer = [] := empty
      exact ⟨_, rfl, .lent required other message, bound, rfl⟩
  | switched required other => exact ⟨_, rfl, .lent required other message, bound, rfl⟩
  | copied required other buffer => contradiction
  | lent required other data => contradiction

end Session

/-- Sessions that are to sign a message all answer alike, and there are such sessions. -/
theorem PrivateKey.answers_iff (key : PrivateKey F) (message : Bytes)
    (outcome : Except Failure Signature) :
    key.Answers message outcome ↔ outcome = key.signMessage message := by
  constructor
  · intro answers
    cases answers with
    | collected awaits =>
        obtain ⟨coherent, rfl⟩ := awaits.spec
        rw [coherent.sign_eq awaits.bound]
    | whole awaits unfed =>
        obtain ⟨after, taken, coherent, bound, rfl⟩ := awaits.updateOneShot unfed message
        rw [Session.signOneShot, taken]
        dsimp only
        rw [coherent.sign_eq bound]
  · rintro rfl
    obtain ⟨session, awaits⟩ := Session.exists_awaits (.signing key) message
    obtain ⟨coherent, rfl⟩ := awaits.spec
    have answers : key.Answers session.message _ := .collected awaits
    rwa [coherent.sign_eq awaits.bound] at answers

theorem PublicKey.answers_iff (key : PublicKey F) (message signature : Bytes)
    (outcome : Except Failure Bool) :
    key.Answers message signature outcome ↔ outcome = key.verifyMessage message signature := by
  constructor
  · intro answers
    cases answers with
    | collected awaits =>
        obtain ⟨coherent, rfl⟩ := awaits.spec
        rw [coherent.verify_eq awaits.bound]
    | whole awaits unfed =>
        obtain ⟨after, taken, coherent, bound, rfl⟩ := awaits.updateOneShot unfed message
        rw [Session.verifyOneShot, taken]
        dsimp only
        rw [coherent.verify_eq bound]
  · rintro rfl
    obtain ⟨session, awaits⟩ := Session.exists_awaits (.verifying key) message
    obtain ⟨coherent, rfl⟩ := awaits.spec
    have answers : key.Answers session.message signature _ := .collected awaits
    rwa [coherent.verify_eq awaits.bound] at answers

end EdwardsSignature
