import Mathlib
import EdwardsSignature.Proofs.Session.Reaction

/-! What holds of every session between calls.

The message of a session ends with a call that binds, resets, signs or verifies. Until then
one-shot mode lets a single feed through, since that feed marks the session and nothing but the
end of the message takes the mark away. -/

set_option autoImplicit false

namespace EdwardsSignature

variable {F : Type} [BaseField F]

/-- Whether a call ends the message, told by its answer. Signing and verifying do, unless they
refuse the key or what they are handed first. -/
def Call.closes {K : Type} (call : Call K) (answer : Except Failure Answer) : Bool :=
  match call with
  | .bind _ | .reset => true
  | .sign | .verify _ => !refusesKey answer
  | .signOneShot _ | .verifyOneShot _ _ => !refusesFeed answer && !refusesKey answer
  | .setOneShot | .update _ | .updateOneShot _ | .updateByte _ => false

/-- Whether a call hands over data in one-shot mode, which it may switch to by itself. -/
def Call.feedsOneShot {K : Type} (oneShot : Bool) (call : Call K)
    (answer : Except Failure Answer) : Bool :=
  match call with
  | .update _ | .updateByte _ => oneShot && answer.isOk
  | .updateOneShot _ => answer.isOk
  | .signOneShot _ | .verifyOneShot _ _ => !refusesFeed answer
  | .bind _ | .setOneShot | .reset | .sign | .verify _ => false

theorem Call.not_closes_of_refuses {K : Type} {call : Call K} {cause : Rejection}
    (refuses : call.refuses cause = true) : call.closes (.error (.rejected cause)) = false := by
  cases call <;> simp_all [Call.refuses, Call.closes]

theorem Call.not_feeds_of_refuses {K : Type} {call : Call K} {cause : Rejection}
    (refuses : call.refuses cause = true) (oneShot : Bool) :
    call.feedsOneShot oneShot (.error (.rejected cause)) = false := by
  cases call <;> simp_all [Call.refuses, Call.feedsOneShot, Except.isOk, Except.toBool]

namespace Session

/-- What the fields of a session have to do with each other. -/
structure Consistent (session : Session F) : Prop where
  digest_isSome : session.digest.isSome = session.key.isSome
  digest_function : ∀ digest key, session.digest = some digest → session.key = some key →
    digest.function = key.parameters.hash
  fits : ∀ required key, session.required = some required → session.key = some key →
    key.parameters.hash.algorithm = required
  oneShot_of_fed : session.fed = true → session.oneShot = true
  empty_of_unfed : session.oneShot = true → session.fed = false → session.buffer = []
  of_borrowed : session.borrowed.isSome = true →
    session.oneShot = true ∧ session.fed = true ∧ session.buffer = []
  of_unbound : session.key = none →
    session.buffer = [] ∧ session.fed = false ∧ session.borrowed = none

/-- No message is under way, and one-shot mode is off. -/
structure IsCleared (session : Session F) : Prop where
  buffer_eq : session.buffer = []
  borrowed_eq : session.borrowed = none
  oneShot_eq : session.oneShot = false
  fed_eq : session.fed = false

/-- How often data is handed over in one-shot mode until a call ends the message. -/
def oneShotFeeds (session : Session F) : List (Call (Key F)) → Nat
  | [] => 0
  | call :: rest =>
      let (answer, after) := session.perform call
      let now := if call.feedsOneShot session.oneShot answer then 1 else 0
      if call.closes answer then now else now + after.oneShotFeeds rest

variable {session : Session F} {call : Call (Key F)} {outcome : Outcome F Answer}

theorem Consistent.buffer_or_borrowed (consistent : session.Consistent) :
    session.buffer = [] ∨ session.borrowed = none := by
  cases borrowed : session.borrowed with
  | none => exact .inr rfl
  | some data =>
      obtain ⟨_, _, empty⟩ := consistent.of_borrowed (by rw [borrowed]; rfl)
      exact .inl empty

theorem Coherent.consistent (coherent : session.Coherent)
    (fits : ∀ required key, session.required = some required → session.key = some key →
      key.parameters.hash.algorithm = required) : session.Consistent := by
  cases coherent with
  | idle required oneShot => constructor <;> simp_all
  | collecting required key buffer => constructor <;> simp_all [armed]
  | switched required key => constructor <;> simp_all [armed]
  | copied required key buffer => constructor <;> simp_all [armed]
  | lent required key data => constructor <;> simp_all [armed]

theorem key_of_mode_signing (signing : session.mode? = some .signing) :
    ∃ key, session.key = some (.signing key) := by
  unfold mode? at signing
  match bound : session.key with
  | none => simp [bound] at signing
  | some (.signing key) => exact ⟨key, rfl⟩
  | some (.verifying key) => simp [bound, Key.mode] at signing

theorem key_of_mode_verifying (verifying : session.mode? = some .verifying) :
    ∃ key, session.key = some (.verifying key) := by
  unfold mode? at verifying
  match bound : session.key with
  | none => simp [bound] at verifying
  | some (.signing key) => simp [bound, Key.mode] at verifying
  | some (.verifying key) => exact ⟨key, rfl⟩

theorem isCleared_reset (session : Session F) : session.reset.IsCleared := by
  unfold reset rearm
  split <;> exact ⟨rfl, rfl, rfl, rfl⟩

section Step

theorem Reacts.isCleared (reacts : session.Reacts call outcome)
    (closes : call.closes outcome.1 = true) : outcome.2.IsCleared := by
  cases reacts with
  | refused refuses =>
      have remains := Call.not_closes_of_refuses refuses
      exact absurd (remains.symm.trans closes) Bool.false_ne_true
  | bound => exact ⟨rfl, rfl, rfl, rfl⟩
  | unfit | reset | signed | verified | signedWhole | verifiedWhole =>
      exact session.isCleared_reset
  | switched | copied | lent | appended | lentToVerifier | lentToSigner => contradiction

/-- In one-shot mode nothing is handed over once something was. -/
theorem Reacts.unfed_of_feeds (reacts : session.Reacts call outcome)
    (feeds : call.feedsOneShot session.oneShot outcome.1 = true) : session.fed = false := by
  cases reacts with
  | refused refuses =>
      have none := Call.not_feeds_of_refuses refuses session.oneShot
      exact absurd (none.symm.trans feeds) Bool.false_ne_true
  | copied room =>
      obtain ⟨oneShot, _⟩ := Bool.and_eq_true_iff.mp feeds
      rwa [oneShot, Bool.true_and] at room
  | appended pieces =>
      obtain ⟨oneShot, _⟩ := Bool.and_eq_true_iff.mp feeds
      rw [pieces] at oneShot
      contradiction
  | lent unfed | lentToVerifier unfed | lentToSigner unfed => exact unfed
  | signedWhole unfed | verifiedWhole unfed => exact unfed
  | _ => contradiction

/-- Until the message ends, a session is marked as fed when it was, or when it is fed now. -/
theorem Reacts.fed_eq (reacts : session.Reacts call outcome)
    (remains : call.closes outcome.1 = false) :
    outcome.2.fed = (session.fed || call.feedsOneShot session.oneShot outcome.1) := by
  cases reacts with
  | refused refuses =>
      have none := Call.not_feeds_of_refuses refuses session.oneShot
      rw [reject, none, Bool.or_false]
  | bound | unfit | reset => contradiction
  | switched => exact (Bool.or_false _).symm
  | copied => simp [Call.feedsOneShot, copy, Except.isOk, Except.toBool]
  | appended pieces => simp [Call.feedsOneShot, pieces]
  | lent | lentToVerifier | lentToSigner => exact (Bool.or_true _).symm
  | signed | signedWhole =>
      have late {key : PrivateKey F} {message : Bytes} := failsLate_signMessage key message
      simp [Call.closes, late.refusesKey, late.refusesFeed] at remains
  | verified | verifiedWhole =>
      have late {key : PublicKey F} {message signature : Bytes} :=
        failsLate_verifyMessage key message signature
      simp [Call.closes, late.refusesKey, late.refusesFeed] at remains

end Step

section Runs

/-- The mark of a fed session is what bounds the feeds that are still to come. -/
theorem Coherent.oneShotFeeds_le (coherent : session.Coherent) (calls : List (Call (Key F))) :
    session.oneShotFeeds calls ≤ if session.fed then 0 else 1 := by
  induction calls generalizing session with
  | nil => exact Nat.zero_le _
  | cons call rest ih =>
      have reacts := coherent.reacts call
      have later := ih (coherent.perform call).coherent
      rw [oneShotFeeds]
      dsimp only
      cases closes : call.closes (session.perform call).1 with
      | true =>
          cases feeds : call.feedsOneShot session.oneShot (session.perform call).1 with
          | true => simp [reacts.unfed_of_feeds feeds]
          | false => simp
      | false =>
          rw [reacts.fed_eq closes] at later
          cases feeds : call.feedsOneShot session.oneShot (session.perform call).1 with
          | true =>
              rw [feeds, Bool.or_true] at later
              simpa [reacts.unfed_of_feeds feeds] using later
          | false =>
              rw [feeds, Bool.or_false] at later
              simpa using later

example (key : Key F) :
    ((start none).run [.bind key]).2.oneShotFeeds [.updateOneShot [114], .update [115]] = 1 := rfl

/-- What holds of a session after every run of calls: its fields fit together, it carries bytes in
one place at most, it lets a single feed through in one-shot mode until the message ends, and
whatever ends the message leaves nothing of it behind. -/
theorem run_consistent (required : Option HashAlgorithm) (calls : List (Call (Key F))) :
    let session := ((start required : Session F).run calls).2
    session.Consistent ∧ session.required = required ∧
    (session.buffer = [] ∨ session.borrowed = none) ∧
    (∀ more, session.oneShotFeeds more ≤ 1) ∧
    (session.mode? = some .signing → session.sign.2.IsCleared) ∧
    (session.mode? = some .verifying → ∀ signature, (session.verify signature).2.IsCleared) ∧
    ∀ call, call.closes (session.perform call).1 = true →
      (session.perform call).2.IsCleared := by
  intro session
  have coherent : session.Coherent := coherent_run_start required calls
  have required_eq : session.required = required := required_run_start required calls
  have fits := key_run_start required
    (fun key => ∀ algorithm, required = some algorithm →
      key.parameters.hash.algorithm = algorithm)
    calls fun key _ fits => fits
  have consistent : session.Consistent := by
    apply coherent.consistent
    intro algorithm key demanded bound
    exact fits key bound algorithm (required_eq.symm.trans demanded)
  refine ⟨consistent, required_eq, consistent.buffer_or_borrowed, ?_, ?_, ?_, ?_⟩
  · intro more
    refine (coherent.oneShotFeeds_le more).trans ?_
    split <;> decide
  · intro signing
    obtain ⟨key, bound⟩ := key_of_mode_signing signing
    rw [coherent.sign_eq bound]
    exact session.isCleared_reset
  · intro verifying signature
    obtain ⟨key, bound⟩ := key_of_mode_verifying verifying
    rw [coherent.verify_eq bound]
    exact session.isCleared_reset
  · intro call closes
    exact (coherent.reacts call).isCleared closes

end Runs

end Session

end EdwardsSignature
