import Mathlib
import EdwardsSignature.Proofs.Session.Isolation

/-! Calls that hand over a whole message and sign or verify it at once, where they fail.

Such a call is two calls one after the other. When the first is refused the session stays as it
is, and a signature of the wrong length resets it. But the second call also refuses a session that
is bound for the other activity, and what the first has lent stays there: it is signed or verified
next, and nothing else is let in before. -/

set_option autoImplicit false

namespace EdwardsSignature

variable {F : Type} [BaseField F]

/-- The message of a call that hands it over and closes it at once. -/
def Call.whole? {K : Type} : Call K → Option Bytes
  | .signOneShot data | .verifyOneShot data _ => some data
  | _ => none

namespace Failure

def isWrongMode : Failure → Bool
  | .rejected (.wrongMode _ _) => true
  | _ => false

def isSignatureLength : Failure → Bool
  | .rejected (.invalidSignatureLength _ _) => true
  | _ => false

theorem not_isWrongMode_of_refusesFeed {cause : Failure}
    (refuses : refusesFeed (.error cause) = true) : cause.isWrongMode = false := by
  cases cause with
  | violated cause => rfl
  | rejected cause => cases cause <;> first | rfl | contradiction

theorem not_isWrongMode_of_isSignatureLength {cause : Failure}
    (length : cause.isSignatureLength = true) : cause.isWrongMode = false := by
  cases cause with
  | violated cause => rfl
  | rejected cause => cases cause <;> first | rfl | contradiction

end Failure

namespace Session

/-- The data is what is signed or verified next, and no feed is let in before. -/
structure Retains (session : Session F) (data : Bytes) : Prop where
  message_eq : session.message = data
  update_eq : ∀ more, session.update more = session.reject .oneShotReentry
  updateOneShot_eq : ∀ more, session.updateOneShot more = session.reject .oneShotReentry
  updateByte_eq : ∀ byte, session.updateByte byte = session.reject .oneShotByteUpdate
  sign_eq : ∀ key, session.key = some (.signing key) →
    session.sign = (key.signMessage data, session.reset)
  verify_eq : ∀ key signature, session.key = some (.verifying key) →
    session.verify signature = (key.verifyMessage data signature, session.reset)

variable {session : Session F} {call : Call (Key F)} {outcome : Outcome F Answer} {data : Bytes}
  {cause : Failure}

theorem Coherent.retains (coherent : session.Coherent) (lent : session.borrowed = some data) :
    session.Retains data := by
  cases coherent with
  | idle | collecting | switched | copied => contradiction
  | lent required key other =>
      obtain rfl := Option.some.inj lent
      have coherent := Coherent.lent required key other
      exact ⟨rfl, fun _ => rfl, fun _ => rfl, fun _ => rfl, fun _ bound => coherent.sign_eq bound,
        fun _ signature bound => coherent.verify_eq bound signature⟩

/-- A session that has lent data is not as it was before, nor as a reset leaves it. -/
theorem lend_ne (unfed : session.fed = false) (data : Bytes) :
    session.lend data ≠ session ∧ session.lend data ≠ session.reset := by
  constructor
  · intro same
    have fed := congrArg Session.fed same
    rw [unfed] at fed
    contradiction
  · intro same
    have fed := congrArg Session.fed same
    rw [session.isCleared_reset.fed_eq] at fed
    contradiction

theorem Reacts.of_whole_error (reacts : session.Reacts call outcome)
    (whole : call.whole? = some data) (failed : outcome.1 = .error cause)
    (made : ∀ key, session.key = some (.signing key) → key.IsMade) :
    (refusesFeed (.error cause) = true ∧ outcome.2 = session) ∨
    (cause.isSignatureLength = true ∧ outcome.2 = session.reset) ∨
    (cause.isWrongMode = true ∧ session.fed = false ∧ outcome.2 = session.lend data) := by
  cases reacts with
  | refused refuses =>
      obtain rfl := Except.error.inj failed
      cases call with
      | signOneShot other | verifyOneShot other signature => exact .inl ⟨refuses, rfl⟩
      | _ => contradiction
  | @signedWhole key other unfed bound =>
      obtain ⟨signature, signed⟩ := (made key bound).signMessage_ok other
      rw [signed] at failed
      contradiction
  | verifiedWhole =>
      obtain rfl := PublicKey.cause_of_verifyMessage (eq_error_of_map failed)
      exact .inr (.inl ⟨rfl, rfl⟩)
  | lentToVerifier unfed bound | lentToSigner unfed bound =>
      obtain rfl := Except.error.inj failed
      obtain rfl := Option.some.inj whole
      exact .inr (.inr ⟨rfl, unfed, rfl⟩)
  | _ => contradiction

/-- A call that hands over a whole message fails in three ways. It is refused before anything is
done, or the signature has the wrong length and the session is reset; but when the session is
bound for the other activity, the message is left pending. So a failing call is undone exactly
when it is not for that reason that it fails. -/
theorem whole_failure (required : Option HashAlgorithm) {before : List (Call (Key F))}
    (made : ∀ key, .bind (.signing key) ∈ before → key.IsMade) {call : Call (Key F)}
    (whole : call.whole? = some data)
    (failed : (((start required).run before).2.perform call).1 = .error cause) :
    let session := ((start required).run before).2
    let next := (session.perform call).2
    ((refusesFeed (.error cause) = true ∧ next = session) ∨
      (cause.isSignatureLength = true ∧ next = session.reset ∧ next.IsCleared) ∨
      (cause.isWrongMode = true ∧ next = session.lend data ∧ next.Retains data)) ∧
    ((next = session ∨ next = session.reset) ↔ cause.isWrongMode = false) := by
  intro session next
  have coherent : session.Coherent := coherent_run_start required before
  have sound := key_run_start required (fun bound => ∀ key, bound = .signing key → key.IsMade)
    before fun bound listed _ key signing => made key (signing ▸ listed)
  have reacts := coherent.reacts call
  obtain ⟨refuses, kept⟩ | ⟨length, dropped⟩ | ⟨wrong, unfed, lent⟩ :=
    reacts.of_whole_error whole failed fun key bound => sound _ bound key rfl
  · have right := Failure.not_isWrongMode_of_refusesFeed refuses
    exact ⟨.inl ⟨refuses, kept⟩, iff_of_true (.inl kept) right⟩
  · have right := Failure.not_isWrongMode_of_isSignatureLength length
    have cleared : next.IsCleared := by
      rw [show next = session.reset from dropped]
      exact session.isCleared_reset
    exact ⟨.inr (.inl ⟨length, dropped, cleared⟩), iff_of_true (.inr dropped) right⟩
  · have pending : next.Retains data :=
      (coherent.perform call).coherent.retains (congrArg Session.borrowed lent)
    obtain ⟨ne_before, ne_reset⟩ := lend_ne unfed data
    refine ⟨.inr (.inr ⟨wrong, lent, pending⟩), iff_of_false ?_ (by rw [wrong]; decide)⟩
    rintro (same | same)
    · exact ne_before (lent.symm.trans same)
    · exact ne_reset (lent.symm.trans same)

/-- A seed of zeros: a signature of no length resets a session that verifies, but on one that
signs it does not come so far, and the message that was to be verified is signed next. -/
theorem whole_failure_zeros :
    ∃ (parameters : Parameters LimbElement) (key : PrivateKey LimbElement),
      Parameters.standardWith HashAlgorithm.sha512.function .limbs = .ok parameters ∧
      PrivateKey.ofSeed parameters (List.replicate 32 0) = .ok key ∧
      (let session := ((start none).run [.bind (.verifying key.publicKey)]).2;
        (session.perform (.verifyOneShot [114] [])).1 =
            .error (.rejected (.invalidSignatureLength 64 0)) ∧
          (session.perform (.verifyOneShot [114] [])).2 = session.reset) ∧
      let session := ((start none).run [.bind (.signing key)]).2;
      (session.perform (.verifyOneShot [114] [])).1 =
          .error (.rejected (.wrongMode .verifying .signing)) ∧
        (session.perform (.verifyOneShot [114] [])).2.Retains [114] := by
  obtain ⟨parameters, key, assembled, standard, lawful, made, expanded⟩ :=
    PrivateKey.exists_zeros LimbElement
  refine ⟨parameters, key, assembled, made, ?_, ?_⟩
  · intro session
    have sized : key.publicKey.parameters.signatureLength = 64 := by
      rw [expanded.public_names.parameters_eq, standard.signatureLength_eq]
    have failed :
        (((start none).run [.bind (.verifying key.publicKey)]).2.perform
          (.verifyOneShot [114] [])).1 = .error (.rejected (.invalidSignatureLength 64 0)) := by
      have taken : session.updateOneShot [114] = (.ok (), session.lend [114]) := rfl
      have coherent := (coherent_run_start none [.bind (.verifying key.publicKey)]).lend [114] taken
      have bound : (session.lend [114]).key = some (.verifying key.publicKey) := rfl
      rw [perform, verifyOneShot, taken]
      dsimp only
      rw [coherent.verify_eq bound, PublicKey.verifyMessage, sized, if_neg (by decide)]
      rfl
    obtain ⟨cases, _⟩ := whole_failure none (by simp) rfl failed
    obtain ⟨refuses, _⟩ | ⟨_, dropped, _⟩ | ⟨wrong, _⟩ := cases
    · exact absurd refuses (by decide)
    · exact ⟨failed, dropped⟩
    · exact absurd wrong (by decide)
  · intro session
    have listed : ∀ other, .bind (.signing other) ∈ [Call.bind (Key.signing key)] →
        other.IsMade := by
      intro other member
      simp only [List.mem_cons, Call.bind.injEq, Key.signing.injEq, List.not_mem_nil,
        or_false] at member
      rw [member]
      exact .ofSeed lawful made
    have failed :
        (((start none).run [.bind (.signing key)]).2.perform (.verifyOneShot [114] [])).1 =
          .error (.rejected (.wrongMode .verifying .signing)) := rfl
    obtain ⟨cases, _⟩ := whole_failure none listed rfl failed
    obtain ⟨refuses, _⟩ | ⟨length, _⟩ | ⟨_, _, pending⟩ := cases
    · exact absurd refuses (by decide)
    · exact absurd length (by decide)
    · exact ⟨failed, pending⟩

/-- Signing at once on a session that verifies fails, and yet the message stays: before, a byte
could have been fed, and now none can. -/
theorem failed_signOneShot_not_undone :
    ∃ (parameters : Parameters LimbElement) (key : PrivateKey LimbElement),
      Parameters.standardWith HashAlgorithm.sha512.function .limbs = .ok parameters ∧
      PrivateKey.ofSeed parameters (List.replicate 32 0) = .ok key ∧
      let session := ((start none).run [.bind (.verifying key.publicKey)]).2
      let next := (session.perform (.signOneShot [114])).2;
      (session.perform (.signOneShot [114])).1 =
          .error (.rejected (.wrongMode .signing .verifying)) ∧
        next ≠ session ∧ next ≠ session.reset ∧ next.message = [114] ∧
        (session.perform (.update [97])).1 = .ok .done ∧
        (next.perform (.update [97])).1 = .error (.rejected .oneShotReentry) := by
  obtain ⟨parameters, key, assembled, _, _, made, _⟩ := PrivateKey.exists_zeros LimbElement
  refine ⟨parameters, key, assembled, made, ?_⟩
  intro session next
  have unfed : session.fed = false := rfl
  obtain ⟨ne_before, ne_reset⟩ := lend_ne unfed [114]
  exact ⟨rfl, ne_before, ne_reset, rfl, rfl, rfl⟩

end Session

end EdwardsSignature
