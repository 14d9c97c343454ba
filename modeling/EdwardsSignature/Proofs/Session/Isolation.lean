import Mathlib
import EdwardsSignature.Proofs.Field.LimbElement
import EdwardsSignature.Proofs.Session.Equation
import EdwardsSignature.Proofs.Session.Invariant

/-! Calls that fail do not disturb a session.

Most of them leave it as it is. A key that is refused, and a signature of the wrong length, drop
the message as a reset does, and nothing more. -/

set_option autoImplicit false

namespace EdwardsSignature

variable {F : Type} [BaseField F]

/-- The calls that are not put together from others. -/
def Call.isElementary {K : Type} : Call K → Bool
  | .signOneShot _ | .verifyOneShot _ _ => false
  | _ => true

/-- The failures that drop the message. -/
def Call.dropsMessage {K : Type} : Call K → Failure → Bool
  | .bind _, .rejected (.digestMismatch _ _) => true
  | .verify _, .rejected (.invalidSignatureLength _ _) => true
  | _, _ => false

theorem Call.keeps_of_refuses {K : Type} {call : Call K} {cause : Rejection}
    (refuses : call.refuses cause = true) : call.dropsMessage (.rejected cause) = false := by
  cases call <;> cases cause <;> first | rfl | contradiction

/-- The keys that constructors make, over parameters whose scalar arithmetic is lawful. -/
inductive PrivateKey.IsMade (key : PrivateKey F) : Prop where
  | ofSeed {parameters : Parameters F} (lawful : parameters.scalars.Lawful) {seed : Bytes}
      (made : ofSeed parameters seed = .ok key) : IsMade key
  | ofHash {parameters : Parameters F} (lawful : parameters.scalars.Lawful) {hash : Bytes}
      (made : ofHash parameters hash = .ok key) : IsMade key

section Lengths

theorem exists_ok_of_bind {ε α β : Type} {outcome : Except ε α} {next : α → Except ε β} {result : β}
    (done : outcome >>= next = .ok result) :
    ∃ value, outcome = .ok value ∧ next value = .ok result := by
  cases outcome with
  | error cause => contradiction
  | ok value => exact ⟨value, rfl, done⟩

theorem eq_error_of_map {ε α β : Type} {outcome : Except ε α} {change : α → β} {cause : ε}
    (failed : change <$> outcome = .error cause) : outcome = .error cause := by
  cases outcome with
  | error other => exact congrArg Except.error (Except.error.inj failed)
  | ok value => contradiction

variable {parameters : Parameters F}

theorem Parameters.signatureLength_eq_outputSize (parameters : Parameters F) :
    parameters.signatureLength = parameters.hash.algorithm.outputSize :=
  parameters.hash_size.symm

theorem HashAlgorithm.le_outputSize (algorithm : HashAlgorithm) : 32 ≤ algorithm.outputSize := by
  cases algorithm <;> decide

theorem PublicKey.ofPoint_parameters {point : Point F} {key : PublicKey F}
    (made : ofPoint parameters point = .ok key) : key.parameters = parameters := by
  obtain ⟨_, _, _, rfl⟩ := ofPoint_ok made
  rfl

theorem TabledPoint.multiply_ok (tabled : TabledPoint F) {scalar : Block 32}
    (narrow : scalar.toNat < 2 ^ 255) : ∃ product, tabled.multiply scalar = .ok product := by
  rw [multiply, Radix16.recode_of_lt narrow]
  exact ⟨_, rfl⟩

namespace PrivateKey

variable {key : PrivateKey F}

/-- What expansion makes of a hash, with whatever parameters it succeeds. -/
theorem expand_ok {seed : Option (Block 32)} {hash : Bytes}
    (made : expand parameters seed hash = .ok key) :
    ∃ block : Block 64, block.toList = hash ∧ key.seed = seed ∧ key.hash = clampLow block ∧
      key.parameters = parameters := by
  unfold expand at made
  split at made
  · contradiction
  · rename_i block accepted
    obtain ⟨point, _, made⟩ := exists_ok_of_bind made
    obtain ⟨publicKey, wrapped, made⟩ := exists_ok_of_bind made
    obtain rfl := Except.ok.inj made
    exact ⟨block, Block.toList_of_ofBytes? accepted, rfl, rfl,
      PublicKey.ofPoint_parameters wrapped⟩

/-- Every key comes from the expansion of a hash under its own parameters. -/
theorem IsMade.exists_expand (made : key.IsMade) :
    key.parameters.scalars.Lawful ∧
      ∃ (seed : Option (Block 32)) (hash : Bytes),
        hash.length = key.parameters.hash.algorithm.outputSize ∧
        expand key.parameters seed hash = .ok key := by
  cases made with
  | @ofSeed parameters lawful seed made =>
      unfold PrivateKey.ofSeed at made
      split at made
      · split at made
        · obtain ⟨_, _, _, _, rfl⟩ := expand_ok made
          exact ⟨lawful, _, _, key.parameters.hash.length_digest seed, made⟩
        · contradiction
      · contradiction
  | @ofHash parameters lawful hash made =>
      unfold PrivateKey.ofHash at made
      split at made
      · rename_i sized
        obtain ⟨_, _, _, _, rfl⟩ := expand_ok made
        exact ⟨lawful, _, _, sized.trans key.parameters.signatureLength_eq_outputSize, made⟩
      · contradiction

/-- Keys are made only where the hash is wide enough to sign. -/
theorem IsMade.outputSize_eq (made : key.IsMade) :
    key.parameters.hash.algorithm.outputSize = 64 := by
  obtain ⟨_, _, hash, sized, expanded⟩ := made.exists_expand
  obtain ⟨block, exact, _⟩ := expand_ok expanded
  rw [← sized, ← exact, Vector.length_toList]

theorem IsMade.signMessage_ok (made : key.IsMade) (message : Bytes) :
    ∃ signature, key.signMessage message = .ok signature := by
  have wide := made.outputSize_eq
  have lawful := made.exists_expand.1
  obtain ⟨nonceBlock, nonce_hashed, _⟩ :=
    Parameters.wideHash_spec wide (key.nonceKey.toList ++ message)
  obtain ⟨point, multiplied⟩ := key.parameters.base.multiply_ok
    (lawful.reduce_lt_two_pow nonceBlock)
  obtain ⟨challengeBlock, challenge_hashed, _⟩ := Parameters.wideHash_spec wide
    (point.encode.toList ++ key.publicKey.encoding.toList ++ message)
  unfold signMessage
  simp only [nonce_hashed]
  rw [rejection_liftM_ok_bind, multiplied, violation_liftM_ok_bind, challenge_hashed]
  exact ⟨_, rfl⟩

end PrivateKey

theorem PublicKey.cause_of_verifyMessage {key : PublicKey F} {message signature : Bytes}
    {cause : Failure} (failed : key.verifyMessage message signature = .error cause) :
    cause = .rejected
      (.invalidSignatureLength key.parameters.signatureLength signature.length) := by
  unfold verifyMessage at failed
  split at failed
  · rename_i sized
    rw [Parameters.signatureLength_eq_outputSize] at sized
    have long := key.parameters.hash.algorithm.le_outputSize
    unfold verdict at failed
    dsimp only at failed
    rw [if_neg (by omega)] at failed
    cases accepted : Block.ofBytes? 32 (signature.drop 32) with
    | none =>
        rw [accepted] at failed
        exact (Except.error.inj failed).symm
    | some response =>
        have length := congrArg List.length (Block.toList_of_ofBytes? accepted)
        rw [Vector.length_toList, List.length_drop] at length
        have wide : key.parameters.hash.algorithm.outputSize = 64 := by omega
        obtain ⟨block, hashed, _⟩ := Parameters.wideHash_spec wide
          (signature.take 32 ++ key.encoding.toList ++ message)
        rw [accepted, hashed] at failed
        dsimp only at failed
        split at failed <;> contradiction
  · exact (Except.error.inj failed).symm

end Lengths

namespace Session

section Step

variable {session : Session F} {call : Call (Key F)} {outcome : Outcome F Answer}
  {cause : Failure}

theorem Reacts.of_error (reacts : session.Reacts call outcome)
    (elementary : call.isElementary = true) (failed : outcome.1 = .error cause)
    (made : ∀ key, session.key = some (.signing key) → key.IsMade) :
    (call.dropsMessage cause = false ∧ outcome.2 = session) ∨
    (call.dropsMessage cause = true ∧ outcome.2 = session.reset) := by
  cases reacts with
  | refused refuses =>
      obtain rfl := Except.error.inj failed
      exact .inl ⟨Call.keeps_of_refuses refuses, rfl⟩
  | unfit =>
      obtain rfl := Except.error.inj failed
      exact .inr ⟨rfl, rfl⟩
  | bound | switched | reset | copied | lent | appended => contradiction
  | @signed key bound =>
      obtain ⟨signature, signed⟩ := (made key bound).signMessage_ok session.message
      rw [signed] at failed
      contradiction
  | @verified key signature bound =>
      match verdict : key.verifyMessage session.message signature with
      | .ok valid =>
          rw [verdict] at failed
          contradiction
      | .error cause =>
          rw [verdict] at failed
          obtain rfl := Except.error.inj failed
          obtain rfl := PublicKey.cause_of_verifyMessage verdict
          exact .inr ⟨rfl, rfl⟩
  | signedWhole | verifiedWhole | lentToVerifier | lentToSigner => contradiction

theorem Coherent.digest_reset (coherent : session.Coherent) :
    session.reset.digest = session.digest := by
  rw [coherent.reset.digest_eq, session.reset_key, coherent.digest_eq]

end Step

/-- A failing call that is not put together from others keeps the key and its digest armed. All
later calls answer as if it had not been made, or as if it had been a reset, when it is one of
those that drop the message. -/
theorem error_isolated (required : Option HashAlgorithm) {before : List (Call (Key F))}
    (made : ∀ key, .bind (.signing key) ∈ before → key.IsMade) {call : Call (Key F)}
    (elementary : call.isElementary = true) {cause : Failure}
    (failed : (((start required).run before).2.perform call).1 = .error cause) :
    let session := ((start required).run before).2
    let next := (session.perform call).2
    (next.required = session.required ∧ next.key = session.key ∧ next.digest = session.digest) ∧
    (call.dropsMessage cause = false → next = session) ∧
    (call.dropsMessage cause = true → next = session.reset ∧ next.IsCleared) ∧
    ∀ after, ∃ later,
      ((start required).run (before ++ call :: after)).1 =
        ((start required).run before).1 ++ .error cause :: later ∧
      (call.dropsMessage cause = false →
        ((start required).run (before ++ after)).1 = ((start required).run before).1 ++ later) ∧
      (call.dropsMessage cause = true →
        ((start required).run (before ++ .reset :: after)).1 =
          ((start required).run before).1 ++ .ok .done :: later) := by
  intro session next
  have coherent : session.Coherent := coherent_run_start required before
  have sound := key_run_start required (fun bound => ∀ key, bound = .signing key → key.IsMade)
    before fun bound listed _ key signing => made key (signing ▸ listed)
  have run_before (later : List (Call (Key F))) : ((start required).run (before ++ later)).1 =
      ((start required).run before).1 ++ (session.run later).1 := by
    rw [run_append]
  have run_failed (after : List (Call (Key F))) :
      (session.run (call :: after)).1 = .error cause :: (next.run after).1 := by
    rw [← failed]
    rfl
  obtain ⟨keeps, kept⟩ | ⟨drops, dropped⟩ := (coherent.reacts call).of_error elementary failed
    fun key bound => sound _ bound key rfl
  · have stays : next = session := kept
    rw [keeps, stays]
    refine ⟨⟨rfl, rfl, rfl⟩, fun _ => rfl, nofun, ?_⟩
    intro after
    refine ⟨(session.run after).1, ?_, fun _ => run_before after, nofun⟩
    rw [run_before, run_failed, stays]
  · have restarts : next = session.reset := dropped
    rw [drops, restarts]
    refine ⟨⟨session.reset_required, session.reset_key, coherent.digest_reset⟩, nofun,
      fun _ => ⟨rfl, session.isCleared_reset⟩, ?_⟩
    intro after
    refine ⟨(session.reset.run after).1, ?_, nofun, fun _ => ?_⟩
    · rw [run_before, run_failed, restarts]
    · rw [run_before]
      rfl

/-- A seed of zeros: a call for the other mode is skipped, and a signature of the wrong length
is as good as a reset. -/
theorem error_isolated_zeros :
    let idle : Session LimbElement := start none
    ∃ (parameters : Parameters LimbElement) (key : PrivateKey LimbElement),
      Parameters.standardWith HashAlgorithm.sha512.function .limbs = .ok parameters ∧
      PrivateKey.ofSeed parameters (List.replicate 32 0) = .ok key ∧
      (let before : List (Call (Key LimbElement)) := [.bind (.signing key), .update [114]]
        ∀ after : List (Call (Key LimbElement)), ∃ later : List (Except Failure Answer),
          (idle.run (before ++ .verify [] :: after)).1 =
            .ok .done :: .ok .done :: .error (.rejected (.wrongMode .verifying .signing)) :: later ∧
          (idle.run (before ++ after)).1 = .ok .done :: .ok .done :: later) ∧
      let before : List (Call (Key LimbElement)) :=
        [.bind (.verifying key.publicKey), .updateOneShot [114]]
      ∀ after : List (Call (Key LimbElement)), ∃ later : List (Except Failure Answer),
        (idle.run (before ++ .verify [] :: after)).1 =
          .ok .done :: .ok .done :: .error (.rejected (.invalidSignatureLength 64 0)) :: later ∧
        (idle.run (before ++ .reset :: after)).1 =
          .ok .done :: .ok .done :: .ok .done :: later := by
  intro idle
  obtain ⟨parameters, key, assembled, standard, lawful, made, expanded⟩ :=
    PrivateKey.exists_zeros LimbElement
  refine ⟨parameters, key, assembled, made, ?_, ?_⟩
  · intro before after
    have listed : ∀ other, .bind (.signing other) ∈ before → other.IsMade := by
      intro other member
      simp only [before, List.mem_cons, Call.bind.injEq, Key.signing.injEq, reduceCtorEq,
        List.not_mem_nil, or_false] at member
      rw [member]
      exact .ofSeed lawful made
    have failed : (((start none).run before).2.perform (.verify [])).1 =
        .error (.rejected (.wrongMode .verifying .signing)) := rfl
    obtain ⟨_, _, _, isolated⟩ := error_isolated none listed rfl failed
    obtain ⟨later, answers, skipped, _⟩ := isolated after
    exact ⟨later, answers, skipped rfl⟩
  · intro before after
    have listed : ∀ other, .bind (.signing other) ∈ before → other.IsMade := by
      intro other member
      simp [before] at member
    have sized : key.publicKey.parameters.signatureLength = 64 := by
      rw [expanded.public_names.parameters_eq, standard.signatureLength_eq]
    have failed : (((start none).run before).2.perform (.verify [])).1 =
        .error (.rejected (.invalidSignatureLength 64 0)) := by
      have coherent := coherent_run_start none before
      have bound : ((start none).run before).2.key = some (.verifying key.publicKey) := rfl
      rw [perform, coherent.verify_eq bound, PublicKey.verifyMessage, sized, if_neg (by decide)]
      rfl
    obtain ⟨_, _, _, isolated⟩ := error_isolated none listed rfl failed
    obtain ⟨later, answers, _, reset⟩ := isolated after
    exact ⟨later, answers, reset rfl⟩

end Session

end EdwardsSignature
