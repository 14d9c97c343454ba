import Mathlib
import EdwardsSignature.Proofs.Session.Refinement

/-! What single calls can do to a session.

A call is either refused, and the session stays as it is, or it takes one of a few effects, which
its guards decide. What holds of every call is proved from these cases, and what holds of runs by
induction on the calls. -/

set_option autoImplicit false

namespace EdwardsSignature

variable {F : Type} [BaseField F]

/-- The rejections that leave the session as it is. -/
def Call.refuses {K : Type} (call : Call K) (cause : Rejection) : Bool :=
  match call with
  | .bind _ => false
  | .setOneShot => cause = .oneShotAfterUpdate
  | .reset => false
  | .update _ => cause = .notInitialized || cause = .oneShotReentry
  | .updateOneShot _ => refusesFeed (.error (.rejected cause))
  | .updateByte _ => cause = .notInitialized || cause = .oneShotByteUpdate
  | .sign => refusesKey (.error (.rejected cause))
  | .signOneShot _ => refusesFeed (.error (.rejected cause))
  | .verify _ => refusesKey (.error (.rejected cause))
  | .verifyOneShot _ _ => refusesFeed (.error (.rejected cause))

namespace Session

def copy (session : Session F) (data : Bytes) : Session F :=
  { session with buffer := session.buffer ++ data, fed := session.fed || session.oneShot }

def lend (session : Session F) (data : Bytes) : Session F :=
  { session with oneShot := true, fed := true, borrowed := some data }

/-- What a call can lead to, with what its guards have seen. -/
inductive Reacts (session : Session F) : Call (Key F) → Outcome F Answer → Prop where
  | refused {call : Call (Key F)} {cause : Rejection} (refuses : call.refuses cause = true) :
      Reacts session call (session.reject cause)
  | bound {key : Key F} (fits : ∀ required, session.required = some required →
      key.parameters.hash.algorithm = required) :
      Reacts session (.bind key) (.ok .done, session.bound key)
  | unfit {key : Key F} {required : HashAlgorithm} (demanded : session.required = some required)
      (differs : required ≠ key.parameters.hash.algorithm) :
      Reacts session (.bind key)
        (session.reset.reject (.digestMismatch required key.parameters.hash.algorithm))
  | switched (unfed : session.fed = false) (empty : session.buffer = []) :
      Reacts session .setOneShot (.ok .done, { session with oneShot := true })
  | reset : Reacts session .reset (.ok .done, session.reset)
  | copied {data : Bytes} (room : (session.oneShot && session.fed) = false) :
      Reacts session (.update data) (.ok .done, session.copy data)
  | lent {data : Bytes} (unfed : session.fed = false) :
      Reacts session (.updateOneShot data) (.ok .done, session.lend data)
  | appended {byte : UInt8} (pieces : session.oneShot = false) :
      Reacts session (.updateByte byte)
        (.ok .done, { session with buffer := session.buffer ++ [byte] })
  | signed {key : PrivateKey F} (bound : session.key = some (.signing key)) :
      Reacts session .sign (.signed <$> key.signMessage session.message, session.reset)
  | verified {key : PublicKey F} {signature : Bytes}
      (bound : session.key = some (.verifying key)) :
      Reacts session (.verify signature)
        (.verdict <$> key.verifyMessage session.message signature, session.reset)
  | signedWhole {key : PrivateKey F} {data : Bytes} (unfed : session.fed = false)
      (bound : session.key = some (.signing key)) :
      Reacts session (.signOneShot data) (.signed <$> key.signMessage data, session.reset)
  | verifiedWhole {key : PublicKey F} {data signature : Bytes} (unfed : session.fed = false)
      (bound : session.key = some (.verifying key)) :
      Reacts session (.verifyOneShot data signature)
        (.verdict <$> key.verifyMessage data signature, session.reset)
  | lentToVerifier {key : PublicKey F} {data : Bytes} (unfed : session.fed = false)
      (bound : session.key = some (.verifying key)) :
      Reacts session (.signOneShot data)
        ((session.lend data).reject (.wrongMode .signing .verifying))
  | lentToSigner {key : PrivateKey F} {data signature : Bytes} (unfed : session.fed = false)
      (bound : session.key = some (.signing key)) :
      Reacts session (.verifyOneShot data signature)
        ((session.lend data).reject (.wrongMode .verifying .signing))

section Single

variable {session : Session F}

theorem checkDigest_cases (session : Session F) (declared : HashAlgorithm) :
    (session.checkDigest declared = .ok () ∧
      ∀ required, session.required = some required → declared = required) ∨
    ∃ required, session.required = some required ∧ required ≠ declared ∧
      session.checkDigest declared = .error (.digestMismatch required declared) := by
  unfold checkDigest
  cases session.required with
  | none => exact .inl ⟨rfl, nofun⟩
  | some required =>
      by_cases same : required = declared
      · refine .inl ⟨if_pos same, ?_⟩
        rintro other ⟨⟩
        exact same.symm
      · exact .inr ⟨required, rfl, same, if_neg same⟩

theorem checkFeed_cases (session : Session F) :
    (session.key.isSome = true ∧ (session.oneShot && session.fed) = false ∧
      session.checkFeed = .ok ()) ∨
    session.checkFeed = .error .notInitialized ∨ session.checkFeed = .error .oneShotReentry := by
  unfold checkFeed
  cases session.key with
  | none => exact .inr (.inl rfl)
  | some key =>
      cases room : session.oneShot && session.fed with
      | true => exact .inr (.inr rfl)
      | false => exact .inl ⟨rfl, rfl, rfl⟩

theorem setOneShot_cases (session : Session F) :
    session.setOneShot = session.reject .oneShotAfterUpdate ∨
    session.fed = false ∧ session.buffer = [] ∧
      session.setOneShot = (.ok (), { session with oneShot := true }) := by
  unfold setOneShot
  cases session.fed with
  | true => exact .inl rfl
  | false =>
      cases session.buffer with
      | nil => exact .inr ⟨rfl, rfl, rfl⟩
      | cons byte rest => exact .inl rfl

theorem updateOneShot_cases (session : Session F) (data : Bytes) :
    (∃ cause, refusesFeed (.error (.rejected cause)) = true ∧
      session.updateOneShot data = session.reject cause) ∨
    session.key.isSome = true ∧ session.fed = false ∧
      session.updateOneShot data = (.ok (), session.lend data) := by
  unfold updateOneShot
  obtain ⟨bound, room, passes⟩ | refused | refused := session.checkFeed_cases
  · rw [passes]
    dsimp only
    cases oneShot : session.oneShot with
    | true =>
        rw [oneShot, Bool.true_and] at room
        exact .inr ⟨bound, room, by simp [lend, oneShot]⟩
    | false =>
        obtain late | ⟨unfed, _, switched⟩ := session.setOneShot_cases
        · exact .inl ⟨.oneShotAfterUpdate, rfl, by simp [late, reject]⟩
        · exact .inr ⟨bound, unfed, by simp [switched, lend]⟩
  · exact .inl ⟨.notInitialized, rfl, by rw [refused]⟩
  · exact .inl ⟨.oneShotReentry, rfl, by rw [refused]⟩

theorem Coherent.sign_eq (coherent : session.Coherent) {key : PrivateKey F}
    (bound : session.key = some (.signing key)) :
    session.sign = (key.signMessage session.message, session.reset) := by
  have digest := coherent.digest_eq
  rw [bound, Option.map_some] at digest
  simp only [Session.sign, bound, digest, signWith_armed]

theorem Coherent.verify_eq (coherent : session.Coherent) {key : PublicKey F}
    (bound : session.key = some (.verifying key)) (signature : Bytes) :
    session.verify signature = (key.verifyMessage session.message signature, session.reset) := by
  have digest := coherent.digest_eq
  rw [bound, Option.map_some] at digest
  simp only [Session.verify, bound, digest, verifyWith_armed, PublicKey.verifyMessage]
  split <;> rfl

theorem bind_reacts (session : Session F) (key : Key F) (coherent : session.Coherent) :
    session.Reacts (.bind key) (session.perform (.bind key)) := by
  rw [perform, bind_eq]
  obtain ⟨passes, fits⟩ | ⟨required, demanded, differs, refused⟩ :=
    session.checkDigest_cases key.parameters.hash.algorithm
  · rw [passes]
    exact .bound fits
  · rw [refused, ← coherent.reset_eq]
    exact .unfit demanded differs

theorem setOneShot_reacts (session : Session F) :
    session.Reacts .setOneShot (session.perform .setOneShot) := by
  rw [perform]
  obtain late | ⟨unfed, empty, switched⟩ := session.setOneShot_cases
  · rw [late]
    exact .refused rfl
  · rw [switched]
    exact .switched unfed empty

theorem update_reacts (session : Session F) (data : Bytes) :
    session.Reacts (.update data) (session.perform (.update data)) := by
  rw [perform, update]
  obtain ⟨_, room, passes⟩ | refused | refused := session.checkFeed_cases
  · rw [passes]
    exact .copied room
  · rw [refused]
    exact .refused rfl
  · rw [refused]
    exact .refused rfl

theorem updateOneShot_reacts (session : Session F) (data : Bytes) :
    session.Reacts (.updateOneShot data) (session.perform (.updateOneShot data)) := by
  rw [perform]
  obtain ⟨cause, refuses, refused⟩ | ⟨_, unfed, taken⟩ := session.updateOneShot_cases data
  · rw [refused]
    exact .refused refuses
  · rw [taken]
    exact .lent unfed

theorem updateByte_reacts (session : Session F) (byte : UInt8) :
    session.Reacts (.updateByte byte) (session.perform (.updateByte byte)) := by
  rw [perform, updateByte]
  split
  · exact .refused rfl
  · split
    · exact .refused rfl
    · rename_i pieces
      exact .appended (Bool.eq_false_iff.mpr pieces)

theorem Coherent.sign_reacts (coherent : session.Coherent) :
    session.Reacts .sign (session.perform .sign) := by
  rw [Session.perform]
  cases bound : session.key with
  | none =>
      simp only [Session.sign, bound]
      exact .refused rfl
  | some key =>
      cases key with
      | verifying key =>
          simp only [Session.sign, bound]
          exact .refused rfl
      | signing key =>
          rw [coherent.sign_eq bound]
          exact .signed bound

theorem Coherent.verify_reacts (coherent : session.Coherent) (signature : Bytes) :
    session.Reacts (.verify signature) (session.perform (.verify signature)) := by
  rw [Session.perform]
  cases bound : session.key with
  | none =>
      simp only [Session.verify, bound]
      exact .refused rfl
  | some key =>
      cases key with
      | signing key =>
          simp only [Session.verify, bound]
          exact .refused rfl
      | verifying key =>
          rw [coherent.verify_eq bound]
          exact .verified bound

theorem Coherent.lend (coherent : session.Coherent) (data : Bytes)
    (taken : session.updateOneShot data = (.ok (), session.lend data)) :
    (session.lend data).Coherent := by
  have kept := (coherent.updateOneShot data).coherent
  rwa [taken] at kept

theorem Coherent.signOneShot_reacts (coherent : session.Coherent) (data : Bytes) :
    session.Reacts (.signOneShot data) (session.perform (.signOneShot data)) := by
  rw [Session.perform, Session.signOneShot]
  obtain ⟨cause, refuses, refused⟩ | ⟨present, unfed, taken⟩ := session.updateOneShot_cases data
  · rw [refused]
    exact .refused refuses
  · have lent := coherent.lend data taken
    obtain ⟨key, bound⟩ := Option.isSome_iff_exists.mp present
    rw [taken]
    dsimp only
    cases key with
    | verifying key =>
        have other : (session.lend data).key = some (.verifying key) := bound
        simp only [Session.sign, other]
        exact .lentToVerifier unfed bound
    | signing key =>
        rw [lent.sign_eq bound]
        exact .signedWhole unfed bound

theorem Coherent.verifyOneShot_reacts (coherent : session.Coherent) (data signature : Bytes) :
    session.Reacts (.verifyOneShot data signature)
      (session.perform (.verifyOneShot data signature)) := by
  rw [Session.perform, Session.verifyOneShot]
  obtain ⟨cause, refuses, refused⟩ | ⟨present, unfed, taken⟩ := session.updateOneShot_cases data
  · rw [refused]
    exact .refused refuses
  · have lent := coherent.lend data taken
    obtain ⟨key, bound⟩ := Option.isSome_iff_exists.mp present
    rw [taken]
    dsimp only
    cases key with
    | signing key =>
        have other : (session.lend data).key = some (.signing key) := bound
        simp only [Session.verify, other]
        exact .lentToSigner unfed bound
    | verifying key =>
        rw [lent.verify_eq bound]
        exact .verifiedWhole unfed bound

theorem Coherent.reacts (coherent : session.Coherent) (call : Call (Key F)) :
    session.Reacts call (session.perform call) := by
  cases call with
  | bind key => exact session.bind_reacts key coherent
  | setOneShot => exact session.setOneShot_reacts
  | reset => exact .reset
  | update data => exact session.update_reacts data
  | updateOneShot data => exact session.updateOneShot_reacts data
  | updateByte byte => exact session.updateByte_reacts byte
  | sign => exact coherent.sign_reacts
  | signOneShot data => exact coherent.signOneShot_reacts data
  | verify signature => exact coherent.verify_reacts signature
  | verifyOneShot data signature => exact coherent.verifyOneShot_reacts data signature

end Single

section Key

variable {session : Session F} {call : Call (Key F)} {outcome : Outcome F Answer}

theorem reset_required (session : Session F) : session.reset.required = session.required := by
  unfold reset rearm
  split <;> rfl

theorem reset_key (session : Session F) : session.reset.key = session.key := by
  unfold reset rearm
  split <;> rfl

theorem Reacts.required_eq (reacts : session.Reacts call outcome) :
    outcome.2.required = session.required := by
  cases reacts with
  | unfit | reset | signed | verified | signedWhole | verifiedWhole => exact session.reset_required
  | _ => rfl

/-- Only binding replaces a key, by one that the session may hold. -/
theorem Reacts.key_cases (reacts : session.Reacts call outcome) :
    outcome.2.key = session.key ∨
    ∃ key, call = .bind key ∧ outcome.2.key = some key ∧
      ∀ required, session.required = some required → key.parameters.hash.algorithm = required := by
  cases reacts with
  | bound fits => exact .inr ⟨_, rfl, rfl, fits⟩
  | unfit | reset | signed | verified | signedWhole | verifiedWhole => exact .inl session.reset_key
  | _ => exact .inl rfl

end Key

section Runs

variable {session : Session F}

theorem run_append (session : Session F) (before after : List (Call (Key F))) :
    session.run (before ++ after) =
      ((session.run before).1 ++ ((session.run before).2.run after).1,
        ((session.run before).2.run after).2) := by
  induction before generalizing session with
  | nil => rfl
  | cons call rest ih => simp only [List.cons_append, run, ih]

theorem Coherent.required_run (coherent : session.Coherent) (calls : List (Call (Key F))) :
    (session.run calls).2.required = session.required := by
  induction calls generalizing session with
  | nil => rfl
  | cons call rest ih =>
      have later := ih (coherent.perform call).coherent
      rw [(coherent.reacts call).required_eq] at later
      exact later

theorem Coherent.key_run (coherent : session.Coherent) (property : Key F → Prop)
    (calls : List (Call (Key F))) (held : ∀ key, session.key = some key → property key)
    (given : ∀ key, .bind key ∈ calls → (∀ required, session.required = some required →
      key.parameters.hash.algorithm = required) → property key) :
    ∀ key, (session.run calls).2.key = some key → property key := by
  induction calls generalizing session with
  | nil => exact held
  | cons call rest ih =>
      have reacts := coherent.reacts call
      have required_eq := reacts.required_eq
      apply ih (coherent.perform call).coherent
      · intro key found
        obtain kept | ⟨other, rfl, replaced, fits⟩ := reacts.key_cases
        · exact held key (kept.symm.trans found)
        · obtain rfl := Option.some.inj (replaced.symm.trans found)
          exact given other List.mem_cons_self fits
      · intro key listed fits
        rw [required_eq] at fits
        exact given key (List.mem_cons_of_mem call listed) fits

theorem coherent_run_start (required : Option HashAlgorithm) (calls : List (Call (Key F))) :
    ((start required).run calls).2.Coherent :=
  ((coherent_start required).run calls).2

theorem required_run_start (required : Option HashAlgorithm) (calls : List (Call (Key F))) :
    ((start required).run calls).2.required = required :=
  (coherent_start required).required_run calls

/-- What holds of all keys that a session is given and may hold, holds of the one it holds. -/
theorem key_run_start (required : Option HashAlgorithm) (property : Key F → Prop)
    (calls : List (Call (Key F)))
    (given : ∀ key, .bind key ∈ calls →
      (∀ algorithm, required = some algorithm → key.parameters.hash.algorithm = algorithm) →
      property key) :
    ∀ key, ((start required).run calls).2.key = some key → property key := by
  apply (coherent_start required).key_run property calls
  · intro key found
    cases found
  · exact given

end Runs

end Session

end EdwardsSignature
