import Mathlib
import EdwardsSignature.Session.Call
import EdwardsSignature.Proofs.Representation.Key

/-! Sessions under a change of the representation.

Only the key of a session holds field elements. A call answers the changed session as it
answers the session, and leaves it changed in the same way. -/

set_option autoImplicit false

namespace EdwardsSignature

variable {F G : Type} [BaseField F] [BaseField G] (hom : FieldHom F G)

theorem Key.mode_map (key : Key F) : (key.map hom).mode = key.mode := by
  cases key <;> rfl

theorem Key.opening_map (key : Key F) : (key.map hom).opening = key.opening := by
  cases key <;> rfl

def Call.map {K L : Type} (change : K → L) : Call K → Call L
  | bind key => bind (change key)
  | setOneShot => setOneShot
  | reset => reset
  | update data => update data
  | updateOneShot data => updateOneShot data
  | updateByte byte => updateByte byte
  | sign => sign
  | signOneShot data => signOneShot data
  | verify signature => verify signature
  | verifyOneShot data signature => verifyOneShot data signature

theorem Call.resolve_eq_map {K L M ε : Type} {find : K → Except ε L} {changed : K → Except ε M}
    {change : L → M} (agree : ∀ named, changed named = change <$> find named) (call : Call K) :
    call.resolve changed = map change <$> call.resolve find := by
  cases call with
  | bind named => simp [resolve, agree, map]
  | _ => rfl

namespace Session

@[simps] def map (session : Session F) : Session G where
  required := session.required
  digest := session.digest
  key := session.key.map (Key.map hom)
  buffer := session.buffer
  oneShot := session.oneShot
  fed := session.fed
  borrowed := session.borrowed

def Outcome.map {α : Type} (outcome : Outcome F α) : Outcome G α :=
  (outcome.1, outcome.2.map hom)

variable (session : Session F)

theorem mode?_map : (session.map hom).mode? = session.mode? := by
  simp [mode?, map, Function.comp_def, Key.mode_map]

theorem describe_map : (session.map hom).describe = session.describe := by
  unfold describe
  rw [mode?_map, map_required, map_oneShot, map_buffer]

theorem clearMessage_map : (session.map hom).clearMessage = session.clearMessage.map hom := rfl

theorem rearm_map : (session.map hom).rearm = session.rearm.map hom := by
  cases session with
  | mk required digest key buffer oneShot fed borrowed =>
      cases digest with
      | none => cases key <;> rfl
      | some digest =>
          cases key with
          | none => rfl
          | some key => simp [rearm, map, Key.opening_map]

theorem reset_map : (session.map hom).reset = session.reset.map hom := by
  rw [reset, reset, clearMessage_map, rearm_map]

theorem checkDigest_map (declared : HashAlgorithm) :
    (session.map hom).checkDigest declared = session.checkDigest declared := rfl

theorem checkFeed_map : (session.map hom).checkFeed = session.checkFeed := by
  simp [checkFeed]

theorem bind_map (key : Key F) :
    (session.map hom).bind (key.map hom) = (session.bind key).map hom := by
  have algorithm : (key.map hom).parameters.hash = key.parameters.hash := by
    cases key <;> rfl
  simp only [bind, algorithm, clearMessage_map, checkDigest_map]
  cases session.clearMessage.checkDigest key.parameters.hash.algorithm with
  | error cause => rfl
  | ok fits =>
      exact congrArg (Prod.mk _) (rearm_map hom { session.clearMessage with
        digest := some (.empty key.parameters.hash), key := some key })

theorem setOneShot_map : (session.map hom).setOneShot = session.setOneShot.map hom := by
  simp only [setOneShot, map_fed, map_buffer]
  split <;> rfl

theorem update_map (data : Bytes) :
    (session.map hom).update data = (session.update data).map hom := by
  rw [update, update, checkFeed_map]
  cases session.checkFeed with
  | error cause => rfl
  | ok fine => rfl

theorem updateOneShot_map (data : Bytes) :
    (session.map hom).updateOneShot data = (session.updateOneShot data).map hom := by
  rw [updateOneShot, updateOneShot, checkFeed_map, setOneShot_map, map_oneShot]
  cases session.checkFeed with
  | error cause => rfl
  | ok fine =>
      cases session.oneShot with
      | true => rfl
      | false =>
          cases session.setOneShot with
          | mk answer after => cases answer <;> rfl

theorem updateByte_map (byte : UInt8) :
    (session.map hom).updateByte byte = (session.updateByte byte).map hom := by
  simp only [updateByte, map_key, Option.isNone_map, map_oneShot]
  split
  · rfl
  · split <;> rfl

theorem sign_map : (session.map hom).sign = session.sign.map hom := by
  unfold sign
  rw [map_key, map_digest, reset_map]
  cases session.key with
  | none => rfl
  | some key =>
      cases key with
      | verifying key => rfl
      | signing key =>
          cases session.digest with
          | none => rfl
          | some digest =>
              exact congrArg (Prod.mk · _) (PrivateKey.signWith_map hom key digest session.message)

theorem verify_map (signature : Bytes) :
    (session.map hom).verify signature = (session.verify signature).map hom := by
  unfold verify
  rw [map_key, map_digest, reset_map]
  cases session.key with
  | none => rfl
  | some key =>
      cases key with
      | signing key => rfl
      | verifying key =>
          have width : (key.map hom).parameters.signatureLength = key.parameters.signatureLength :=
            rfl
          simp only [Option.map_some, Key.map]
          rw [width]
          split
          · cases session.digest with
            | none => rfl
            | some digest =>
                exact congrArg (Prod.mk · _)
                  (PublicKey.verifyWith_map hom key digest session.message signature)
          · rfl

theorem signOneShot_map (data : Bytes) :
    (session.map hom).signOneShot data = (session.signOneShot data).map hom := by
  rw [signOneShot, signOneShot, updateOneShot_map]
  cases session.updateOneShot data with
  | mk answer after =>
      cases answer with
      | error cause => rfl
      | ok fine => exact sign_map hom after

theorem verifyOneShot_map (data signature : Bytes) :
    (session.map hom).verifyOneShot data signature =
      (session.verifyOneShot data signature).map hom := by
  rw [verifyOneShot, verifyOneShot, updateOneShot_map]
  cases session.updateOneShot data with
  | mk answer after =>
      cases answer with
      | error cause => rfl
      | ok fine => exact verify_map hom after signature

theorem perform_map (call : Call (Key F)) :
    (session.map hom).perform (call.map (Key.map hom)) = (session.perform call).map hom := by
  cases call with
  | bind key => rw [Call.map, perform, bind_map]; rfl
  | setOneShot => rw [Call.map, perform, setOneShot_map]; rfl
  | reset => rw [Call.map, perform, reset_map]; rfl
  | update data => rw [Call.map, perform, update_map]; rfl
  | updateOneShot data => rw [Call.map, perform, updateOneShot_map]; rfl
  | updateByte byte => rw [Call.map, perform, updateByte_map]; rfl
  | sign => rw [Call.map, perform, sign_map]; rfl
  | signOneShot data => rw [Call.map, perform, signOneShot_map]; rfl
  | verify signature => rw [Call.map, perform, verify_map]; rfl
  | verifyOneShot data signature => rw [Call.map, perform, verifyOneShot_map]; rfl

end Session

end EdwardsSignature
