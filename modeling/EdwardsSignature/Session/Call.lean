import EdwardsSignature.Session.Basic

/-! Calls on a session as data, and whole runs of them. -/
set_option autoImplicit false
namespace EdwardsSignature

/-- One call on a session, with keys named or given in whatever way `K` says. -/
inductive Call (K : Type) where
  | bind (key : K)
  | setOneShot
  | reset
  | update (data : Bytes)
  | updateOneShot (data : Bytes)
  | updateByte (byte : UInt8)
  | sign
  | signOneShot (data : Bytes)
  | verify (signature : Bytes)
  | verifyOneShot (data signature : Bytes)

def Call.resolve {K L ε : Type} (find : K → Except ε L) : Call K → Except ε (Call L)
  | bind key => bind <$> find key
  | setOneShot => .ok setOneShot
  | reset => .ok reset
  | update data => .ok (update data)
  | updateOneShot data => .ok (updateOneShot data)
  | updateByte byte => .ok (updateByte byte)
  | sign => .ok sign
  | signOneShot data => .ok (signOneShot data)
  | verify signature => .ok (verify signature)
  | verifyOneShot data signature => .ok (verifyOneShot data signature)

inductive Answer where
  | done
  | signed (signature : Signature)
  | verdict (valid : Bool)

namespace Session

variable {F : Type} [BaseField F]

def Outcome.answer {α : Type} (outcome : Outcome F α) (word : α → Answer) : Outcome F Answer :=
  (word <$> outcome.1, outcome.2)

def perform (session : Session F) : Call (Key F) → Outcome F Answer
  | .bind key => (session.bind key).answer fun _ => .done
  | .setOneShot => session.setOneShot.answer fun _ => .done
  | .reset => (.ok .done, session.reset)
  | .update data => (session.update data).answer fun _ => .done
  | .updateOneShot data => (session.updateOneShot data).answer fun _ => .done
  | .updateByte byte => (session.updateByte byte).answer fun _ => .done
  | .sign => session.sign.answer .signed
  | .signOneShot data => (session.signOneShot data).answer .signed
  | .verify signature => (session.verify signature).answer .verdict
  | .verifyOneShot data signature => (session.verifyOneShot data signature).answer .verdict

def run (session : Session F) : List (Call (Key F)) → List (Except Failure Answer) × Session F
  | [] => ([], session)
  | call :: rest =>
      let (answer, after) := session.perform call
      let (answers, last) := after.run rest
      (answer :: answers, last)

end Session

end EdwardsSignature
