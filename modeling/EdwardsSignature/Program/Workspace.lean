import EdwardsSignature.Program.Value

/-! Programs of operations, run one after another in a workspace.

Every operation leaves a result in the next slot, even when it fails, and a failing
operation does not stop the ones after it. -/
set_option autoImplicit false
namespace EdwardsSignature.Program

/-- What operations work in: a curve, the functions behind the hash algorithms, the standard
parameters, sessions in the order in which they were opened, and the results of all earlier
operations. -/
structure Workspace (F : Type) [BaseField F] where
  curve : Curve F
  hashes : HashFamily
  standard : Parameters F
  sessions : List (Session F)
  results : List (Except Problem (Value F))

namespace Workspace

variable {F : Type} [BaseField F]

/-- A workspace without results. Its first session takes keys of one hash algorithm or of
any. -/
def start (hashes : HashFamily) (curve : Curve F) (required : Option HashAlgorithm) :
    Except Rejection (Workspace F) := do
  let standard ← Parameters.standardWith (hashes.function .sha512) .limbs
  return ⟨curve, hashes, standard, [.start required], []⟩

def record (workspace : Workspace F) (result : Except Problem (Value F)) : Workspace F :=
  { workspace with results := workspace.results ++ [result] }

section Slots

variable (workspace : Workspace F) (slot : Slot)

/-- Reads what an operation needs from a slot. -/
def read {α : Type} (part : Value F → Option α) : Except Problem α :=
  match workspace.results[slot]? with
  | some (.ok value) =>
      match part value with
      | some needed => .ok needed
      | none => .error (.missing slot)
  | _ => .error (.missing slot)

def element : Except Problem F := workspace.read slot Value.element?

def point : Except Problem (Point F) := workspace.read slot Value.point?

def prepared : Except Problem (TabledPoint F) := workspace.read slot Value.prepared?

def heldParameters : Except Problem (Parameters F) := workspace.read slot Value.parameters?

def key : Except Problem (Key F) := workspace.read slot Value.key?

def privateKey : Except Problem (PrivateKey F) := workspace.read slot Value.privateKey?

def keyFor (mode : SessionMode) : Except Problem (Key F) := workspace.read slot (·.keyFor? mode)

end Slots

def parameters (workspace : Workspace F) (description : Option ParametersDescription) :
    Except Problem (Parameters F) :=
  match description with
  | some description => Parameters.ofDescription workspace.hashes description
  | none => .ok workspace.standard

def performField (workspace : Workspace F) : FieldOperation → Except Problem (Value F)
  | .zero => return .element 0
  | .one => return .element 1
  | .constant value => return .element (FieldParameters.constant value)
  | .decode encoding => return .element (← BaseField.decode encoding)
  | .coordinate point index => do
      match (← workspace.point point).coordinates[index]? with
      | some named => return .element named.2
      | none => throw (.missing point)
  | .unary operation operand => return .element (operation.apply (← workspace.element operand))
  | .binary operation left right =>
      return .element (operation.apply (← workspace.element left) (← workspace.element right))
  | .test property operand => return .truth (property.apply (← workspace.element operand))
  | .equal left right =>
      return .truth (BaseField.equal (← workspace.element left) (← workspace.element right))
  | .same left right =>
      return .truth (BaseField.same (← workspace.element left) (← workspace.element right))

def performGroup (workspace : Workspace F) : GroupOperation → Except Problem (Value F)
  | .constant name => return .element (name.of workspace.curve)
  | .decode encoding => return .point (.extended (← workspace.curve.decodePoint encoding))
  | .point encoded => return .point (← encoded.decode)
  | .assemble coordinates => return .point (← coordinates.mapM workspace.element)
  | .neutral system => return .point (.neutral system)
  | .unary operation operand =>
      return .point (← operation.apply workspace.curve (← workspace.point operand))
  | .binary operation left right =>
      return .point (.completed
        (← operation.apply (← workspace.point left) (← workspace.point right)))
  | .encode operand => return .bytes (← (← workspace.point operand).encode).toList
  | .isOnCurve operand => return .truth (← (← workspace.point operand).isOnCurve workspace.curve)
  | .equal left right =>
      return .truth ((← workspace.point left).equal (← workspace.point right))
  | .prepare operand =>
      return .prepared
        (.ofExtended workspace.curve (← (← workspace.point operand).convertExtended))
  | .prepareDecoded encoding => return .prepared (← TabledPoint.decode workspace.curve encoding)
  | .negatePrepared operand => return .prepared (← workspace.prepared operand).negate
  | .encodePrepared operand => return .bytes (← workspace.prepared operand).encode.toList
  | .entries table operand start stop => do
      let entries := table.entries (← workspace.prepared operand)
      return .entries entries.length ((entries.take stop).drop start)
  | .entry table operand index => do
      match (table.entries (← workspace.prepared operand))[index]? with
      | some entry => return .point (.affineNiels entry)
      | none => throw (.missing operand)
  | .multiply operand scalar =>
      return .point (.extended (← (← workspace.prepared operand).multiply scalar))
  | .multiplyDouble other operand otherScalar scalar => do
      let otherPoint ← workspace.prepared other
      let tabled ← workspace.prepared operand
      return .point (.projective (tabled.multiplyDouble otherPoint otherScalar scalar))

def performKey (workspace : Workspace F) : KeyOperation → Except Problem (Value F)
  | .parameters description => return .parameters (← workspace.parameters description)
  | .assemble curve algorithm scalars base => do
      let curve : Curve F ← Curve.ofDescription curve
      let base ← workspace.point base
      let hash := workspace.hashes.function algorithm
      return .parameters (← Parameters.assemble curve hash scalars base)
  | .parametersOf key => return .parameters (← workspace.key key).parameters
  | .base parameters => return .prepared (← workspace.heldParameters parameters).base
  | .key description material => do
      let parameters ← workspace.parameters description
      return .key (← Key.ofMaterial parameters material)
  | .keyUnder parameters material => do
      let parameters ← workspace.heldParameters parameters
      return .key (← Key.ofMaterial parameters material)
  | .generate parameters source => do
      let parameters ← workspace.heldParameters parameters
      return .key (.signing (← (PrivateKey.generate parameters source).1))
  | .wrap parameters point => do
      let parameters ← workspace.heldParameters parameters
      let point ← workspace.point point
      return .key (.verifying (← PublicKey.ofPoint parameters point))
  | .publicKey key => return .key (.verifying (← workspace.key key).publicKey)
  | .point key => return .point (.extended (← workspace.key key).publicKey.point)
  | .negated key => return .prepared (← workspace.key key).publicKey.negated
  | .equalPrivate left right =>
      return .truth ((← workspace.privateKey left).equal (← workspace.privateKey right))
  | .equalPublic left right =>
      return .truth ((← workspace.key left).publicKey.equal (← workspace.key right).publicKey)

def performSession (workspace : Workspace F) (number : Nat) (call : Call (SessionMode × Slot)) :
    Workspace F :=
  match workspace.sessions[number]? with
  | none => workspace.record (.error (.missing number))
  | some session =>
      match call.resolve fun named => workspace.keyFor named.2 named.1 with
      | .error problem => workspace.record (.error problem)
      | .ok resolved =>
          let (answer, after) := session.perform resolved
          { workspace with sessions := workspace.sessions.set number after }.record
            (.ok (.answer answer (sessionStatus after)))

def openSession (workspace : Workspace F) (required : Option HashAlgorithm) : Workspace F :=
  let session : Session F := .start required
  { workspace with sessions := workspace.sessions ++ [session] }.record
    (.ok (.answer (.ok .done) (sessionStatus session)))

def performGroupOn (workspace : Workspace F) (curve : CurveDescription)
    (operation : GroupOperation) : Except Problem (Value F) := do
  let curve : Curve F ← Curve.ofDescription curve
  { workspace with curve := curve }.performGroup operation

def perform (workspace : Workspace F) : Operation → Workspace F
  | .field operation => workspace.record (workspace.performField operation)
  | .group operation => workspace.record (workspace.performGroup operation)
  | .groupOn curve operation => workspace.record (workspace.performGroupOn curve operation)
  | .key operation => workspace.record (workspace.performKey operation)
  | .session call => workspace.performSession 0 call
  | .openSession required => workspace.openSession required
  | .sessionAt number call => workspace.performSession number call

def observations (workspace : Workspace F) : List (Except Problem Observation) :=
  workspace.results.map fun result => Value.observe <$> result

def latest? (workspace : Workspace F) : Option (Except Problem Observation) :=
  workspace.results.getLast?.map fun result => Value.observe <$> result

/-- Performs what a client asks for, which may depend on everything observed so far: a given
number of operations, or fewer if the client stops. -/
def converse (client : List (Except Problem Observation) → Option Operation) :
    Nat → Workspace F → Workspace F
  | 0, workspace => workspace
  | steps + 1, workspace =>
      match client workspace.observations with
      | some operation => converse client steps (workspace.perform operation)
      | none => workspace

end Workspace

/-- Runs operations on a described curve, with field elements represented by `F`, and
shows their results. -/
def run (F : Type) [BaseField F] (hashes : HashFamily) (curve : CurveDescription)
    (required : Option HashAlgorithm) (operations : List Operation) :
    Except Rejection (List (Except Problem Observation)) := do
  let curve : Curve F ← Curve.ofDescription curve
  let workspace ← Workspace.start hashes curve required
  return (operations.foldl Workspace.perform workspace).observations

/-- Runs as many of a client's operations as it is allowed, and shows their results. -/
def runClient (F : Type) [BaseField F] (hashes : HashFamily) (curve : CurveDescription)
    (required : Option HashAlgorithm)
    (client : List (Except Problem Observation) → Option Operation) (steps : Nat) :
    Except Rejection (List (Except Problem Observation)) := do
  let curve : Curve F ← Curve.ofDescription curve
  let workspace ← Workspace.start hashes curve required
  return (workspace.converse client steps).observations

end EdwardsSignature.Program
