import Mathlib
import EdwardsSignature.Program.Workspace
import EdwardsSignature.Proofs.Field.LimbElement
import EdwardsSignature.Proofs.Representation.Session

/-! Programs under a change of the representation.

Every operation leaves the changed workspace as it leaves the workspace, changed. What is
observed of a workspace does not change, so no client can tell representations that compute
exactly from one another. -/

set_option autoImplicit false

namespace EdwardsSignature.Program

section Lifting

instance : LawfulMonadLift (Except Failure) (Except Problem) where
  monadLift_pure _ := rfl
  monadLift_bind := mapError_bind _

end Lifting

variable {F G : Type} [BaseField F] [BaseField G] (hom : FieldHom F G)

section Operations

theorem FieldUnary.apply_map (operation : FieldUnary) (element : F) :
    operation.apply (hom element) = hom (operation.apply element) := by
  cases operation with
  | power exponent => exact (BaseField.map_power hom element exponent).symm
  | _ => simp [apply]

theorem FieldBinary.apply_map (operation : FieldBinary) (left right : F) :
    operation.apply (hom left) (hom right) = hom (operation.apply left right) := by
  cases operation with
  | divide => exact (BaseField.map_divide hom left right).symm
  | _ => simp [apply]

theorem FieldTest.apply_map (property : FieldTest) (element : F) :
    property.apply (hom element) = property.apply element := by
  cases property with
  | isNonZero => exact hom.isNonZero_map element
  | isNegative => exact BaseField.isNegative_map hom element

theorem PointUnary.apply_eq_map (operation : PointUnary) (curve : Curve F) (point : Point F) :
    operation.apply (curve.map hom) (point.map hom) =
      Point.map hom <$> operation.apply curve point := by
  cases operation with
  | double => simp [apply, Point.double_eq_map]
  | negate => simp [apply, Point.negate_eq_map]
  | toProjective => simp [apply, Point.toProjective_eq_map]
  | toExtended => simp [apply, Point.toExtended_eq_map]
  | toProjectiveNiels => simp [apply, Point.toProjectiveNiels_eq_map]
  | convert target => simp [apply, Point.convert_eq_map]
  | multiplyNaive scalar => simp [apply, Point.multiplyNaive_eq_map]

theorem PointBinary.apply_eq_map (operation : PointBinary) (left right : Point F) :
    operation.apply (left.map hom) (right.map hom) =
      Completed.map hom <$> operation.apply left right := by
  cases operation with
  | add => exact Point.add_eq_map hom left right
  | sub => exact Point.sub_eq_map hom left right
  | addEntry => exact Point.addEntry_eq_map hom left right
  | subEntry => exact Point.subEntry_eq_map hom left right

theorem TableName.entries_map (table : TableName) (tabled : TabledPoint F) :
    table.entries (tabled.map hom) = (table.entries tabled).map (AffineNiels.map hom) := by
  cases table with
  | comb =>
      simp only [entries, TabledPoint.comb_get_map, EntryRow.map, Vector.toList_map,
        List.flatMap_map, List.map_flatMap]
  | odd => simp only [entries, TabledPoint.odd_get_map, EntryRow.map, Vector.toList_map]

theorem CurveConstant.of_map (name : CurveConstant) (curve : Curve F) :
    name.of (curve.map hom) = hom (name.of curve) := by
  cases name <;> rfl

end Operations

section Values

def Value.map : Value F → Value G
  | element value => element (hom value)
  | point value => point (value.map hom)
  | prepared value => prepared (value.map hom)
  | parameters value => parameters (value.map hom)
  | key value => key (value.map hom)
  | entries total listed => entries total (listed.map (AffineNiels.map hom))
  | bytes value => bytes value
  | truth value => truth value
  | answer result status => answer result status

theorem extendedBlocks_map (point : Extended F) :
    (point.map hom).map BaseField.toBlock = point.map BaseField.toBlock := by
  simp [Extended.map]

theorem viewParameters_map (parameters : Parameters F) :
    viewParameters (parameters.map hom) = viewParameters parameters := by
  have base : (parameters.map hom).base.point.map BaseField.toBlock =
      parameters.base.point.map BaseField.toBlock :=
    extendedBlocks_map hom parameters.base.point
  have encoded : (parameters.map hom).base.encode = parameters.base.encode :=
    TabledPoint.encode_map hom parameters.base
  rw [viewParameters, viewParameters, base, encoded]
  rfl

theorem viewPublicKey_map (key : PublicKey F) : viewPublicKey (key.map hom) = viewPublicKey key := by
  have point : (key.map hom).point.map BaseField.toBlock = key.point.map BaseField.toBlock :=
    extendedBlocks_map hom key.point
  have negated : (key.map hom).negated.point.map BaseField.toBlock =
      key.negated.point.map BaseField.toBlock :=
    extendedBlocks_map hom key.negated.point
  rw [viewPublicKey, viewPublicKey, point, negated]
  rfl

theorem viewPrivateKey_map (key : PrivateKey F) :
    viewPrivateKey (key.map hom) = viewPrivateKey key := by
  have publicKey : viewPublicKey (key.map hom).publicKey = viewPublicKey key.publicKey :=
    viewPublicKey_map hom key.publicKey
  rw [viewPrivateKey, viewPrivateKey, publicKey]
  rfl

theorem viewKey_map (key : Key F) : viewKey (key.map hom) = viewKey key := by
  cases key with
  | signing key => exact congrArg KeyView.signing (viewPrivateKey_map hom key)
  | verifying key => exact congrArg KeyView.verifying (viewPublicKey_map hom key)

theorem Value.observe_map (value : Value F) : (value.map hom).observe = value.observe := by
  cases value with
  | element value => exact congrArg Observation.element (hom.toBlock_map value)
  | point value => exact congrArg Observation.point (Point.coordinateBlocks_map hom value)
  | prepared value => exact congrArg Observation.prepared (extendedBlocks_map hom value.point)
  | parameters value => exact congrArg Observation.parameters (viewParameters_map hom value)
  | key value => exact congrArg Observation.key (viewKey_map hom value)
  | entries total listed => simp [map, observe, AffineNiels.map]
  | _ => rfl

end Values

namespace Workspace

variable (workspace : Workspace F)

@[simps] def map : Workspace G where
  curve := workspace.curve.map hom
  hashes := workspace.hashes
  standard := workspace.standard.map hom
  sessions := workspace.sessions.map (Session.map hom)
  results := workspace.results.map (Value.map hom <$> ·)

theorem record_map (result : Except Problem (Value F)) :
    (workspace.map hom).record (Value.map hom <$> result) = (workspace.record result).map hom := by
  simp [record, map]

theorem observations_map : (workspace.map hom).observations = workspace.observations := by
  simp [observations, Value.observe_map, Function.comp_def]

section Slots

variable (slot : Slot)

theorem read_eq_map {A B : Type} {part : Value F → Option A} {changed : Value G → Option B}
    {change : A → B} (agree : ∀ value, changed (value.map hom) = (part value).map change) :
    (workspace.map hom).read slot changed = change <$> workspace.read slot part := by
  simp only [read, map_results, List.getElem?_map]
  cases workspace.results[slot]? with
  | none => rfl
  | some result =>
      cases result with
      | error problem => rfl
      | ok value =>
          simp only [Option.map_some, Except.map_ok, agree]
          cases part value <;> rfl

theorem element_eq_map : (workspace.map hom).element slot = hom <$> workspace.element slot :=
  workspace.read_eq_map hom slot fun value => by cases value <;> rfl

theorem point_eq_map : (workspace.map hom).point slot = Point.map hom <$> workspace.point slot :=
  workspace.read_eq_map hom slot fun value => by cases value <;> rfl

theorem prepared_eq_map :
    (workspace.map hom).prepared slot = TabledPoint.map hom <$> workspace.prepared slot :=
  workspace.read_eq_map hom slot fun value => by cases value <;> rfl

theorem heldParameters_eq_map :
    (workspace.map hom).heldParameters slot =
      Parameters.map hom <$> workspace.heldParameters slot :=
  workspace.read_eq_map hom slot fun value => by cases value <;> rfl

theorem key_eq_map : (workspace.map hom).key slot = Key.map hom <$> workspace.key slot :=
  workspace.read_eq_map hom slot fun value => by cases value <;> rfl

theorem privateKey_eq_map :
    (workspace.map hom).privateKey slot = PrivateKey.map hom <$> workspace.privateKey slot :=
  workspace.read_eq_map hom slot fun value => by
    cases value with
    | key value => cases value <;> rfl
    | _ => rfl

theorem keyFor_eq_map (mode : SessionMode) :
    (workspace.map hom).keyFor slot mode = Key.map hom <$> workspace.keyFor slot mode :=
  workspace.read_eq_map hom slot fun value => by
    cases value with
    | key value => cases value <;> cases mode <;> rfl
    | _ => rfl

end Slots

theorem parameters_eq_map (description : Option ParametersDescription) :
    (workspace.map hom).parameters description =
      Parameters.map hom <$> workspace.parameters description := by
  cases description with
  | none => rfl
  | some description =>
      simp [parameters, Parameters.ofDescription_eq_map hom]

theorem performField_eq_map (operation : FieldOperation) :
    (workspace.map hom).performField operation =
      Value.map hom <$> workspace.performField operation := by
  cases operation with
  | zero => simp [performField, Value.map]
  | one => simp [performField, Value.map]
  | constant value => simp [performField, Value.map, FieldParameters.constant]
  | decode encoding => simp [performField, Value.map, BaseField.decode_eq_map hom]
  | coordinate point index =>
      simp only [performField, point_eq_map, bind_map_left, map_bind, Point.coordinates_map,
        List.getElem?_map]
      refine bind_congr fun found => ?_
      cases found.coordinates[index]? <;> rfl
  | unary operation operand =>
      simp [performField, Value.map, element_eq_map, FieldUnary.apply_map]
  | binary operation left right =>
      simp [performField, Value.map, element_eq_map, FieldBinary.apply_map]
  | test property operand =>
      simp [performField, Value.map, element_eq_map, FieldTest.apply_map]
  | equal left right => simp [performField, Value.map, element_eq_map]
  | same left right => simp [performField, Value.map, element_eq_map]

theorem performGroup_eq_map (operation : GroupOperation) :
    (workspace.map hom).performGroup operation =
      Value.map hom <$> workspace.performGroup operation := by
  cases operation with
  | constant name => simp [performGroup, Value.map, CurveConstant.of_map]
  | decode encoding => simp [performGroup, Value.map, Curve.decodePoint_eq_map]
  | point encoded => simp [performGroup, Value.map, Point.decode_eq_map hom]
  | assemble coordinates =>
      simp [performGroup, Value.map, Point.mapM_eq_map hom (workspace.element_eq_map hom)]
  | neutral system => simp [performGroup, Value.map, Point.map_neutral]
  | unary operation operand =>
      simp [performGroup, Value.map, point_eq_map, PointUnary.apply_eq_map]
  | binary operation left right =>
      simp [performGroup, Value.map, point_eq_map, PointBinary.apply_eq_map]
  | encode operand => simp [performGroup, Value.map, point_eq_map, Point.encode_map]
  | isOnCurve operand => simp [performGroup, Value.map, point_eq_map, Point.isOnCurve_map]
  | equal left right => simp [performGroup, Value.map, point_eq_map, Point.equal_map]
  | prepare operand =>
      simp [performGroup, Value.map, point_eq_map, Point.convertExtended_eq_map,
        TabledPoint.ofExtended_map]
  | prepareDecoded encoding => simp [performGroup, Value.map, TabledPoint.decode_eq_map]
  | negatePrepared operand =>
      simp [performGroup, Value.map, prepared_eq_map, TabledPoint.negate_map]
  | encodePrepared operand =>
      simp [performGroup, Value.map, prepared_eq_map, TabledPoint.encode_map]
  | entries table operand start stop =>
      simp [performGroup, Value.map, prepared_eq_map, TableName.entries_map]
  | entry table operand index =>
      simp only [performGroup, prepared_eq_map, bind_map_left, map_bind, TableName.entries_map,
        List.getElem?_map]
      refine bind_congr fun tabled => ?_
      cases (table.entries tabled)[index]? <;> rfl
  | multiply operand scalar =>
      simp [performGroup, Value.map, prepared_eq_map, TabledPoint.multiply_eq_map]
  | multiplyDouble other operand otherScalar scalar =>
      simp [performGroup, Value.map, prepared_eq_map, TabledPoint.multiplyDouble_map]

theorem performKey_eq_map (operation : KeyOperation) :
    (workspace.map hom).performKey operation =
      Value.map hom <$> workspace.performKey operation := by
  cases operation with
  | parameters description => simp [performKey, Value.map, parameters_eq_map]
  | assemble curve algorithm scalars base =>
      simp [performKey, Value.map, Curve.ofDescription_eq_map hom, point_eq_map,
        Parameters.assemble_eq_map]
  | parametersOf key => simp [performKey, Value.map, key_eq_map, Key.parameters_map]
  | base parameters =>
      simp only [performKey, heldParameters_eq_map, bind_map_left, map_bind]
      rfl
  | key description material =>
      simp [performKey, Value.map, parameters_eq_map, Key.ofMaterial_eq_map]
  | keyUnder parameters material =>
      simp [performKey, Value.map, heldParameters_eq_map, Key.ofMaterial_eq_map]
  | generate parameters source =>
      simp [performKey, Value.map, heldParameters_eq_map, PrivateKey.generate_eq_map, Key.map]
  | wrap parameters point =>
      simp [performKey, Value.map, heldParameters_eq_map, point_eq_map, PublicKey.ofPoint_eq_map,
        Key.map]
  | publicKey key =>
      simp only [performKey, key_eq_map, bind_map_left, map_bind, Key.publicKey_map]
      rfl
  | point key =>
      simp only [performKey, key_eq_map, bind_map_left, map_bind, Key.publicKey_map]
      rfl
  | negated key =>
      simp only [performKey, key_eq_map, bind_map_left, map_bind, Key.publicKey_map]
      rfl
  | equalPrivate left right =>
      simp [performKey, Value.map, privateKey_eq_map, PrivateKey.equal_map]
  | equalPublic left right =>
      simp [performKey, Value.map, key_eq_map, Key.publicKey_map, PublicKey.equal_map]

theorem performGroupOn_eq_map (curve : CurveDescription) (operation : GroupOperation) :
    (workspace.map hom).performGroupOn curve operation =
      Value.map hom <$> workspace.performGroupOn curve operation := by
  simp only [performGroupOn, Curve.ofDescription_eq_map hom, liftM_map, bind_map_left, map_bind]
  refine bind_congr fun changed => ?_
  exact performGroup_eq_map hom { workspace with curve := changed } operation

theorem sessionStatus_map (session : Session F) :
    sessionStatus (session.map hom) = sessionStatus session := by
  rw [sessionStatus, sessionStatus, Session.mode?_map, Session.describe_map]
  rfl

theorem performSession_map (number : Nat) (call : Call (SessionMode × Slot)) :
    (workspace.map hom).performSession number call =
      (workspace.performSession number call).map hom := by
  have resolved := Call.resolve_eq_map
    (fun named : SessionMode × Slot => workspace.keyFor_eq_map hom named.2 named.1) call
  simp only [performSession, map_sessions, List.getElem?_map, resolved]
  cases workspace.sessions[number]? with
  | none => exact workspace.record_map hom (.error (.missing number))
  | some session =>
      cases call.resolve fun named => workspace.keyFor named.2 named.1 with
      | error problem => exact workspace.record_map hom (.error problem)
      | ok given =>
          have performed := session.perform_map hom given
          simp only [Option.map_some, Except.map_ok, performed, Session.Outcome.map,
            sessionStatus_map]
          simp [record, map, Value.map, List.map_set]

theorem openSession_map (required : Option HashAlgorithm) :
    (workspace.map hom).openSession required = (workspace.openSession required).map hom := by
  have opened : (Session.start required : Session F).map hom = Session.start required := rfl
  rw [openSession, openSession, ← opened, sessionStatus_map]
  simp [record, map, Value.map]

theorem perform_map (operation : Operation) :
    (workspace.map hom).perform operation = (workspace.perform operation).map hom := by
  cases operation with
  | field operation => rw [perform, performField_eq_map, record_map]; rfl
  | group operation => rw [perform, performGroup_eq_map, record_map]; rfl
  | groupOn curve operation => rw [perform, performGroupOn_eq_map, record_map]; rfl
  | key operation => rw [perform, performKey_eq_map, record_map]; rfl
  | session call => exact workspace.performSession_map hom 0 call
  | openSession required => exact workspace.openSession_map hom required
  | sessionAt number call => exact workspace.performSession_map hom number call

theorem converse_map (client : List (Except Problem Observation) → Option Operation)
    (steps : Nat) :
    (workspace.map hom).converse client steps = (workspace.converse client steps).map hom := by
  induction steps generalizing workspace with
  | zero => rfl
  | succ steps ih =>
      rw [converse, converse, observations_map]
      cases client workspace.observations with
      | none => rfl
      | some operation => simp only [perform_map, ih]

theorem start_eq_map (hashes : HashFamily) (curve : Curve F) (required : Option HashAlgorithm) :
    start hashes (curve.map hom) required = map hom <$> start hashes curve required := by
  simp only [start, Parameters.standardWith_eq_map hom, bind_map_left, map_bind]
  rfl

end Workspace

theorem runClient_eq (hom : FieldHom F G) (hashes : HashFamily) (curve : CurveDescription)
    (required : Option HashAlgorithm)
    (client : List (Except Problem Observation) → Option Operation) (steps : Nat) :
    runClient G hashes curve required client steps =
      runClient F hashes curve required client steps := by
  simp only [runClient, Curve.ofDescription_eq_map hom, Workspace.start_eq_map hom, bind_map_left,
    Workspace.converse_map, Workspace.observations_map]

section Listed

variable (workspace : Workspace F)

theorem Workspace.length_record (result : Except Problem (Value F)) :
    (workspace.record result).results.length = workspace.results.length + 1 := by
  simp [record]

theorem Workspace.length_performSession (number : Nat) (call : Call (SessionMode × Slot)) :
    (workspace.performSession number call).results.length = workspace.results.length + 1 := by
  unfold performSession
  split
  · exact workspace.length_record _
  · split
    · exact workspace.length_record _
    · exact length_record { workspace with sessions := _ } _

/-- Every operation leaves one result. -/
theorem Workspace.length_perform (operation : Operation) :
    (workspace.perform operation).results.length = workspace.results.length + 1 := by
  cases operation with
  | session call => exact workspace.length_performSession 0 call
  | sessionAt number call => exact workspace.length_performSession number call
  | openSession required => exact length_record { workspace with sessions := _ } _
  | _ => exact workspace.length_record _

/-- The client that goes through a list finds its place by the number of results it has seen. -/
theorem Workspace.converse_listed (asked rest : List Operation)
    (performed : workspace.results.length = asked.length) :
    workspace.converse (fun seen => (asked ++ rest)[seen.length]?) rest.length =
      rest.foldl perform workspace := by
  induction rest generalizing workspace asked with
  | nil => rfl
  | cons operation rest ih =>
      have next := ih (workspace.perform operation) (asked ++ [operation])
        (by rw [length_perform, performed, List.length_append, List.length_singleton])
      have observed : workspace.observations.length = asked.length := by
        rw [observations, List.length_map, performed]
      have first : (asked ++ operation :: rest)[asked.length]? = some operation := by simp
      rw [List.append_assoc, List.singleton_append] at next
      rw [List.length_cons, converse, observed, first]
      exact next

/-- A list of operations is a client that goes through it, whatever it observes. -/
theorem run_eq_runClient (hashes : HashFamily) (curve : CurveDescription)
    (required : Option HashAlgorithm) (operations : List Operation) :
    run F hashes curve required operations =
      runClient F hashes curve required (fun seen => operations[seen.length]?)
        operations.length := by
  unfold run runClient
  refine bind_congr fun curve => ?_
  unfold Workspace.start
  cases (Parameters.standardWith (hashes.function .sha512) .limbs :
    Except Rejection (Parameters F)) with
  | error cause => rfl
  | ok standard =>
      have listed := Workspace.converse_listed ⟨curve, hashes, standard, [.start required], []⟩ []
        operations rfl
      exact congrArg (fun after => Except.ok after.observations) listed.symm

end Listed

/-- No client can tell limbs from least residues: on any curve, over any hash functions and from
any bytes, what it is shown of every result is the same. -/
theorem representations_agree (hashes : HashFamily) (curve : CurveDescription)
    (required : Option HashAlgorithm)
    (client : List (Except Problem Observation) → Option Operation) (steps : Nat) :
    runClient LimbElement hashes curve required client steps =
      runClient Residue hashes curve required client steps :=
  (runClient_eq (.toResidue LimbElement) hashes curve required client steps).symm

end EdwardsSignature.Program
