import Mathlib
import EdwardsSignature.Key.Basic
import EdwardsSignature.Key.Generator
import EdwardsSignature.Session.Equation
import EdwardsSignature.Proofs.Representation.Point

/-! Parameters, keys and signatures under a change of the representation.

Changed parameters make changed keys out of the same material, or reject it for the same
cause. Signatures and verdicts are bytes and truth values, and do not change. -/

set_option autoImplicit false

namespace EdwardsSignature

section Lifting

universe u

theorem mapError_bind {ε δ : Type} {α β : Type u} (word : ε → δ) (result : Except ε α)
    (next : α → Except ε β) :
    (result >>= next).mapError word = result.mapError word >>= fun value =>
      (next value).mapError word := by
  cases result with
  | error cause => rfl
  | ok value => rfl

instance : LawfulMonadLift (Except Rejection) (Except Failure) where
  monadLift_pure _ := rfl
  monadLift_bind := mapError_bind _

instance : LawfulMonadLift (Except Violation) (Except Failure) where
  monadLift_pure _ := rfl
  monadLift_bind := mapError_bind _

end Lifting

variable {F G : Type} [BaseField F] [BaseField G] (hom : FieldHom F G)

namespace Parameters

@[simps] def map (parameters : Parameters F) : Parameters G where
  curve := parameters.curve.map hom
  hash := parameters.hash
  scalars := parameters.scalars
  base := parameters.base.map hom
  base_curve := congrArg (Curve.map hom) parameters.base_curve
  hash_size := parameters.hash_size

theorem encodedLength_map (parameters : Parameters F) :
    (parameters.map hom).encodedLength = parameters.encodedLength := rfl

theorem signatureLength_map (parameters : Parameters F) :
    (parameters.map hom).signatureLength = parameters.signatureLength := rfl

theorem assemble_eq_map (curve : Curve F) (hash : HashFunction) (scalars : ScalarArithmetic)
    (base : Point F) :
    assemble (curve.map hom) hash scalars (base.map hom) =
      map hom <$> assemble curve hash scalars base := by
  have width : (curve.map hom).field = curve.field := rfl
  simp only [assemble, Point.convertExtended_eq_map, width]
  split
  · cases base.convertExtended with
    | error cause => rfl
    | ok point => rfl
  · rfl

theorem standardWith_eq_map (hash : HashFunction) (scalars : ScalarArithmetic) :
    (standardWith hash scalars : Except Rejection (Parameters G)) =
      map hom <$> (standardWith hash scalars : Except Rejection (Parameters F)) := by
  simp only [standardWith]
  rw [← Curve.map_standard hom, Curve.decodePoint_eq_map]
  cases (Curve.standard : Curve F).decodePoint Curve.standardBase.toList with
  | error cause => rfl
  | ok base => exact assemble_eq_map hom .standard _ _ (.extended base)

theorem basePoint_eq_map (curve : Curve F) (description : BaseDescription) :
    (curve.map hom).basePoint description = Point.map hom <$> curve.basePoint description := by
  cases description with
  | encoding bytes =>
      rw [Curve.basePoint, Curve.basePoint, Curve.decodePoint_eq_map]
      cases curve.decodePoint bytes with
      | error cause => rfl
      | ok point => rfl
  | point encoded => exact Point.decode_eq_map hom encoded

theorem ofDescription_eq_map (hashes : HashFamily) (description : ParametersDescription) :
    (ofDescription hashes description : Except Rejection (Parameters G)) =
      map hom <$> (ofDescription hashes description : Except Rejection (Parameters F)) := by
  simp only [ofDescription, Curve.ofDescription_eq_map hom, basePoint_eq_map, assemble_eq_map,
    bind_map_left, map_bind]

end Parameters

namespace PublicKey

def map (key : PublicKey F) : PublicKey G where
  encoding := key.encoding
  point := key.point.map hom
  negated := key.negated.map hom
  parameters := key.parameters.map hom
  encoding_eq := key.encoding_eq.trans (Extended.encode_map hom key.point).symm
  negated_point := by
    have negated := congrArg (Extended.map hom) key.negated_point
    exact negated.trans (Extended.negate_map hom key.parameters.curve key.point).symm

theorem wrap_map (parameters : Parameters F) (point : Extended F) :
    wrap (parameters.map hom) (point.map hom) = (wrap parameters point).map hom := by
  simp [wrap, map, TabledPoint.ofExtended_map, Parameters.map]

theorem ofPoint_eq_map (parameters : Parameters F) (point : Point F) :
    ofPoint (parameters.map hom) (point.map hom) = map hom <$> ofPoint parameters point := by
  rw [ofPoint, ofPoint, Parameters.map_curve, Point.isOnCurve_map, Point.convertExtended_eq_map]
  cases point.isOnCurve parameters.curve with
  | error cause => rfl
  | ok onCurve =>
      cases onCurve with
      | false => rfl
      | true =>
          cases point.convertExtended with
          | error cause => rfl
          | ok extended => exact congrArg Except.ok (wrap_map hom parameters extended)

theorem ofBytes_eq_map (parameters : Parameters F) (bytes : Bytes) :
    ofBytes (parameters.map hom) bytes = map hom <$> ofBytes parameters bytes := by
  simp only [ofBytes, Parameters.encodedLength_map, Parameters.map_curve,
    Curve.decodePoint_eq_map]
  split
  · cases parameters.curve.decodePoint bytes with
    | error cause => rfl
    | ok point => exact ofPoint_eq_map hom parameters (.extended point)
  · rfl

theorem equal_map (left right : PublicKey F) :
    (left.map hom).equal (right.map hom) = left.equal right := rfl

theorem verifyWith_map (key : PublicKey F) (empty : Digest) (message signature : Bytes) :
    (key.map hom).verifyWith empty message signature = key.verifyWith empty message signature := by
  have combined (challenge response : Block 32) :
      ((key.map hom).parameters.base.multiplyDouble (key.map hom).negated challenge
        response).encode =
        (key.parameters.base.multiplyDouble key.negated challenge response).encode :=
    (congrArg Projective.encode (TabledPoint.multiplyDouble_map hom _ _ challenge response)).trans
      (Projective.encode_map hom _)
  simp only [verifyWith, combined]
  rfl

end PublicKey

namespace PrivateKey

def map (key : PrivateKey F) : PrivateKey G where
  seed := key.seed
  hash := key.hash
  scalar := key.scalar
  publicKey := key.publicKey.map hom
  scalar_eq := key.scalar_eq

theorem expand_eq_map (parameters : Parameters F) (seed : Option (Block 32)) (hash : Bytes) :
    expand (parameters.map hom) seed hash = map hom <$> expand parameters seed hash := by
  have wrapped (point : Extended F) :
      PublicKey.ofPoint (parameters.map hom) (.extended (point.map hom)) =
        PublicKey.map hom <$> PublicKey.ofPoint parameters (.extended point) :=
    PublicKey.ofPoint_eq_map hom parameters (.extended point)
  unfold expand
  cases Block.ofBytes? 64 hash with
  | none => rfl
  | some block => simp [TabledPoint.multiply_eq_map, wrapped, map]

theorem ofSeed_eq_map (parameters : Parameters F) (seed : Bytes) :
    ofSeed (parameters.map hom) seed = map hom <$> ofSeed parameters seed := by
  simp only [ofSeed, Parameters.encodedLength_map, Parameters.map_hash]
  split
  · cases Block.ofBytes? 32 seed with
    | none => rfl
    | some block => exact expand_eq_map hom parameters (some block) _
  · rfl

theorem ofHash_eq_map (parameters : Parameters F) (hash : Bytes) :
    ofHash (parameters.map hom) hash = map hom <$> ofHash parameters hash := by
  rw [ofHash, ofHash, Parameters.signatureLength_map]
  split
  · exact expand_eq_map hom parameters none hash
  · rfl

theorem generate_eq_map {S : Type} [ByteSource S] (parameters : Parameters F) (source : S) :
    (generate (parameters.map hom) source).1 = map hom <$> (generate parameters source).1 :=
  ofSeed_eq_map hom parameters (ByteSource.draw 32 source).1.toList

theorem equal_map (left right : PrivateKey F) :
    (left.map hom).equal (right.map hom) = left.equal right := rfl

theorem signWith_map (key : PrivateKey F) (fed : Digest) (message : Bytes) :
    (key.map hom).signWith fed message = key.signWith fed message := by
  have multiplied (scalar : Block 32) : (key.map hom).parameters.base.multiply scalar =
      Extended.map hom <$> key.parameters.base.multiply scalar :=
    TabledPoint.multiply_eq_map hom key.parameters.base scalar
  simp only [signWith, multiplied, liftM_map, bind_map_left, Extended.encode_map]
  rfl

end PrivateKey

namespace Key

def map : Key F → Key G
  | signing key => signing (key.map hom)
  | verifying key => verifying (key.map hom)

theorem parameters_map (key : Key F) : (key.map hom).parameters = key.parameters.map hom := by
  cases key <;> rfl

theorem publicKey_map (key : Key F) : (key.map hom).publicKey = key.publicKey.map hom := by
  cases key <;> rfl

theorem ofMaterial_eq_map (parameters : Parameters F) (material : KeyMaterial) :
    ofMaterial (parameters.map hom) material = map hom <$> ofMaterial parameters material := by
  cases material with
  | seed bytes => simp [ofMaterial, PrivateKey.ofSeed_eq_map, map]
  | hash bytes => simp [ofMaterial, PrivateKey.ofHash_eq_map, map]
  | encoding bytes => simp [ofMaterial, PublicKey.ofBytes_eq_map, map]
  | point encoded =>
      simp [ofMaterial, PublicKey.ofPoint_eq_map, map, Point.decode_eq_map hom]

end Key

end EdwardsSignature
