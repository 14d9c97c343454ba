import Mathlib
import EdwardsSignature.Proofs.Field.LimbElement
import EdwardsSignature.Proofs.Field.Residue
import EdwardsSignature.Proofs.Session.Answers
import EdwardsSignature.Proofs.Session.Equation

/-! What sessions over the standard parameters promise.

Everything here holds for any hash function of 64 bytes, in every lawful representation of the
base field and with any lawful scalar arithmetic. -/

set_option autoImplicit false

namespace EdwardsSignature

open Parameters (standardWith)

/-- What a private key is made from over the standard parameters. -/
inductive KeyMaterial.IsSecret : KeyMaterial → Prop where
  | seed {bytes : Bytes} (length : bytes.length = 32) : IsSecret (.seed bytes)
  | hash {bytes : Bytes} (length : bytes.length = 64) : IsSecret (.hash bytes)

variable {F : Type} [BaseField F]

inductive PublicKey.IsMade (parameters : Parameters F) : PublicKey F → Prop where
  | ofPoint {point : Point F} {key : PublicKey F} (made : ofPoint parameters point = .ok key) :
      IsMade parameters key
  | ofBytes {bytes : Bytes} {key : PublicKey F} (made : ofBytes parameters bytes = .ok key) :
      IsMade parameters key

variable [LawfulBaseField F]

theorem PublicKey.IsMade.names {parameters : Parameters F} (standard : parameters.IsStandard)
    {key : PublicKey F} (made : IsMade parameters key) :
    ∃ named, key.Names parameters named := by
  cases made with
  | ofPoint made => exact ofPoint_names standard made
  | ofBytes made => exact ofBytes_names standard made

section Signing

variable {parameters : Parameters F}

theorem KeyMaterial.IsSecret.expanded (standard : parameters.IsStandard) {material : KeyMaterial}
    (secret : material.IsSecret) :
    ∃ key, Key.ofMaterial parameters material = .ok (.signing key) ∧
      key.IsExpanded parameters := by
  cases secret with
  | seed length =>
      obtain ⟨key, made, expanded⟩ := PrivateKey.ofSeed_spec standard length
      refine ⟨key, ?_, expanded⟩
      rw [Key.ofMaterial, made]
      rfl
  | hash length =>
      obtain ⟨key, made, expanded⟩ := PrivateKey.ofHash_spec standard length
      refine ⟨key, ?_, expanded⟩
      rw [Key.ofMaterial, made]
      rfl

theorem PublicKey.Names.answers_of_equation {key : PublicKey F} {named : CurvePoint}
    (names : key.Names parameters named) (standard : parameters.IsStandard)
    (lawful : parameters.scalars.Lawful) {message : Bytes} {commitment response : Block 32}
    (equation : SignatureEquation parameters.hash named message commitment response)
    (outcome : Except Failure Bool) :
    key.Answers message (Signature.ofParts commitment response).toBytes outcome ↔
      outcome = .ok true := by
  obtain ⟨valid, verified, valid_iff⟩ :=
    names.verifyMessage_spec standard lawful message commitment response
  rw [answers_iff, Signature.toBytes_ofParts, verified, valid_iff.mpr equation]

theorem PublicKey.Names.equation_of_answers {key : PublicKey F} {named : CurvePoint}
    (names : key.Names parameters named) (standard : parameters.IsStandard)
    (lawful : parameters.scalars.Lawful) {message : Bytes} {commitment response : Block 32}
    (accepted : key.Answers message (commitment.toList ++ response.toList) (.ok true)) :
    SignatureEquation parameters.hash named message commitment response := by
  obtain ⟨valid, verified, valid_iff⟩ :=
    names.verifyMessage_spec standard lawful message commitment response
  rw [answers_iff, verified] at accepted
  exact valid_iff.mp (Except.ok.inj accepted).symm

/-- What is signed is verified. Every session that is to sign a message under a private key
answers with one and the same signature, and every session that is to verify it answers that it
is valid, under the key's public key and under what its encoding decodes to. -/
theorem verifies_signed (hash : HashFunction) (scalars : ScalarArithmetic)
    (sha512 : hash.algorithm = .sha512) (lawful : scalars.Lawful) {material : KeyMaterial} (secret : material.IsSecret) :
    ∃ (parameters : Parameters F) (key : PrivateKey F) (decoded : PublicKey F),
      standardWith hash scalars = .ok parameters ∧
      Key.ofMaterial parameters material = .ok (.signing key) ∧
      PublicKey.ofBytes parameters key.publicKey.encoding.toList = .ok decoded ∧
      ∀ message, ∃ signature : Signature,
        (∀ outcome, key.Answers message outcome ↔ outcome = .ok signature) ∧
        (∀ outcome, key.publicKey.Answers message signature.toBytes outcome ↔
          outcome = .ok true) ∧
        (∀ outcome, decoded.Answers message signature.toBytes outcome ↔ outcome = .ok true) := by
  obtain ⟨parameters, assembled, standard, _, rfl⟩ :=
    Parameters.standardWith_spec (F := F) scalars sha512
  obtain ⟨key, made, expanded⟩ := secret.expanded standard
  obtain ⟨decoded, accepted, names⟩ :=
    PublicKey.ofBytes_encode standard (key.scalar.toNat • basePoint)
  rw [← expanded.public_names.encoding_eq] at accepted
  refine ⟨parameters, key, decoded, assembled, made, accepted, ?_⟩
  intro message
  obtain ⟨commitment, response, signed, equation⟩ := expanded.signMessage_spec standard lawful message
  refine ⟨.ofParts commitment response, ?_, ?_, ?_⟩
  · intro outcome
    rw [key.answers_iff, signed]
  · exact expanded.public_names.answers_of_equation standard lawful equation
  · exact names.answers_of_equation standard lawful equation

/-- SHA-512 and a seed of zeros, over both representations of the field. -/
theorem verifies_signed_zeros :
    (∃ (parameters : Parameters LimbElement) (key : PrivateKey LimbElement) (signature : Signature),
      standardWith HashAlgorithm.sha512.function .limbs = .ok parameters ∧
      Key.ofMaterial parameters (.seed (List.replicate 32 0)) = .ok (.signing key) ∧
      key.Answers [114] (.ok signature) ∧
      key.publicKey.Answers [114] signature.toBytes (.ok true)) ∧
    ∃ (parameters : Parameters Residue) (key : PrivateKey Residue) (signature : Signature),
      standardWith HashAlgorithm.sha512.function .naturals = .ok parameters ∧
      Key.ofMaterial parameters (.hash (List.replicate 64 0)) = .ok (.signing key) ∧
      key.Answers [] (.ok signature) ∧
      key.publicKey.Answers [] signature.toBytes (.ok true) := by
  constructor
  · obtain ⟨parameters, key, _, assembled, made, _, answers⟩ :=
      verifies_signed (F := LimbElement) _ .limbs (HashAlgorithm.algorithm_function .sha512)
        ScalarArithmetic.limbs_lawful (.seed List.length_replicate)
    obtain ⟨signature, signed, verified, _⟩ := answers [114]
    exact ⟨parameters, key, signature, assembled, made, (signed _).mpr rfl, (verified _).mpr rfl⟩
  · obtain ⟨parameters, key, _, assembled, made, _, answers⟩ :=
      verifies_signed (F := Residue) _ .naturals (HashAlgorithm.algorithm_function .sha512)
        ScalarArithmetic.naturals_lawful (.hash List.length_replicate)
    obtain ⟨signature, signed, verified, _⟩ := answers []
    exact ⟨parameters, key, signature, assembled, made, (signed _).mpr rfl, (verified _).mpr rfl⟩

end Signing

section Verifying

/-- Verification answers, and it accepts exactly what satisfies the equation without a cofactor:
the scalar is reduced, and its multiple of the base point less the challenge's multiple of the
key's point encodes to the commitment. -/
theorem verdict_iff_equation (hash : HashFunction) (scalars : ScalarArithmetic)
    (sha512 : hash.algorithm = .sha512) (lawful : scalars.Lawful) :
    ∃ parameters : Parameters F, standardWith hash scalars = .ok parameters ∧
      ∀ key, PublicKey.IsMade parameters key →
        ∃ named : CurvePoint, key.point.toProjective.Names named ∧ key.encoding = named.encode ∧
          ∀ (message : Bytes) (commitment response : Block 32), ∃ valid,
            (∀ outcome, key.Answers message (commitment.toList ++ response.toList) outcome ↔
              outcome = .ok valid) ∧
            (valid = true ↔ SignatureEquation hash named message commitment response) := by
  obtain ⟨parameters, assembled, standard, rfl, rfl⟩ :=
    Parameters.standardWith_spec (F := F) scalars sha512
  refine ⟨parameters, assembled, ?_⟩
  intro key made
  obtain ⟨named, names⟩ := made.names standard
  refine ⟨named, names.point_names, names.encoding_eq, ?_⟩
  intro message commitment response
  obtain ⟨valid, verified, valid_iff⟩ :=
    names.verifyMessage_spec standard lawful message commitment response
  refine ⟨valid, ?_, valid_iff⟩
  intro outcome
  rw [key.answers_iff, verified]

theorem verdict_iff_equation_base :
    ∃ (parameters : Parameters LimbElement) (key : PublicKey LimbElement),
      standardWith HashAlgorithm.sha512.function .limbs = .ok parameters ∧
      PublicKey.ofBytes parameters Curve.standardBase.toList = .ok key ∧
      ∃ named : CurvePoint, key.encoding = named.encode ∧
        ∀ (message : Bytes) (commitment response : Block 32), ∃ valid,
          key.Answers message (commitment.toList ++ response.toList) (.ok valid) ∧
          (valid = true ↔
            SignatureEquation HashAlgorithm.sha512.function named message commitment response) := by
  obtain ⟨parameters, assembled, standard, _⟩ := Parameters.exists_standard LimbElement
  obtain ⟨key, made, _⟩ := PublicKey.ofBytes_encode standard basePoint
  rw [encode_basePoint] at made
  obtain ⟨others, same, answers⟩ :=
    verdict_iff_equation (F := LimbElement) _ .limbs (HashAlgorithm.algorithm_function .sha512)
      ScalarArithmetic.limbs_lawful
  obtain rfl := Except.ok.inj (assembled.symm.trans same)
  obtain ⟨named, _, encoding_eq, verdicts⟩ := answers key (.ofBytes made)
  refine ⟨parameters, key, assembled, made, named, encoding_eq, ?_⟩
  intro message commitment response
  obtain ⟨valid, answered, valid_iff⟩ := verdicts message commitment response
  exact ⟨valid, (answered _).mpr rfl, valid_iff⟩

/-- An accepted signature cannot be altered in its scalar: whatever other scalar goes with its
commitment is rejected. And the commitment is the encoding of a point on the curve, as it
decodes and encodes back. -/
theorem accepted_rigid (hash : HashFunction) (scalars : ScalarArithmetic)
    (sha512 : hash.algorithm = .sha512) (lawful : scalars.Lawful) :
    ∃ parameters : Parameters F, standardWith hash scalars = .ok parameters ∧
      ∀ key, PublicKey.IsMade parameters key →
        ∀ (message : Bytes) (commitment response : Block 32),
          key.Answers message (commitment.toList ++ response.toList) (.ok true) →
          (∀ other, other ≠ response → ∀ outcome,
            key.Answers message (commitment.toList ++ other.toList) outcome ↔
              outcome = .ok false) ∧
          ∃ point, parameters.curve.decodePoint commitment.toList = .ok point ∧
            point.isOnCurve parameters.curve = true ∧ point.encode = commitment := by
  obtain ⟨parameters, assembled, standard, _, rfl⟩ :=
    Parameters.standardWith_spec (F := F) scalars sha512
  refine ⟨parameters, assembled, ?_⟩
  intro key made message commitment response accepted
  obtain ⟨named, names⟩ := made.names standard
  have equation := names.equation_of_answers standard lawful accepted
  constructor
  · intro other different outcome
    obtain ⟨valid, verified, valid_iff⟩ :=
      names.verifyMessage_spec standard lawful message commitment other
    have invalid : valid = false := by
      rw [Bool.eq_false_iff, Ne, valid_iff]
      intro second
      exact different (second.response_unique equation)
    rw [key.answers_iff, verified, invalid]
  · obtain ⟨encoded, rfl⟩ := equation.exists_encode_eq
    obtain ⟨point, decoded, point_names⟩ := Curve.decodePoint_encode standard.constants encoded
    refine ⟨point, decoded, ?_, point_names.encode_eq⟩
    exact (Projective.isOnCurve_iff standard.constants _).mpr ⟨encoded, point_names.toProjective⟩

theorem accepted_rigid_zeros :
    ∃ (parameters : Parameters LimbElement) (key : PublicKey LimbElement)
      (commitment response : Block 32),
      standardWith HashAlgorithm.sha512.function .limbs = .ok parameters ∧
      key.Answers [] (commitment.toList ++ response.toList) (.ok true) ∧
      ∀ other, other ≠ response →
        key.Answers [] (commitment.toList ++ other.toList) (.ok false) := by
  obtain ⟨parameters, assembled, rigid⟩ :=
    accepted_rigid (F := LimbElement) _ .limbs (HashAlgorithm.algorithm_function .sha512)
      ScalarArithmetic.limbs_lawful
  obtain ⟨known, key, same, standard, lawful, _, expanded⟩ := PrivateKey.exists_zeros LimbElement
  obtain rfl := Except.ok.inj (assembled.symm.trans same)
  obtain ⟨decoded, made, names⟩ :=
    PublicKey.ofBytes_encode standard (key.scalar.toNat • basePoint)
  obtain ⟨commitment, response, _, equation⟩ := expanded.signMessage_spec standard lawful []
  have accepted := (names.answers_of_equation standard lawful equation _).mpr rfl
  rw [Signature.toBytes_ofParts] at accepted
  obtain ⟨rejected, _⟩ := rigid decoded (.ofBytes made) [] commitment response accepted
  refine ⟨parameters, decoded, commitment, response, assembled, accepted, ?_⟩
  intro other different
  exact (rejected other different _).mpr rfl

end Verifying

end EdwardsSignature
