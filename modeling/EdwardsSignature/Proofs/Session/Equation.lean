import Mathlib
import EdwardsSignature.Proofs.Key
import EdwardsSignature.Proofs.Session.Refinement

/-! Signatures over the standard parameters, as equations between curve points. -/

set_option autoImplicit false

namespace EdwardsSignature

variable {F : Type} [BaseField F] {parameters : Parameters F}

def HashFunction.scalar (hash : HashFunction) (bytes : Bytes) : Nat :=
  Bytes.toNat (hash.digest bytes) % Scalar.order

theorem Parameters.wideHash_spec (wide : parameters.hash.algorithm.outputSize = 64)
    (message : Bytes) :
    ∃ block, parameters.wideHash message = .ok block ∧
      block.toNat = Bytes.toNat (parameters.hash.digest message) := by
  have length : (parameters.hash.digest message).length = 64 := by
    rw [parameters.hash.length_digest, wide]
  obtain ⟨block, accepted, exact⟩ := Block.ofBytes?_of_length length
  refine ⟨block, ?_, ?_⟩
  · rw [wideHash, accepted]
  · rw [Block.toNat, exact]

variable [LawfulBaseField F]

theorem Parameters.IsStandard.wideHash_spec (standard : parameters.IsStandard)
    (lawful : parameters.scalars.Lawful) (message : Bytes) :
    ∃ block, parameters.wideHash message = .ok block ∧
      (parameters.scalars.reduce block).toNat = parameters.hash.scalar message := by
  obtain ⟨block, hashed, exact⟩ := Parameters.wideHash_spec standard.outputSize_eq message
  exact ⟨block, hashed, by rw [lawful.toNat_reduce, exact, HashFunction.scalar]⟩

/-- What a signature's scalar has to satisfy. -/
def SignatureEquation (hash : HashFunction) (named : CurvePoint) (message : Bytes)
    (commitment response : Block 32) : Prop :=
  response.toNat < Scalar.order ∧
    (response.toNat • basePoint -
      hash.scalar (commitment.toList ++ named.encode.toList ++ message) • named).encode = commitment

namespace SignatureEquation

variable {hash : HashFunction} {named : CurvePoint} {message : Bytes}
  {commitment response other : Block 32}

/-- The commitment leaves room for one scalar only: encodings tell points apart, and multiples of
the base point tell reduced scalars apart. -/
theorem response_unique (first : SignatureEquation hash named message commitment response)
    (second : SignatureEquation hash named message commitment other) : response = other := by
  obtain ⟨first_small, first_encodes⟩ := first
  obtain ⟨second_small, second_encodes⟩ := second
  have multiples_eq : response.toNat • basePoint = other.toNat • basePoint :=
    sub_left_injective (EdwardsPoint.encode_injective (first_encodes.trans second_encodes.symm))
  have congruent := (nsmul_basePoint_eq_iff response.toNat other.toNat).mp multiples_eq
  exact Block.toNat_injective (congruent.eq_of_lt_of_lt first_small second_small)

theorem exists_encode_eq (equation : SignatureEquation hash named message commitment response) :
    ∃ point : CurvePoint, point.encode = commitment :=
  ⟨_, equation.2⟩

end SignatureEquation

namespace PublicKey

variable {key : PublicKey F} {named : CurvePoint}

/-- Verification never fails, and accepts exactly what satisfies the equation. -/
theorem Names.verifyMessage_spec (names : key.Names parameters named)
    (standard : parameters.IsStandard) (lawful : parameters.scalars.Lawful) (message : Bytes)
    (commitment response : Block 32) :
    ∃ valid, key.verifyMessage message (commitment.toList ++ response.toList) = .ok valid ∧
      (valid = true ↔ SignatureEquation parameters.hash named message commitment response) := by
  have length : (commitment.toList ++ response.toList).length = 64 := by
    rw [List.length_append, Vector.length_toList, Vector.length_toList]
  have first : (commitment.toList ++ response.toList).take 32 = commitment.toList :=
    List.take_left' (by rw [Vector.length_toList])
  have second : (commitment.toList ++ response.toList).drop 32 = response.toList :=
    List.drop_left' (by rw [Vector.length_toList])
  obtain ⟨block, hashed, challenge_eq⟩ := standard.wideHash_spec lawful
    (commitment.toList ++ named.encode.toList ++ message)
  have canonical := Scalar.isCanonical_iff response
  unfold verifyMessage verdict
  rw [names.parameters_eq, length, standard.signatureLength_eq, if_pos rfl]
  simp only [first, second, Block.ofBytes?_toList, names.encoding_eq, hashed]
  by_cases small : response.toNat < Scalar.order
  · rw [if_pos (canonical.mpr small)]
    have narrow := small.trans Scalar.order_lt_two_pow
    have challenge_narrow := lawful.reduce_lt_two_pow block
    have point := standard.base_names.multiplyDouble names.negated_names challenge_narrow narrow
    rw [challenge_eq, smul_neg, neg_add_eq_sub] at point
    refine ⟨_, rejection_liftM_ok_bind _ _, ?_⟩
    rw [beq_iff_eq, Vector.toList_inj, point.encode_eq, SignatureEquation]
    exact (and_iff_right small).symm
  · rw [if_neg fun accepted => small (canonical.mp accepted)]
    exact ⟨false, rfl, by simp [SignatureEquation, small]⟩

end PublicKey

namespace Signature

theorem toBytes_ofParts (commitment response : Block 32) :
    (ofParts commitment response).toBytes = commitment.toList ++ response.toList :=
  Vector.toList_append

end Signature

theorem signatureEquation_of_response {hash : HashFunction} {secret nonce : Nat} {message : Bytes}
    {commitment response : Block 32} (commitment_eq : commitment = (nonce • basePoint).encode)
    (response_eq : response.toNat =
      (hash.scalar (commitment.toList ++ (secret • basePoint).encode.toList ++ message) * secret +
        nonce) % Scalar.order) :
    SignatureEquation hash (secret • basePoint) message commitment response := by
  constructor
  · rw [response_eq]
    exact Nat.mod_lt _ ScalarArithmetic.order_pos
  · generalize hash.scalar _ = challenge at response_eq ⊢
    rw [response_eq, mod_order_nsmul_basePoint, add_nsmul, mul_nsmul', add_sub_cancel_left,
      commitment_eq]

namespace PrivateKey

variable {key : PrivateKey F}

/-- Signing never fails, and what it answers satisfies the equation. -/
theorem IsExpanded.signMessage_spec (expanded : key.IsExpanded parameters)
    (standard : parameters.IsStandard) (lawful : parameters.scalars.Lawful) (message : Bytes) :
    ∃ commitment response,
      key.signMessage message = .ok (.ofParts commitment response) ∧
      SignatureEquation parameters.hash (key.scalar.toNat • basePoint) message commitment
        response := by
  obtain ⟨nonceBlock, nonce_hashed, _⟩ :=
    standard.wideHash_spec lawful (key.nonceKey.toList ++ message)
  have nonce_narrow := lawful.reduce_lt_two_pow nonceBlock
  obtain ⟨point, multiplied, names⟩ := standard.base_names.multiply nonce_narrow
  obtain ⟨challengeBlock, challenge_hashed, challenge_eq⟩ := standard.wideHash_spec lawful
    (point.encode.toList ++ (key.scalar.toNat • basePoint).encode.toList ++ message)
  refine ⟨point.encode, parameters.scalars.multiplyAdd
    (parameters.scalars.reduce challengeBlock) key.scalar
    (parameters.scalars.reduce nonceBlock), ?_, ?_⟩
  · unfold signMessage
    simp only [expanded.parameters_eq, nonce_hashed, expanded.public_names.encoding_eq]
    rw [rejection_liftM_ok_bind, multiplied, violation_liftM_ok_bind, challenge_hashed,
      rejection_liftM_ok_bind]
    rfl
  · apply signatureEquation_of_response names.encode_eq
    rw [lawful.toNat_multiplyAdd, challenge_eq]

end PrivateKey

end EdwardsSignature
