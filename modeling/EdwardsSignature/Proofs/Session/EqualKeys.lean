import Mathlib
import EdwardsSignature.Proofs.Curve.Decoding
import EdwardsSignature.Proofs.Session.Correctness

/-! Public keys that compare as equal verify alike.

Keys with one encoding may come from different bytes, and may hold different coordinates of one
point, even with a `T` that does not belong to it. Verification reads the encoding and the
prepared negative, and for these such keys agree. -/

set_option autoImplicit false

namespace EdwardsSignature

open Parameters (standardWith)

theorem Block.exists_append_of_length {bytes : Bytes} (length : bytes.length = 64) :
    ∃ low high : Block 32, bytes = low.toList ++ high.toList := by
  obtain ⟨block, _, exact⟩ := ofBytes?_of_length length
  refine ⟨block.low, block.high, ?_⟩
  rw [toList_low, toList_high, List.take_append_drop, exact]

variable {F : Type} [BaseField F]

namespace PublicKey

theorem equal_iff (left right : PublicKey F) :
    left.equal right = true ↔ left.encoding = right.encoding :=
  beq_iff_eq

variable [LawfulBaseField F] {parameters : Parameters F} {key other : PublicKey F}
  {named other_named : CurvePoint}

theorem Names.equal_iff (names : key.Names parameters named)
    (others : other.Names parameters other_named) :
    key.equal other = true ↔ named = other_named := by
  rw [PublicKey.equal_iff, names.encoding_eq, others.encoding_eq]
  constructor
  · exact EdwardsPoint.encode_injective
  · intro same
    rw [same]

/-- Verification depends on nothing but the point that the key names. -/
theorem Names.verifyMessage_eq (names : key.Names parameters named)
    (others : other.Names parameters named) (standard : parameters.IsStandard)
    (lawful : parameters.scalars.Lawful) (message signature : Bytes) :
    key.verifyMessage message signature = other.verifyMessage message signature := by
  by_cases length : signature.length = 64
  · obtain ⟨commitment, response, rfl⟩ := Block.exists_append_of_length length
    obtain ⟨valid, verified, valid_iff⟩ :=
      names.verifyMessage_spec standard lawful message commitment response
    obtain ⟨other_valid, other_verified, other_valid_iff⟩ :=
      others.verifyMessage_spec standard lawful message commitment response
    have same : valid = other_valid := Bool.eq_iff_iff.mpr (valid_iff.trans other_valid_iff.symm)
    rw [verified, other_verified, same]
  · unfold verifyMessage
    rw [names.parameters_eq, others.parameters_eq, standard.signatureLength_eq, if_neg length,
      if_neg length]

theorem Names.negated_affine (names : key.Names parameters named) :
    (Point.extended key.negated.point).affine =
      (-(Point.extended key.point).affine.1, (Point.extended key.point).affine.2) := by
  have point_affine : (Point.extended key.point).affine = named.pair :=
    names.point_names.affine_eq
  rw [names.negated_names.point_names.affine_eq, point_affine]
  rfl

theorem Names.reread (names : key.Names parameters named) (standard : parameters.IsStandard) :
    ∃ again, ofBytes parameters key.encoding.toList = .ok again ∧ again.equal key = true := by
  obtain ⟨again, accepted, again_names⟩ := ofBytes_encode standard named
  rw [← names.encoding_eq] at accepted
  exact ⟨again, accepted, (again_names.equal_iff names).mpr rfl⟩

end PublicKey

variable [LawfulBaseField F]

/-- Sessions that are to verify under equal keys answer alike, whatever they went through before
and whatever they are given as a signature. The prepared negative of a key is always a valid
point, and the key's encoding gives an equal key again. -/
theorem equal_keys_agree (hash : HashFunction) (scalars : ScalarArithmetic)
    (sha512 : hash.algorithm = .sha512) (lawful : scalars.Lawful) :
    ∃ parameters : Parameters F, standardWith hash scalars = .ok parameters ∧
      (∀ key other, PublicKey.IsMade parameters key → PublicKey.IsMade parameters other →
        key.equal other = true → ∀ message signature, ∃ answered,
          (∀ outcome, key.Answers message signature outcome ↔ outcome = answered) ∧
          ∀ outcome, other.Answers message signature outcome ↔ outcome = answered) ∧
      ∀ key, PublicKey.IsMade parameters key →
        key.negated.point.Valid ∧
        (Point.extended key.negated.point).affine =
          (-(Point.extended key.point).affine.1, (Point.extended key.point).affine.2) ∧
        ∃ again, PublicKey.ofBytes parameters key.encoding.toList = .ok again ∧
          again.equal key = true := by
  obtain ⟨parameters, assembled, standard, _, rfl⟩ :=
    Parameters.standardWith_spec (F := F) scalars sha512
  refine ⟨parameters, assembled, ?_, ?_⟩
  · intro key other made other_made same message signature
    obtain ⟨named, names⟩ := made.names standard
    obtain ⟨other_named, others⟩ := other_made.names standard
    obtain rfl := (names.equal_iff others).mp same
    refine ⟨key.verifyMessage message signature, key.answers_iff message signature, ?_⟩
    rw [names.verifyMessage_eq others standard lawful]
    exact other.answers_iff message signature
  · intro key made
    obtain ⟨named, names⟩ := made.names standard
    exact ⟨names.negated_names.point_names.valid, names.negated_affine, names.reread standard⟩

/-- The point of order two, with a `T` that does not belong to it, and an encoding of it that is
not canonical, for it gives zero a sign. -/
theorem equal_keys_agree_order_two :
    let point : Extended LimbElement := ⟨0, -1, 1, 1⟩
    let block := Block.ofNat 32 (fieldPrime - 1 + 2 ^ 255)
    ∃ (parameters : Parameters LimbElement) (key other : PublicKey LimbElement),
      standardWith HashAlgorithm.sha512.function .limbs = .ok parameters ∧
      PublicKey.ofPoint parameters (.extended point) = .ok key ∧ ¬key.point.Valid ∧
      PublicKey.ofBytes parameters block.toList = .ok other ∧ other.encoding ≠ block ∧
      key.equal other = true ∧ key.negated.point.Valid ∧
      ∀ message signature, ∃ answered,
        key.Answers message signature answered ∧ other.Answers message signature answered := by
  intro point block
  obtain ⟨parameters, assembled, agree, sound⟩ :=
    equal_keys_agree (F := LimbElement) _ .limbs (HashAlgorithm.algorithm_function .sha512)
      ScalarArithmetic.limbs_lawful
  obtain ⟨known, same, standard, _⟩ := Parameters.exists_standard LimbElement
  obtain rfl := Except.ok.inj (assembled.symm.trans same)
  let named := (Extended.orderTwo_valid (F := LimbElement)).curvePoint
  have names : point.toProjective.Names named := Extended.orderTwo_valid.names.toProjective
  have made := PublicKey.ofPoint_extended standard names
  have invalid : ¬point.Valid := by
    intro valid
    have product := valid.product_eq
    simp [point] at product
  have number : block.toNat = fieldPrime - 1 + 2 ^ 255 := Block.toNat_ofNat_of_lt (by decide)
  have y_eq : block.writtenY = -1 := by
    rw [Block.writtenY, number]
    decide +kernel
  have contained : standardCurve.Contains 0 block.writtenY := by
    rw [y_eq, EdwardsCurve.contains_iff_root]
    ring
  obtain ⟨other, decoded⟩ :=
    (Curve.decodePoint_isOk_iff standard.constants block).mpr ⟨0, contained⟩
  obtain ⟨_, other_named, decoded_names, _, other_y⟩ :=
    Curve.decodePoint_isWrittenBy standard.constants decoded
  have other_made := PublicKey.ofBytes_of_decodePoint standard decoded decoded_names
  have other_names := PublicKey.wrap_names standard decoded_names.toProjective
  have named_x : named.x = 0 := by simp [named, Extended.Valid.curvePoint, Extended.orderTwo]
  have named_y : named.y = -1 := by simp [named, Extended.Valid.curvePoint, Extended.orderTwo]
  have same_y : other_named.y = named.y := by rw [other_y, y_eq, named_y]
  have other_x : other_named.x = 0 := by
    obtain zero | opposite := EdwardsPoint.x_eq_or_eq_neg same_y
    · rw [zero, named_x]
    · rw [opposite, named_x, neg_zero]
  obtain rfl : other_named = named := EdwardsPoint.eq_of_y_eq same_y (.inl other_x)
  have equal := ((PublicKey.wrap_names standard names).equal_iff other_names).mpr rfl
  have rewritten : (PublicKey.wrap parameters other).encoding ≠ block := by
    rw [other_names.encoding_eq, Ne, EdwardsPoint.encode_eq_iff other_y (.inl other_x)]
    rintro ⟨_, unsigned⟩
    exact unsigned ⟨other_x, by rw [Block.signBit, number]; decide⟩
  obtain ⟨valid, _, _⟩ := sound _ (.ofPoint made)
  refine ⟨parameters, _, _, assembled, made, invalid, other_made, rewritten, equal, valid, ?_⟩
  intro message signature
  obtain ⟨answered, first, second⟩ :=
    agree _ _ (.ofPoint made) (.ofBytes other_made) equal message signature
  exact ⟨answered, (first _).mpr rfl, (second _).mpr rfl⟩

end EdwardsSignature
