import Mathlib
import EdwardsSignature.Key.Basic
import EdwardsSignature.Proofs.Curve.BasePoint
import EdwardsSignature.Proofs.Curve.Multiplication
import EdwardsSignature.Proofs.Scalar.Arithmetic

/-! Keys over the standard parameters hold the curve points that they are meant to. -/

set_option autoImplicit false

namespace EdwardsSignature

section Failure

variable {α β : Type}

theorem violation_liftM_ok_bind (value : α) (next : α → Except Failure β) :
    ((liftM (Except.ok value : Except Violation α) : Except Failure α) >>= next) = next value := rfl

theorem rejection_liftM_ok_bind (value : α) (next : α → Except Failure β) :
    ((liftM (Except.ok value : Except Rejection α) : Except Failure α) >>= next) = next value := rfl

end Failure

variable {F : Type} [BaseField F] [LawfulBaseField F]

structure Parameters.IsStandard (parameters : Parameters F) : Prop where
  constants : parameters.curve.HasStandardConstants
  width_eq : parameters.width = 256
  base_names : parameters.base.Names basePoint

namespace Parameters

/-- The standard parameters exist with any hash function of 64 bytes and any arithmetic. -/
theorem standardWith_spec {hash : HashFunction} (scalars : ScalarArithmetic)
    (sha512 : hash.algorithm = .sha512) :
    ∃ parameters : Parameters F, standardWith hash scalars = .ok parameters ∧
      parameters.IsStandard ∧ parameters.hash = hash ∧ parameters.scalars = scalars := by
  have constants := Curve.standard_hasStandardConstants (F := F)
  obtain ⟨point, decoded, names⟩ := decodePoint_standardBase F
  have sized : hash.algorithm.outputSize = (Curve.standard : Curve F).field.width / 4 := by
    simp [sha512, HashAlgorithm.outputSize, Curve.standard, Curve.standardWidth]
  refine ⟨⟨.standard, hash, scalars, .ofExtended .standard point, rfl, sized⟩, ?_,
    ⟨constants, rfl, constants, names⟩, rfl, rfl⟩
  have assembled : assemble .standard hash scalars (.extended point) =
      .ok ⟨.standard, hash, scalars, .ofExtended .standard point, rfl, sized⟩ := by
    rw [assemble, dif_pos sized]
    rfl
  rw [standardWith, decoded]
  exact assembled

theorem exists_standard (F : Type) [BaseField F] [LawfulBaseField F] :
    ∃ parameters : Parameters F,
      standardWith HashAlgorithm.sha512.function .limbs = .ok parameters ∧
      parameters.IsStandard ∧ parameters.scalars.Lawful := by
  obtain ⟨parameters, assembled, standard, _, scalars_eq⟩ :=
    standardWith_spec (F := F) .limbs (HashAlgorithm.algorithm_function .sha512)
  exact ⟨parameters, assembled, standard, scalars_eq ▸ ScalarArithmetic.limbs_lawful⟩

variable {parameters : Parameters F}

theorem IsStandard.encodedLength_eq (standard : parameters.IsStandard) :
    parameters.encodedLength = 32 := by
  rw [encodedLength, standard.width_eq]

theorem IsStandard.signatureLength_eq (standard : parameters.IsStandard) :
    parameters.signatureLength = 64 := by
  rw [signatureLength, standard.width_eq]

theorem IsStandard.outputSize_eq (standard : parameters.IsStandard) :
    parameters.hash.algorithm.outputSize = 64 := by
  have width := standard.width_eq
  rw [Parameters.width] at width
  rw [parameters.hash_size, width]

end Parameters

omit [LawfulBaseField F] in
/-- The check of the curve equation does not tell a point from what it converts to. -/
theorem Point.isOnCurve_of_convertExtended (curve : Curve F) {point : Point F}
    {converted : Extended F} (conversion : point.convertExtended = .ok converted) :
    point.isOnCurve curve = .ok (converted.isOnCurve curve) := by
  cases point with
  | extended | completed =>
      obtain rfl := Except.ok.inj conversion
      rfl
  | projective | affineNiels | projectiveNiels => cases conversion

namespace PublicKey

variable {parameters : Parameters F}

/-- A key whose point is a curve point: its encoding and its prepared negative agree with it.
Nothing is said of the point's `T`. -/
structure Names (key : PublicKey F) (parameters : Parameters F) (named : CurvePoint) : Prop where
  parameters_eq : key.parameters = parameters
  point_names : key.point.toProjective.Names named
  encoding_eq : key.encoding = named.encode
  negated_names : key.negated.Names (-named)

theorem wrap_names (standard : parameters.IsStandard) {point : Extended F} {named : CurvePoint}
    (names : point.toProjective.Names named) : (wrap parameters point).Names parameters named :=
  ⟨rfl, names, names.encode_eq, standard.constants, names.negate⟩

omit [LawfulBaseField F] in
/-- A key that wrapping answers with holds the point as it converts, once it passed the check. -/
theorem ofPoint_ok {point : Point F} {key : PublicKey F}
    (made : ofPoint parameters point = .ok key) :
    ∃ converted, point.isOnCurve parameters.curve = .ok true ∧
      point.convertExtended = .ok converted ∧ key = wrap parameters converted := by
  unfold ofPoint at made
  split at made
  · contradiction
  · contradiction
  · rename_i accepted
    split at made
    · contradiction
    · rename_i converted conversion
      exact ⟨converted, accepted, conversion, (Except.ok.inj made).symm⟩

theorem ofPoint_names (standard : parameters.IsStandard) {point : Point F} {key : PublicKey F}
    (made : ofPoint parameters point = .ok key) :
    ∃ named, key.Names parameters named := by
  obtain ⟨converted, accepted, conversion, rfl⟩ := ofPoint_ok made
  rw [Point.isOnCurve_of_convertExtended parameters.curve conversion] at accepted
  have checked := Except.ok.inj accepted
  obtain ⟨named, names⟩ := (Projective.isOnCurve_iff standard.constants _).mp checked
  exact ⟨named, wrap_names standard names⟩

omit [LawfulBaseField F] in
theorem ofPoint_of_isOnCurve {point : Point F} {converted : Extended F}
    (accepted : point.isOnCurve parameters.curve = .ok true)
    (conversion : point.convertExtended = .ok converted) :
    ofPoint parameters point = .ok (wrap parameters converted) := by
  simp only [ofPoint, accepted, conversion]

theorem ofPoint_extended (standard : parameters.IsStandard) {point : Extended F}
    {named : CurvePoint} (names : point.toProjective.Names named) :
    ofPoint parameters (.extended point) = .ok (wrap parameters point) := by
  have checked := (Projective.isOnCurve_iff standard.constants _).mpr ⟨named, names⟩
  exact ofPoint_of_isOnCurve (congrArg Except.ok checked) rfl

omit [LawfulBaseField F] in
theorem ofBytes_ok {bytes : Bytes} {key : PublicKey F} (made : ofBytes parameters bytes = .ok key) :
    ∃ point, parameters.curve.decodePoint bytes = .ok point ∧
      ofPoint parameters (.extended point) = .ok key := by
  unfold ofBytes at made
  split at made
  · split at made
    · rename_i point decoded
      exact ⟨point, decoded, made⟩
    · contradiction
  · contradiction

theorem ofBytes_names (standard : parameters.IsStandard) {bytes : Bytes} {key : PublicKey F}
    (made : ofBytes parameters bytes = .ok key) : ∃ named, key.Names parameters named := by
  obtain ⟨point, _, wrapped⟩ := ofBytes_ok made
  exact ofPoint_names standard wrapped

theorem ofBytes_of_decodePoint (standard : parameters.IsStandard) {block : Block 32}
    {point : Extended F} {named : CurvePoint}
    (decoded : parameters.curve.decodePoint block.toList = .ok point) (names : point.Names named) :
    ofBytes parameters block.toList = .ok (wrap parameters point) := by
  rw [ofBytes, if_pos (by rw [Vector.length_toList, standard.encodedLength_eq]), decoded]
  exact ofPoint_extended standard names.toProjective

theorem ofBytes_encode (standard : parameters.IsStandard) (named : CurvePoint) :
    ∃ key, ofBytes parameters named.encode.toList = .ok key ∧ key.Names parameters named := by
  obtain ⟨point, decoded, names⟩ := Curve.decodePoint_encode standard.constants named
  exact ⟨wrap parameters point, ofBytes_of_decodePoint standard decoded names,
    wrap_names standard names.toProjective⟩

end PublicKey

section Private

/-- Clamping as a number: bits 3 to 253 are kept, and bit 254 is the only other one. -/
theorem toNat_clamp (bytes : Block 32) :
    (clamp bytes).toNat = 2 ^ 254 + 8 * (bytes.toNat % 2 ^ 254 / 8) := by
  have cleared : ∀ byte : UInt8, (byte &&& 248).toNat = 8 * (byte.toNat / 8) :=
    forall_byte (by decide +kernel)
  have set : ∀ byte : UInt8, ((byte &&& 63) ||| 64).toNat = 64 + byte.toNat % 64 :=
    forall_byte (by decide +kernel)
  have low := bytes.toNat_mapBottom (· &&& 248)
  rw [cleared, Block.toNat_bottom] at low
  rw [clamp, Block.toNat_mapTop, set, Block.toNat_top, low]
  omega

theorem toNat_clamp_lt (bytes : Block 32) : (clamp bytes).toNat < 2 ^ 255 := by
  rw [toNat_clamp]
  omega

namespace PrivateKey

variable {parameters : Parameters F}

structure IsExpanded (key : PrivateKey F) (parameters : Parameters F) : Prop where
  public_names : key.publicKey.Names parameters (key.scalar.toNat • basePoint)

theorem IsExpanded.parameters_eq {key : PrivateKey F} (expanded : key.IsExpanded parameters) :
    key.parameters = parameters := expanded.public_names.parameters_eq

theorem expand_spec (standard : parameters.IsStandard) (seed : Option (Block 32)) {hash : Bytes}
    (length : hash.length = 64) :
    ∃ key, expand parameters seed hash = .ok key ∧ key.IsExpanded parameters := by
  obtain ⟨block, accepted, _⟩ := Block.ofBytes?_of_length length
  obtain ⟨point, multiplied, names⟩ := standard.base_names.multiply (toNat_clamp_lt block.low)
  have wrapped := PublicKey.ofPoint_extended standard names.toProjective
  refine ⟨⟨seed, clampLow block, clamp block.low, .wrap parameters point,
    (low_clampLow block).symm⟩, ?_, ⟨PublicKey.wrap_names standard names.toProjective⟩⟩
  simp only [expand, accepted, multiplied]
  rw [violation_liftM_ok_bind, wrapped]
  rfl

theorem ofSeed_spec (standard : parameters.IsStandard) {seed : Bytes} (length : seed.length = 32) :
    ∃ key, ofSeed parameters seed = .ok key ∧ key.IsExpanded parameters := by
  obtain ⟨block, accepted, _⟩ := Block.ofBytes?_of_length length
  have hashed : (parameters.hash.digest seed).length = 64 := by
    rw [parameters.hash.length_digest, standard.outputSize_eq]
  obtain ⟨key, expanded, facts⟩ := expand_spec standard (some block) hashed
  refine ⟨key, ?_, facts⟩
  simp only [ofSeed, length, standard.encodedLength_eq, accepted, expanded, ↓reduceIte]

theorem ofHash_spec (standard : parameters.IsStandard) {hash : Bytes} (length : hash.length = 64) :
    ∃ key, ofHash parameters hash = .ok key ∧ key.IsExpanded parameters := by
  obtain ⟨key, expanded, facts⟩ := expand_spec standard none length
  refine ⟨key, ?_, facts⟩
  rw [ofHash, if_pos (length.trans standard.signatureLength_eq.symm), expanded]

/-- There are keys over the standard parameters, such as the one of a seed of zeros. -/
theorem exists_zeros (F : Type) [BaseField F] [LawfulBaseField F] :
    ∃ (parameters : Parameters F) (key : PrivateKey F),
      Parameters.standardWith HashAlgorithm.sha512.function .limbs = .ok parameters ∧
      parameters.IsStandard ∧ parameters.scalars.Lawful ∧
      ofSeed parameters (List.replicate 32 0) = .ok key ∧ key.IsExpanded parameters := by
  obtain ⟨parameters, assembled, standard, lawful⟩ := Parameters.exists_standard F
  obtain ⟨key, made, expanded⟩ := ofSeed_spec standard List.length_replicate
  exact ⟨parameters, key, assembled, standard, lawful, made, expanded⟩

end PrivateKey

end Private

end EdwardsSignature
