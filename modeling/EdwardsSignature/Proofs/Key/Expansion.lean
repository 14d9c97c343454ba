import Mathlib
import EdwardsSignature.Field.LimbElement
import EdwardsSignature.Proofs.Field.LimbElement
import EdwardsSignature.Proofs.Session.Answers
import EdwardsSignature.Proofs.Session.Isolation

/-! Private keys are settled by what clamping leaves of a seed's hash.

A seed is expanded through its hash, so the key of a seed is the key of that hash. A key stores the
clamped hash, and clamping changes nothing the second time, so the key can be made again from what
it stores. -/

set_option autoImplicit false

namespace EdwardsSignature

open Parameters (standardWith)

section Bits

theorem div_eq_iff_testBit (first second low : Nat) :
    first / 2 ^ low = second / 2 ^ low ↔
      ∀ index, low ≤ index → first.testBit index = second.testBit index := by
  constructor
  · intro same index above
    have bits := congrArg (Nat.testBit · (index - low)) same
    simpa only [Nat.testBit_div_two_pow, Nat.sub_add_cancel above] using bits
  · intro agree
    apply Nat.eq_of_testBit_eq
    intro index
    rw [Nat.testBit_div_two_pow, Nat.testBit_div_two_pow]
    exact agree (index + low) (Nat.le_add_left low index)

theorem field_eq_iff_testBit (first second high low : Nat) :
    first % 2 ^ high / 2 ^ low = second % 2 ^ high / 2 ^ low ↔
      ∀ index, low ≤ index → index < high → first.testBit index = second.testBit index := by
  rw [div_eq_iff_testBit]
  refine forall₂_congr fun index _ => ?_
  rw [Nat.testBit_mod_two_pow, Nat.testBit_mod_two_pow]
  by_cases below : index < high <;> simp [below]

end Bits

section Clamping

/-- The bits of a hash that clamping sets to values of its own. -/
def clampedBits : List Nat := [0, 1, 2, 254, 255]

theorem clamp_clamp (bytes : Block 32) : clamp (clamp bytes) = clamp bytes := by
  apply Block.toNat_injective
  rw [toNat_clamp, toNat_clamp]
  omega

/-- A clamped scalar is a multiple of the cofactor in the upper half of its range. -/
theorem clamp_bounds (bytes : Block 32) :
    8 ∣ (clamp bytes).toNat ∧ 2 ^ 254 ≤ (clamp bytes).toNat ∧ (clamp bytes).toNat < 2 ^ 255 := by
  rw [toNat_clamp]
  omega

namespace Block

theorem toNat_low (block : Block 64) : block.low.toNat = block.toNat % 2 ^ 256 := by
  rw [toNat, toList_low, Bytes.toNat_take, toNat]
  norm_num

theorem toNat_high (block : Block 64) : block.high.toNat = block.toNat / 2 ^ 256 := by
  rw [toNat, toList_high, Bytes.toNat_drop, toNat]
  norm_num

theorem toNat_append (left right : Block 32) :
    @toNat 64 (left ++ right) = left.toNat + 2 ^ 256 * right.toNat := by
  rw [toNat, Vector.toList_append, Bytes.toNat_append, Vector.length_toList]
  rfl

end Block

namespace PrivateKey

theorem clampLow_clampLow (hash : Block 64) : clampLow (clampLow hash) = clampLow hash := by
  rw [clampLow, low_clampLow, high_clampLow, clamp_clamp, clampLow]

theorem toNat_clampLow (hash : Block 64) :
    (clampLow hash).toNat =
      2 ^ 254 + 8 * (hash.toNat % 2 ^ 254 / 8) + 2 ^ 256 * (hash.toNat / 2 ^ 256) := by
  rw [clampLow, Block.toNat_append, toNat_clamp, Block.toNat_low, Block.toNat_high]
  omega

theorem clampLow_eq_iff_fields (first second : Block 64) :
    clampLow first = clampLow second ↔
      first.toNat % 2 ^ 254 / 2 ^ 3 = second.toNat % 2 ^ 254 / 2 ^ 3 ∧
        first.toNat / 2 ^ 256 = second.toNat / 2 ^ 256 := by
  constructor
  · intro same
    have numbers := congrArg Block.toNat same
    rw [toNat_clampLow, toNat_clampLow] at numbers
    omega
  · rintro ⟨low, high⟩
    apply Block.toNat_injective
    rw [toNat_clampLow, toNat_clampLow]
    omega

/-- Clamping forgets its own bits and no others. -/
theorem clampLow_eq_iff (first second : Block 64) :
    clampLow first = clampLow second ↔
      ∀ index, index ∉ clampedBits → first.toNat.testBit index = second.toNat.testBit index := by
  rw [clampLow_eq_iff_fields, field_eq_iff_testBit, div_eq_iff_testBit]
  constructor
  · rintro ⟨low, high⟩ index kept
    simp only [clampedBits, List.mem_cons, List.not_mem_nil] at kept
    by_cases above : 256 ≤ index
    · exact high index above
    · exact low index (by omega) (by omega)
  · intro agree
    constructor
    · intro index above below
      apply agree
      simp only [clampedBits, List.mem_cons, List.not_mem_nil, or_false]
      omega
    · intro index above
      apply agree
      simp only [clampedBits, List.mem_cons, List.not_mem_nil, or_false]
      omega

end PrivateKey

end Clamping

variable {F : Type} [BaseField F]

namespace PrivateKey

variable {parameters : Parameters F} {key : PrivateKey F}

section Expansion

/-- The seed is kept, and has no other part in the expansion of its hash. -/
theorem expand_reseed {seed : Option (Block 32)} {hash : Bytes}
    (made : expand parameters seed hash = .ok key) (other : Option (Block 32)) :
    expand parameters other hash = .ok { key with seed := other } := by
  unfold expand at made ⊢
  split at made
  · contradiction
  · rename_i block accepted
    obtain ⟨point, multiplied, made⟩ := exists_ok_of_bind made
    obtain ⟨publicKey, wrapped, made⟩ := exists_ok_of_bind made
    obtain rfl := Except.ok.inj made
    dsimp only
    rw [multiplied]
    change (PublicKey.ofPoint parameters (.extended point) >>= fun publicKey =>
      Except.ok (⟨other, clampLow block, clamp block.low, publicKey,
        (low_clampLow block).symm⟩ : PrivateKey F)) = _
    rw [wrapped]
    rfl

theorem expand_eq_of_clampLow_eq {first second : Block 64}
    (same : clampLow first = clampLow second) (seed : Option (Block 32)) :
    expand parameters seed first.toList = expand parameters seed second.toList := by
  have scalar_eq : clamp first.low = clamp second.low := by
    rw [← low_clampLow, same, low_clampLow]
  simp only [expand, Block.ofBytes?_toList, same, scalar_eq]

/-- What a key stores expands to the key. -/
theorem IsMade.expand_hash (made : key.IsMade) :
    expand key.parameters none key.hash.toList = .ok { key with seed := none } := by
  obtain ⟨_, seed, hash, _, expanded⟩ := made.exists_expand
  obtain ⟨block, rfl, _, stored, _⟩ := expand_ok expanded
  have unseeded := expand_reseed expanded none
  rwa [← expand_eq_of_clampLow_eq (clampLow_clampLow block), ← stored] at unseeded

theorem equal_iff (left right : PrivateKey F) :
    left.equal right = true ↔ left.hash = right.hash := by
  rw [equal, BranchFree.equal_iff, Vector.toList_inj]

/-- Signing does not look at the seed. -/
theorem answers_reseed (key : PrivateKey F) (seed : Option (Block 32)) (message : Bytes)
    (outcome : Except Failure Signature) :
    PrivateKey.Answers { key with seed := seed } message outcome ↔
      key.Answers message outcome := by
  rw [answers_iff, answers_iff]
  rfl

end Expansion

variable [LawfulBaseField F]

section Standard

theorem ofHash_toList (standard : parameters.IsStandard) (hash : Block 64) :
    ofHash parameters hash.toList = expand parameters none hash.toList := by
  rw [ofHash, if_pos (by rw [Vector.length_toList, standard.signatureLength_eq])]

theorem ofHash_of_length_ne (standard : parameters.IsStandard) {hash : Bytes}
    (different : hash.length ≠ 64) :
    ofHash parameters hash = .error (.rejected (.invalidHashLength 64 hash.length)) := by
  rw [ofHash, standard.signatureLength_eq, if_neg different]

theorem ofSeed_of_length_ne (standard : parameters.IsStandard) {seed : Bytes}
    (different : seed.length ≠ 32) :
    ofSeed parameters seed = .error (.rejected (.invalidSeedLength 32 seed.length)) := by
  simp only [ofSeed, standard.encodedLength_eq, if_neg different]

/-- The key of a hash holds its clamped low half as the scalar, and the rest of it as it is. -/
theorem ofHash_clamped (standard : parameters.IsStandard) (hash : Block 64) :
    ∃ key, ofHash parameters hash.toList = .ok key ∧ key.seed = none ∧
      key.hash = clamp hash.low ++ hash.high ∧ key.IsExpanded parameters := by
  have length : hash.toList.length = 64 := Vector.length_toList
  obtain ⟨key, made, expanded⟩ := ofHash_spec standard length
  obtain ⟨block, exact, unseeded, stored, _⟩ :=
    expand_ok ((ofHash_toList standard hash).symm.trans made)
  obtain rfl := Vector.toList_inj.mp exact
  exact ⟨key, made, unseeded, stored, expanded⟩

/-- The key of a seed is the key of the seed's hash. -/
theorem ofSeed_eq_ofHash (standard : parameters.IsStandard) (seed : Block 32) :
    ∃ key, ofHash parameters (parameters.hash.digest seed.toList) = .ok key ∧
      ofSeed parameters seed.toList = .ok { key with seed := some seed } := by
  have length : (parameters.hash.digest seed.toList).length = 64 := by
    rw [parameters.hash.length_digest, standard.outputSize_eq]
  obtain ⟨block, _, exact⟩ := Block.ofBytes?_of_length length
  obtain ⟨key, made, _⟩ := ofHash_spec standard length
  refine ⟨key, made, ?_⟩
  rw [← exact, ofHash_toList standard, exact] at made
  simp only [ofSeed, Vector.length_toList, standard.encodedLength_eq, ↓reduceIte,
    Block.ofBytes?_toList]
  exact expand_reseed made (some seed)

end Standard

/-- Over the standard parameters every hash of 64 bytes and every seed of 32 bytes makes a key, and
no other length does. The scalar is the clamped low half of the hash, the nonce key its high half,
and the public key the scalar's multiple of the base point. The key of a seed is the key of its
hash but for the seed, which signing does not look at; what a key stores makes the key again; and
hashes make equal keys when they agree outside the bits that clamping sets. -/
theorem expansion_exact (hash : HashFunction) (scalars : ScalarArithmetic)
    (sha512 : hash.algorithm = .sha512) :
    ∃ parameters : Parameters F, standardWith hash scalars = .ok parameters ∧
      (∀ block : Block 64, ∃ key, ofHash parameters block.toList = .ok key ∧
        key.seed = none ∧ key.scalar = clamp block.low ∧ key.nonceKey = block.high ∧
        key.hash = key.scalar ++ key.nonceKey ∧
        key.publicKey.encoding = (key.scalar.toNat • basePoint).encode) ∧
      (∀ seed : Block 32, ∃ key, ofHash parameters (hash.digest seed.toList) = .ok key ∧
        ofSeed parameters seed.toList = .ok { key with seed := some seed } ∧
        ∀ message outcome, PrivateKey.Answers { key with seed := some seed } message outcome ↔
          key.Answers message outcome) ∧
      (∀ bytes : Block 32, 8 ∣ (clamp bytes).toNat ∧ 2 ^ 254 ≤ (clamp bytes).toNat ∧
        (clamp bytes).toNat < 2 ^ 255 ∧ clamp (clamp bytes) = clamp bytes) ∧
      (∀ key, PrivateKey.IsMade key → key.parameters = parameters →
        ∃ again, ofHash parameters key.hash.toList = .ok again ∧ again.equal key = true ∧
          again = { key with seed := none }) ∧
      (∀ first second : Block 64, ∃ key other, ofHash parameters first.toList = .ok key ∧
        ofHash parameters second.toList = .ok other ∧
        (key.equal other = true ↔ ∀ index, index ∉ clampedBits →
          first.toNat.testBit index = second.toNat.testBit index)) ∧
      (∀ seed : Bytes, seed.length ≠ 32 →
        ofSeed parameters seed = .error (.rejected (.invalidSeedLength 32 seed.length))) ∧
      ∀ bytes : Bytes, bytes.length ≠ 64 →
        ofHash parameters bytes = .error (.rejected (.invalidHashLength 64 bytes.length)) := by
  obtain ⟨parameters, assembled, standard, rfl, _⟩ :=
    Parameters.standardWith_spec (F := F) scalars sha512
  refine ⟨parameters, assembled, ?_, ?_, ?_, ?_, ?_, fun seed => ofSeed_of_length_ne standard,
    fun bytes => ofHash_of_length_ne standard⟩
  · intro block
    obtain ⟨key, made, unseeded, stored, expanded⟩ := ofHash_clamped standard block
    have scalar_eq : key.scalar = clamp block.low := by
      rw [key.scalar_eq, stored, Block.low_append]
    have nonceKey_eq : key.nonceKey = block.high := by
      rw [nonceKey, stored, Block.high_append]
    refine ⟨key, made, unseeded, scalar_eq, nonceKey_eq, ?_, expanded.public_names.encoding_eq⟩
    rw [scalar_eq, nonceKey_eq, stored]
  · intro seed
    obtain ⟨key, made, seeded⟩ := ofSeed_eq_ofHash standard seed
    exact ⟨key, made, seeded, key.answers_reseed (some seed)⟩
  · intro bytes
    obtain ⟨multiple, low, high⟩ := clamp_bounds bytes
    exact ⟨multiple, low, high, clamp_clamp bytes⟩
  · rintro key made rfl
    refine ⟨{ key with seed := none }, ?_, (equal_iff _ _).mpr rfl, rfl⟩
    rw [ofHash_toList standard]
    exact made.expand_hash
  · intro first second
    obtain ⟨key, made, _, stored, _⟩ := ofHash_clamped standard first
    obtain ⟨other, other_made, _, other_stored, _⟩ := ofHash_clamped standard second
    refine ⟨key, other, made, other_made, ?_⟩
    rw [equal_iff, stored, other_stored]
    exact clampLow_eq_iff first second

/-- A seed of zeros, a seed of one byte, and two hashes that differ in all five bits. -/
theorem expansion_exact_zeros :
    let set := Block.ofNat 64 (7 + 2 ^ 254 + 2 ^ 255)
    let unset := Block.ofNat 64 0
    ∃ (parameters : Parameters LimbElement) (key : PrivateKey LimbElement),
      standardWith HashAlgorithm.sha512.function .limbs = .ok parameters ∧
      ofSeed parameters (List.replicate 32 0) = .ok key ∧
      (∃ again, ofHash parameters key.hash.toList = .ok again ∧ again.equal key = true) ∧
      (∃ first second, ofHash parameters set.toList = .ok first ∧
        ofHash parameters unset.toList = .ok second ∧ set ≠ unset ∧
        first.equal second = true) ∧
      ofSeed parameters [0] = .error (.rejected (.invalidSeedLength 32 1)) := by
  intro set unset
  obtain ⟨parameters, assembled, _, _, _, stored, hashes, lengths, _⟩ :=
    expansion_exact (F := LimbElement) _ .limbs (HashAlgorithm.algorithm_function .sha512)
  obtain ⟨others, key, same, _, lawful, made, expanded⟩ := exists_zeros LimbElement
  obtain rfl := Except.ok.inj (assembled.symm.trans same)
  obtain ⟨again, remade, equal, _⟩ := stored key (.ofSeed lawful made) expanded.parameters_eq
  obtain ⟨first, second, first_made, second_made, equal_iff⟩ := hashes set unset
  have set_number : set.toNat = 7 + 2 ^ 254 + 2 ^ 255 := Block.toNat_ofNat_of_lt (by decide)
  have unset_number : unset.toNat = 0 := Block.toNat_ofNat_of_lt (by decide)
  have different : set ≠ unset := by
    intro agree
    rw [agree, unset_number] at set_number
    omega
  have clamped : clampLow set = clampLow unset := by
    rw [clampLow_eq_iff_fields, set_number, unset_number]
    decide
  exact ⟨parameters, key, assembled, made, ⟨again, remade, equal⟩,
    ⟨first, second, first_made, second_made, different,
      equal_iff.mpr ((clampLow_eq_iff set unset).mp clamped)⟩,
    lengths [0] (by decide)⟩

end PrivateKey

end EdwardsSignature
