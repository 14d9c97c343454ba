import Mathlib
import EdwardsSignature.Field.Parameters
import EdwardsSignature.Proofs.Bytes

/-! The exponents that a field's description derives from its modulus, for any modulus bytes.

A borrow that runs out of the highest byte is lost, so the subtraction is one modulo the power of
256 that belongs to the length. -/

set_option autoImplicit false

namespace EdwardsSignature.FieldParameters

/-- One byte of the subtraction: what it cannot pay becomes a borrow of one from the next. -/
theorem toNat_sub_add_borrow (byte borrow : UInt8) :
    (byte - borrow).toNat + borrow.toNat =
      byte.toNat + 256 * (if byte < borrow then 1 else 0 : UInt8).toNat := by
  have small := borrow.toNat_lt
  have bound := byte.toNat_lt
  rw [UInt8.toNat_sub]
  by_cases borrows : byte < borrow
  · rw [if_pos borrows, UInt8.toNat_one]
    rw [UInt8.lt_iff_toNat_lt] at borrows
    omega
  · rw [if_neg borrows, UInt8.toNat_zero]
    rw [UInt8.lt_iff_toNat_lt] at borrows
    omega

/-- All that can go wrong with a borrow is that the bytes end before it is paid. -/
theorem exists_lost_borrow (borrow : UInt8) (bytes : Bytes) :
    ∃ lost, Bytes.toNat (subtractSmall borrow bytes) + borrow.toNat =
      Bytes.toNat bytes + 256 ^ bytes.length * lost := by
  -- The first borrow is any byte and the later ones are at most one: the statement is for all of them.
  induction bytes generalizing borrow with
  | nil => exact ⟨borrow.toNat, by simp [subtractSmall, Bytes.toNat]⟩
  | cons byte rest ih =>
      have column := toNat_sub_add_borrow byte borrow
      obtain ⟨lost, above⟩ := ih (if byte < borrow then 1 else 0)
      refine ⟨lost, ?_⟩
      rw [subtractSmall, Bytes.toNat, Bytes.toNat, List.length_cons, pow_succ']
      linear_combination column + 256 * above

theorem toNat_subtractSmall (borrow : UInt8) (bytes : Bytes) :
    (Bytes.toNat (subtractSmall borrow bytes) : Int) =
      ((Bytes.toNat bytes : Int) - borrow.toNat) % 256 ^ bytes.length := by
  obtain ⟨lost, paid⟩ := exists_lost_borrow borrow bytes
  have bound := Bytes.toNat_lt (subtractSmall borrow bytes)
  rw [length_subtractSmall] at bound
  have difference : (Bytes.toNat bytes : Int) - borrow.toNat =
      Bytes.toNat (subtractSmall borrow bytes) + 256 ^ bytes.length * -(lost : Int) := by
    zify at paid
    linear_combination -paid
  rw [difference, Int.add_mul_emod_self_left,
    Int.emod_eq_of_lt (Int.natCast_nonneg _) (by exact_mod_cast bound)]

example : subtractSmall 5 [4, 0, 0] = [255, 255, 255] := by decide

/-- Three bits of the next byte come down into the place that a byte's own leave. -/
theorem toNat_shiftedByte (byte next : UInt8) :
    ((byte >>> 3) ||| (next <<< 5)).toNat = byte.toNat / 8 + 32 * (next.toNat % 8) := by
  have bound := byte.toNat_lt
  have below : byte.toNat / 8 < 2 ^ 5 := by omega
  have high : next.toNat * 2 ^ 5 % 2 ^ 8 = 2 ^ 5 * (next.toNat % 8) := by omega
  have low : (byte >>> 3).toNat = byte.toNat / 8 := by
    rw [UInt8.toNat_shiftRight, Nat.shiftRight_eq_div_pow]
    rfl
  have moved : (next <<< 5).toNat = next.toNat * 2 ^ 5 % 2 ^ 8 := by
    rw [UInt8.toNat_shiftLeft, Nat.shiftLeft_eq]
    rfl
  rw [UInt8.toNat_or, low, moved, high, Nat.lor_comm, ← Nat.two_pow_add_eq_or_of_lt below]
  omega

theorem toNat_shiftRight3 (bytes : Bytes) :
    Bytes.toNat (shiftRight3 bytes) = Bytes.toNat bytes / 8 := by
  induction bytes with
  | nil => rfl
  | cons byte rest ih =>
      have low : Bytes.toNat rest % 8 = (rest.headD 0).toNat % 8 := by
        cases rest with
        | nil => rfl
        | cons next rest =>
            simp only [Bytes.toNat, List.headD_cons]
            omega
      rw [shiftRight3, Bytes.toNat, ih, toNat_shiftedByte, Bytes.toNat]
      omega

section Exponents

variable (parameters : FieldParameters)

/-- The wrapped difference from which an exponent is made. -/
theorem toNat_subtractSmall_modulus (borrow : UInt8) :
    (Bytes.toNat (subtractSmall borrow parameters.modulus.toList) : Int) =
      ((parameters.modulus.toNat : Int) - borrow.toNat) % 2 ^ 256 := by
  have wrapped := toNat_subtractSmall borrow parameters.modulus.toList
  rw [Vector.length_toList] at wrapped
  exact wrapped.trans (by norm_num [Block.toNat])

theorem inversionExponent_emod :
    (parameters.inversionExponent.toNat : Int) =
      ((parameters.modulus.toNat : Int) - 2) % 2 ^ 256 :=
  parameters.toNat_subtractSmall_modulus 2

theorem rootExponent_emod :
    (parameters.rootExponent.toNat : Int) =
      ((parameters.modulus.toNat : Int) - 5) % 2 ^ 256 / 8 := by
  have shifted := toNat_shiftRight3 (subtractSmall 5 parameters.modulus.toList)
  have subtracted := parameters.toNat_subtractSmall_modulus 5
  calc (parameters.rootExponent.toNat : Int)
      = (Bytes.toNat (subtractSmall 5 parameters.modulus.toList) : Int) / 8 := by
        exact_mod_cast shifted
    _ = ((parameters.modulus.toNat : Int) - 5) % 2 ^ 256 / 8 := by
        rw [subtracted]
        rfl

theorem toNat_inversionExponent (large : 2 ≤ parameters.modulus.toNat) :
    parameters.inversionExponent.toNat = parameters.modulus.toNat - 2 := by
  have bound := parameters.modulus.toNat_lt
  have wrapped := parameters.inversionExponent_emod
  omega

theorem toNat_rootExponent (large : 5 ≤ parameters.modulus.toNat) :
    parameters.rootExponent.toNat = (parameters.modulus.toNat - 5) / 8 := by
  have bound := parameters.modulus.toNat_lt
  have wrapped := parameters.rootExponent_emod
  omega

end Exponents

theorem ofBytes_toList (width : Nat) (modulus : Block 32) :
    ofBytes width modulus.toList = .ok ⟨width, modulus⟩ := by
  rw [ofBytes, Block.ofBytes?_toList]

theorem ofBytes_eq_error_iff (width : Nat) (bytes : Bytes) (cause : Rejection) :
    ofBytes width bytes = .error cause ↔
      bytes.length ≠ 32 ∧ cause = .invalidLength 32 bytes.length := by
  rw [← Block.ofBytes?_eq_none_iff, ofBytes]
  cases Block.ofBytes? 32 bytes with
  | none =>
      simp only [Except.error.injEq, true_and]
      exact eq_comm
  | some modulus => exact iff_of_false nofun nofun

/-- Any 32 bytes describe a field of any width. Its exponents are the modulus less two and an
eighth of the modulus less five, where both differences wrap around at `2 ^ 256`. Bytes of
another length are refused. -/
theorem exponents_exact (width : Nat) :
    (∀ modulus : Block 32, ∃ parameters,
      ofBytes width modulus.toList = .ok parameters ∧
      parameters.width = width ∧ parameters.modulus = modulus ∧
      (parameters.inversionExponent.toNat : Int) = ((modulus.toNat : Int) - 2) % 2 ^ 256 ∧
      (parameters.rootExponent.toNat : Int) = ((modulus.toNat : Int) - 5) % 2 ^ 256 / 8) ∧
    ∀ (bytes : Bytes) (cause : Rejection), ofBytes width bytes = .error cause ↔
      bytes.length ≠ 32 ∧ cause = .invalidLength 32 bytes.length := by
  constructor
  · intro modulus
    let parameters : FieldParameters := ⟨width, modulus⟩
    exact ⟨parameters, ofBytes_toList width modulus, rfl, rfl,
      parameters.inversionExponent_emod, parameters.rootExponent_emod⟩
  · exact ofBytes_eq_error_iff width

end EdwardsSignature.FieldParameters
