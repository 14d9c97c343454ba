import Mathlib
import EdwardsSignature.Bytes

/-! Bytes and bits of a byte string as digits of the number that it writes. -/

set_option autoImplicit false

namespace EdwardsSignature

/-- What all numbers of eight bits have, all bytes have; for facts that are evaluated. -/
theorem forall_byte {motive : UInt8 → Prop} (each : ∀ number : Fin 256, motive (.ofFin number))
    (byte : UInt8) : motive byte := by
  have applied := each byte.toFin
  rwa [UInt8.ofFin_toFin] at applied

/-- A number that is written digit by digit, in any base, is the sum over its places. -/
theorem written_eq_sum {α : Type} {written : List α → Int} (value : α → Int) (base : Int)
    (zero : α) (nil : written [] = 0)
    (cons : ∀ digit rest, written (digit :: rest) = value digit + base * written rest)
    (digits : List α) :
    written digits =
      ∑ place ∈ Finset.range digits.length, value (digits.getD place zero) * base ^ place := by
  induction digits with
  | nil => exact nil
  | cons digit rest ih =>
      rw [cons, ih, List.length_cons, Finset.sum_range_succ', Finset.mul_sum]
      simp only [List.getD_cons_succ, List.getD_cons_zero, pow_zero, mul_one]
      rw [add_comm]
      congr 1
      apply Finset.sum_congr rfl
      intro place _
      ring

namespace Bytes

theorem toNat_getElem (bytes : Bytes) (index : Nat) (inside : index < bytes.length) :
    bytes[index].toNat = toNat bytes / 256 ^ index % 256 := by
  induction bytes generalizing index with
  | nil => simp at inside
  | cons byte rest ih =>
      have bound := byte.toNat_lt
      cases index with
      | zero =>
          simp only [List.getElem_cons_zero, toNat, Nat.pow_zero, Nat.div_one]
          omega
      | succ index =>
          have above : (byte.toNat + 256 * toNat rest) / 256 = toNat rest := by omega
          rw [List.getElem_cons_succ, ih, toNat, Nat.pow_succ, Nat.mul_comm (256 ^ index),
            ← Nat.div_div_eq_div_mul, above]

theorem toNat_set (bytes : Bytes) (index : Nat) (byte : UInt8) (inside : index < bytes.length) :
    toNat (bytes.set index byte) + 256 ^ index * bytes[index].toNat =
      toNat bytes + 256 ^ index * byte.toNat := by
  induction bytes generalizing index with
  | nil => simp at inside
  | cons first rest ih =>
      cases index with
      | zero =>
          simp only [List.set_cons_zero, List.getElem_cons_zero, toNat, Nat.pow_zero, Nat.one_mul]
          omega
      | succ index =>
          have shifted := ih index (by simpa using inside)
          simp only [List.set_cons_succ, List.getElem_cons_succ, toNat, Nat.pow_succ]
          have weight : ∀ digit, 256 ^ index * 256 * digit = 256 * (256 ^ index * digit) :=
            fun digit => by ring
          rw [weight, weight]
          omega

theorem toNat_take (bytes : Bytes) (count : Nat) :
    toNat (bytes.take count) = toNat bytes % 256 ^ count := by
  have parts := toNat_append (bytes.take count) (bytes.drop count)
  rw [List.take_append_drop] at parts
  by_cases short : bytes.length ≤ count
  · rw [List.take_of_length_le short, Nat.mod_eq_of_lt]
    exact Nat.lt_of_lt_of_le (toNat_lt bytes) (Nat.pow_le_pow_right (by decide) short)
  · have exact : (bytes.take count).length = count := by
      rw [List.length_take]
      omega
    have bound := toNat_lt (bytes.take count)
    rw [exact] at parts bound
    rw [parts, Nat.add_mul_mod_self_left, Nat.mod_eq_of_lt bound]

theorem toNat_drop (bytes : Bytes) (count : Nat) :
    toNat (bytes.drop count) = toNat bytes / 256 ^ count := by
  have parts := toNat_append (bytes.take count) (bytes.drop count)
  rw [List.take_append_drop] at parts
  by_cases short : bytes.length ≤ count
  · rw [List.drop_of_length_le short, toNat, Nat.div_eq_of_lt]
    exact Nat.lt_of_lt_of_le (toNat_lt bytes) (Nat.pow_le_pow_right (by decide) short)
  · have exact : (bytes.take count).length = count := by
      rw [List.length_take]
      omega
    have bound := toNat_lt (bytes.take count)
    rw [exact] at parts bound
    rw [parts, Nat.add_mul_div_left _ _ (by positivity), Nat.div_eq_of_lt bound, Nat.zero_add]

end Bytes

/-- The number that bits write, least significant bit first. -/
def bitsValue : List Bool → Nat
  | [] => 0
  | bit :: rest => bit.toNat + 2 * bitsValue rest

theorem bitsValue_append (low high : List Bool) :
    bitsValue (low ++ high) = bitsValue low + 2 ^ low.length * bitsValue high := by
  induction low with
  | nil => simp [bitsValue]
  | cons bit rest ih =>
      simp only [List.cons_append, bitsValue, ih, List.length_cons, Nat.pow_succ]
      ring

theorem bitsValue_testBits (count value : Nat) :
    bitsValue ((List.range count).map value.testBit) = value % 2 ^ count := by
  induction count with
  | zero => simp [bitsValue, Nat.mod_one]
  | succ count ih =>
      rw [List.range_succ, List.map_append, bitsValue_append, ih, List.length_map,
        List.length_range, Nat.mod_pow_succ]
      simp [bitsValue, Nat.toNat_testBit]

theorem Bytes.bitsValue_bits (bytes : Bytes) : bitsValue bytes.bits = toNat bytes := by
  induction bytes with
  | nil => rfl
  | cons byte rest ih =>
      have bound := byte.toNat_lt
      simp only [bits] at ih
      rw [bits, List.flatMap_cons, bitsValue_append, ih, bitsValue_testBits, List.length_map,
        List.length_range, toNat, Nat.mod_eq_of_lt bound]
      rfl

theorem Bytes.length_bits (bytes : Bytes) : bytes.bits.length = 8 * bytes.length := by
  induction bytes with
  | nil => rfl
  | cons byte rest ih =>
      simp only [bits] at ih
      simp only [bits, List.flatMap_cons, List.length_append, List.length_map, List.length_range,
        List.length_cons, ih]
      omega

namespace Block

theorem toNat_ofNat_of_lt {count value : Nat} (fits : value < 256 ^ count) :
    (ofNat count value).toNat = value := by
  rw [toNat_ofNat, Nat.mod_eq_of_lt fits]

theorem toNat_injective {count : Nat} {left right : Block count}
    (same : left.toNat = right.toNat) : left = right := by
  rw [← ofNat_toNat left, same, ofNat_toNat]

@[simp] theorem ofBytes?_toList {count : Nat} (block : Block count) :
    ofBytes? count block.toList = some block := by
  simp [ofBytes?, Vector.toList]

theorem ofBytes?_of_length {count : Nat} {bytes : Bytes} (exact : bytes.length = count) :
    ∃ block : Block count, ofBytes? count bytes = some block ∧ block.toList = bytes := by
  cases found : ofBytes? count bytes with
  | none => exact absurd exact (ofBytes?_eq_none_iff.mp found)
  | some block => exact ⟨block, rfl, toList_of_ofBytes? found⟩

theorem toNat_bottom (block : Block 32) : block.bottom.toNat = block.toNat % 256 := by
  have digit := Bytes.toNat_getElem block.toList 0 (by simp)
  rw [Vector.getElem_toList, Nat.pow_zero, Nat.div_one] at digit
  exact digit

theorem toNat_mapBottom (change : UInt8 → UInt8) (block : Block 32) :
    (block.mapBottom change).toNat = 256 * (block.toNat / 256) + (change block.bottom).toNat := by
  have changed := Bytes.toNat_set block.toList 0 (change block.bottom) (by simp)
  have digit := block.toNat_bottom
  rw [Vector.getElem_toList] at changed
  rw [bottom] at digit
  rw [digit] at changed
  simp only [mapBottom, toNat, Vector.toList_set] at changed digit ⊢
  omega

theorem toNat_top (block : Block 32) : block.top.toNat = block.toNat / 2 ^ 248 := by
  have bound := block.toNat_lt
  have digit := Bytes.toNat_getElem block.toList 31 (by simp)
  rw [Vector.getElem_toList] at digit
  rw [top, digit, toNat, Nat.mod_eq_of_lt]
  · norm_num
  · rw [toNat] at bound
    omega

theorem toNat_mapTop (change : UInt8 → UInt8) (block : Block 32) :
    (block.mapTop change).toNat = block.toNat % 2 ^ 248 + 2 ^ 248 * (change block.top).toNat := by
  have changed := Bytes.toNat_set block.toList 31 (change block.top) (by simp)
  have digit := block.toNat_top
  rw [Vector.getElem_toList] at changed
  rw [top] at digit
  rw [digit] at changed
  simp only [mapTop, toNat, Vector.toList_set] at changed digit ⊢
  omega

end Block

end EdwardsSignature
