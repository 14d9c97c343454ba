import Mathlib
import EdwardsSignature.BitField
import EdwardsSignature.Proofs.Bytes

/-! Fields read through windows are digits of the number, and packing them writes it back. -/

set_option autoImplicit false

namespace EdwardsSignature.BitField

theorem toNat_shiftLeft_of_lt {value : UInt64} {amount : Nat} (small : amount < 64)
    (fits : value.toNat * 2 ^ amount < 2 ^ 64) :
    (value <<< UInt64.ofNat amount).toNat = value.toNat * 2 ^ amount := by
  rw [UInt64.toNat_shiftLeft, UInt64.toNat_ofNat', Nat.mod_eq_of_lt (by omega : amount < 2 ^ 64),
    Nat.mod_eq_of_lt small, Nat.shiftLeft_eq, Nat.mod_eq_of_lt fits]

theorem toNat_shiftRight_of_lt (value : UInt64) {amount : Nat} (small : amount < 64) :
    (value >>> UInt64.ofNat amount).toNat = value.toNat / 2 ^ amount := by
  rw [UInt64.toNat_shiftRight, UInt64.toNat_ofNat', Nat.mod_eq_of_lt (by omega : amount < 2 ^ 64),
    Nat.mod_eq_of_lt small, Nat.shiftRight_eq_div_pow]

theorem toNat_or_shiftLeft {low high : UInt64} {amount : Nat} (small : amount < 64)
    (below : low.toNat < 2 ^ amount) (fits : high.toNat * 2 ^ amount < 2 ^ 64) :
    (low ||| (high <<< UInt64.ofNat amount)).toNat = low.toNat + 2 ^ amount * high.toNat := by
  rw [UInt64.toNat_or, toNat_shiftLeft_of_lt small fits, Nat.mul_comm, Nat.lor_comm,
    ← Nat.two_pow_add_eq_or_of_lt below, Nat.add_comm]

theorem toNat_word {count : Nat} (bytes : Bytes) (few : count ≤ 8) :
    (word count bytes).toNat = Bytes.toNat bytes % 256 ^ count := by
  rw [← Bytes.toNat_take]
  induction count generalizing bytes with
  | zero => simp [word, Bytes.toNat]
  | succ count ih =>
      cases bytes with
      | nil => simp [word, Bytes.toNat]
      | cons byte rest =>
          have above := ih rest (by omega)
          have bound := Bytes.toNat_lt (rest.take count)
          have powers : 256 ^ (rest.take count).length ≤ 256 ^ 7 :=
            Nat.pow_le_pow_right (by decide) (by rw [List.length_take]; omega)
          have byteBound := byte.toNat_lt
          have narrow : byte.toUInt64.toNat < 2 ^ 8 := by simpa using byteBound
          have fits : (word count rest).toNat * 2 ^ 8 < 2 ^ 64 := by omega
          have joined := toNat_or_shiftLeft (by decide) narrow fits
          rw [word, List.take_succ_cons, Bytes.toNat]
          refine joined.trans ?_
          rw [above, UInt8.toNat_toUInt64]
          norm_num

theorem toNat_window (bytes : Bytes) (start : Nat) :
    (window bytes start).toNat = Bytes.toNat bytes / 2 ^ start % 2 ^ (64 - start % 8) := by
  have small : start % 8 < 8 := Nat.mod_lt _ (by decide)
  have parts : 2 ^ start = 256 ^ (start / 8) * 2 ^ (start % 8) := by
    have byte : (256 : Nat) = 2 ^ 8 := by norm_num
    rw [byte, ← pow_mul, ← pow_add, Nat.div_add_mod]
  have reach : 256 ^ 8 = 2 ^ (start % 8) * 2 ^ (64 - start % 8) := by
    rw [← pow_add, Nat.add_sub_cancel' (by omega)]
    norm_num
  rw [window, toNat_shiftRight_of_lt _ (by omega), toNat_word _ (by decide), Bytes.toNat_drop,
    reach, Nat.mod_mul_right_div_self, Nat.div_div_eq_div_mul, ← parts]

theorem toNat_field (bytes : Bytes) (start : Nat) {width : Nat} (narrow : width ≤ 57) :
    (field bytes start width).toNat = Bytes.toNat bytes / 2 ^ start % 2 ^ width := by
  have reach : 2 ^ width ∣ 2 ^ (64 - start % 8) := pow_dvd_pow 2 (by omega)
  have power : 2 ^ width ≤ 2 ^ 57 := Nat.pow_le_pow_right (by decide) narrow
  have positive : 0 < 2 ^ width := by positivity
  have mask : ((1 <<< UInt64.ofNat width) - 1 : UInt64).toNat = 2 ^ width - 1 := by
    have fits : (1 : UInt64).toNat * 2 ^ width < 2 ^ 64 := by
      rw [UInt64.toNat_one]
      omega
    have one := toNat_shiftLeft_of_lt (by omega) fits
    rw [UInt64.toNat_one, Nat.one_mul] at one
    have order : (1 : UInt64) ≤ 1 <<< UInt64.ofNat width := by
      rw [UInt64.le_iff_toNat_le, one, UInt64.toNat_one]
      exact positive
    rw [UInt64.toNat_sub_of_le _ _ order, one, UInt64.toNat_one]
  rw [field, UInt64.toNat_and, mask, Nat.and_two_pow_sub_one_eq_mod, toNat_window,
    Nat.mod_mod_of_dvd _ reach]

theorem toNat_toUInt64_of_nonneg {word : Int64} {digit : Int} (stands : word.toInt = digit)
    (nonneg : 0 ≤ digit) : (word.toUInt64.toNat : Int) = digit := by
  have positive : 0 ≤ word := by
    rw [Int64.le_iff_toInt_le, stands]
    exact nonneg
  rw [Int64.toNat_toUInt64_of_le positive, Int64.toNatClampNeg, stands, Int.toNat_of_nonneg nonneg]

/-- The number that consecutive fields write, the first one lowest. -/
def fieldsValue : List (Nat × UInt64) → Nat
  | [] => 0
  | (width, value) :: rest => value.toNat + 2 ^ width * fieldsValue rest

/-- Fields that packing loses no bit of: each within its width, except that the last may
reach into the unused bits of the last byte. -/
def Fits : (held : Nat) → List (Nat × UInt64) → Prop
  | _, [] => True
  | held, [(width, value)] =>
      width ≤ 48 ∧ value.toNat < 2 ^ (8 * ((held + width + 7) / 8) - held)
  | held, (width, value) :: rest =>
      width ≤ 48 ∧ value.toNat < 2 ^ width ∧ Fits ((held + width) % 8) rest

theorem toNat_wordBytes (count : Nat) (value : UInt64) (few : count ≤ 8) :
    Bytes.toNat (wordBytes count value) = value.toNat % 256 ^ count := by
  induction count generalizing value with
  | zero => simp [wordBytes, Bytes.toNat, Nat.mod_one]
  | succ count ih =>
      have above : (value >>> 8).toNat = value.toNat / 2 ^ 8 :=
        toNat_shiftRight_of_lt value (by decide)
      rw [wordBytes, Bytes.toNat, ih _ (by omega), above, UInt64.toNat_toUInt8,
        pow_succ' 256 count, Nat.mod_mul]
      norm_num

theorem toNat_wordBytes_append {value : UInt64} {whole : Nat} (few : whole < 8) (rest : Bytes) :
    Bytes.toNat (wordBytes whole value ++ rest) =
      value.toNat % 2 ^ (8 * whole) + 2 ^ (8 * whole) * Bytes.toNat rest := by
  have power : 256 ^ whole = 2 ^ (8 * whole) := by rw [pow_mul]; norm_num
  rw [Bytes.toNat_append, toNat_wordBytes _ _ (by omega), length_wordBytes, power]

private theorem toNat_pack_nil {pending : UInt64} {held : Nat}
    (small : pending.toNat < 2 ^ (8 * ((held + 7) / 8))) (few : held < 8) :
    Bytes.toNat (pack pending held []) = pending.toNat := by
  unfold pack
  split
  · next none =>
      subst none
      simp only [Nat.zero_add, Nat.reduceDiv, Nat.mul_zero, Nat.pow_zero] at small
      simp only [Bytes.toNat]
      omega
  · next some =>
      have byte : (held + 7) / 8 = 1 := by omega
      rw [byte] at small
      simp only [Bytes.toNat, UInt64.toNat_toUInt8]
      omega

theorem Fits.head {held width : Nat} {value : UInt64} {rest : List (Nat × UInt64)}
    (fits : Fits held ((width, value) :: rest)) :
    width ≤ 48 ∧ value.toNat < 2 ^ (8 * ((held + width + 7) / 8) - held) := by
  cases rest with
  | nil => exact fits
  | cons next others =>
      refine ⟨fits.1, Nat.lt_of_lt_of_le fits.2.1 ?_⟩
      exact Nat.pow_le_pow_right (by decide) (by omega)

/-- The pending bits and a field fill the bytes that they reach into. -/
theorem toNat_gathered {pending value : UInt64} {held width : Nat} (few : held < 8)
    (small : pending.toNat < 2 ^ held) (narrow : width ≤ 48)
    (inside : value.toNat < 2 ^ (8 * ((held + width + 7) / 8) - held)) :
    (pending ||| (value <<< UInt64.ofNat held)).toNat = pending.toNat + 2 ^ held * value.toNat ∧
      pending.toNat + 2 ^ held * value.toNat < 2 ^ (8 * ((held + width + 7) / 8)) := by
  have ceiling : 2 ^ (8 * ((held + width + 7) / 8)) =
      2 ^ held * 2 ^ (8 * ((held + width + 7) / 8) - held) := by
    rw [← pow_add]
    congr 1
    omega
  have bounded : 2 ^ held * (value.toNat + 1) ≤ 2 ^ (8 * ((held + width + 7) / 8)) := by
    rw [ceiling]
    exact Nat.mul_le_mul_left _ inside
  have word : 2 ^ (8 * ((held + width + 7) / 8)) < 2 ^ 64 :=
    Nat.pow_lt_pow_right (by decide) (by omega)
  rw [Nat.mul_add, Nat.mul_one] at bounded
  have fits : value.toNat * 2 ^ held < 2 ^ 64 := by
    rw [Nat.mul_comm]
    omega
  exact ⟨toNat_or_shiftLeft (by omega) small fits, by omega⟩

theorem toNat_pack {pending : UInt64} {held : Nat} {fields : List (Nat × UInt64)}
    (few : held < 8) (small : pending.toNat < 2 ^ held) (fits : Fits held fields) :
    Bytes.toNat (pack pending held fields) = pending.toNat + 2 ^ held * fieldsValue fields := by
  induction fields generalizing pending held with
  | nil =>
      have le : 2 ^ held ≤ 2 ^ (8 * ((held + 7) / 8)) :=
        Nat.pow_le_pow_right (by decide) (by omega)
      rw [toNat_pack_nil (by omega) few, fieldsValue, Nat.mul_zero, Nat.add_zero]
  | cons field rest ih =>
      obtain ⟨width, value⟩ := field
      obtain ⟨narrow, inside⟩ := fits.head
      obtain ⟨gathered, bounded⟩ := toNat_gathered few small narrow inside
      have shifted := toNat_shiftRight_of_lt (pending ||| (value <<< UInt64.ofNat held))
        (by omega : 8 * ((held + width) / 8) < 64)
      have left_few : (held + width) % 8 < 8 := Nat.mod_lt _ (by decide)
      rw [pack, toNat_wordBytes_append (by omega)]
      cases rest with
      | nil =>
          have whole : 8 * ((held + width) / 8) + 8 * (((held + width) % 8 + 7) / 8) =
              8 * ((held + width + 7) / 8) := by omega
          rw [← gathered, ← whole, pow_add] at bounded
          have left_small := Nat.div_lt_of_lt_mul bounded
          rw [← shifted] at left_small
          rw [toNat_pack_nil left_small left_few, shifted, Nat.mod_add_div, gathered]
          simp only [fieldsValue, Nat.mul_zero, Nat.add_zero]
      | cons next others =>
          have split : 2 ^ (held + width) =
              2 ^ (8 * ((held + width) / 8)) * 2 ^ ((held + width) % 8) := by
            rw [← pow_add, Nat.div_add_mod]
          have room : 2 ^ held * (value.toNat + 1) ≤ 2 ^ held * 2 ^ width :=
            Nat.mul_le_mul_left _ fits.2.1
          rw [Nat.mul_add, Nat.mul_one, ← pow_add] at room
          have filled : (pending ||| (value <<< UInt64.ofNat held)).toNat < 2 ^ (held + width) := by
            omega
          rw [split] at filled
          have left_small := Nat.div_lt_of_lt_mul filled
          rw [← shifted] at left_small
          have above := ih left_few left_small fits.2.2
          have unfolded : fieldsValue ((width, value) :: next :: others) =
              value.toNat + 2 ^ width * fieldsValue (next :: others) := rfl
          rw [above, shifted, Nat.mul_add, ← Nat.add_assoc, Nat.mod_add_div, ← Nat.mul_assoc,
            ← split, gathered, unfolded, pow_add]
          ring

end EdwardsSignature.BitField
