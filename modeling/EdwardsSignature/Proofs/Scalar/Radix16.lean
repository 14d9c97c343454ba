import Mathlib
import EdwardsSignature.Limb.Lawful
import EdwardsSignature.Scalar.Radix16
import EdwardsSignature.Proofs.Bytes

/-! Radix-16 recoding keeps the number, and its digits fit the tables. -/

set_option autoImplicit false

namespace EdwardsSignature.Radix16

open LawfulLimbWord (Denotes)

/-- The number that digits write, least significant digit first. -/
def digitsValue : List Int → Int
  | [] => 0
  | digit :: rest => digit + 16 * digitsValue rest

theorem digitsValue_eq_sum (digits : List Int) :
    digitsValue digits =
      ∑ place ∈ Finset.range digits.length, digits.getD place 0 * 16 ^ place :=
  written_eq_sum id 16 0 rfl (fun _ _ => rfl) digits

section Nibbles

theorem nibbles_le (bytes : Bytes) : ∀ nibble ∈ nibbles bytes, nibble.toNat ≤ 15 := by
  intro nibble member
  obtain ⟨byte, _, half⟩ := List.mem_flatMap.mp member
  have bound := byte.toNat_lt
  simp only [List.mem_cons, List.not_mem_nil, or_false] at half
  obtain rfl | rfl := half
  · rw [UInt8.toNat_and]
    exact Nat.and_le_right
  · have weight : 2 ^ (UInt8.toNat 4 % 8) = 16 := rfl
    rw [UInt8.toNat_shiftRight, Nat.shiftRight_eq_div_pow, weight]
    omega

def rawDigits (bytes : Bytes) : List Int := (nibbles bytes).map fun nibble => (nibble.toNat : Int)

theorem rawDigits_within (bytes : Bytes) : ∀ digit ∈ rawDigits bytes, 0 ≤ digit ∧ digit ≤ 15 := by
  intro digit member
  obtain ⟨nibble, inside, rfl⟩ := List.mem_map.mp member
  have bound := nibbles_le bytes nibble inside
  omega

theorem length_rawDigits (bytes : Bytes) : (rawDigits bytes).length = 2 * bytes.length := by
  rw [rawDigits, List.length_map, length_nibbles]

theorem digitsValue_rawDigits (bytes : Bytes) :
    digitsValue (rawDigits bytes) = Bytes.toNat bytes := by
  induction bytes with
  | nil => rfl
  | cons byte rest ih =>
      have low : (byte &&& 15).toNat = byte.toNat % 16 := by
        rw [UInt8.toNat_and]
        exact Nat.and_two_pow_sub_one_eq_mod byte.toNat 4
      have high : (byte >>> 4).toNat = byte.toNat / 16 := by
        rw [UInt8.toNat_shiftRight, Nat.shiftRight_eq_div_pow]
        rfl
      have unfolded : rawDigits (byte :: rest) =
          ((byte &&& 15).toNat : Int) :: ((byte >>> 4).toNat : Int) :: rawDigits rest := rfl
      rw [unfolded, digitsValue, digitsValue, ih, low, high, Bytes.toNat]
      omega

end Nibbles

section Balance

theorem balance_cons (carried digit : Int) {rest : List Int} (more : rest ≠ []) :
    balance carried (digit :: rest) =
      (digit + carried - (digit + carried + 8) / 16 * 16) ::
        balance ((digit + carried + 8) / 16) rest := by
  rw [balance]
  · rfl
  · exact more

/-- In words of eight bits no carry overflows: balancing is exact. -/
theorem denotes_balance {α : Type} [LimbWord α] [LawfulLimbWord α 8] {words : List α}
    {digits : List Int} (exact : List.Forall₂ Denotes words digits)
    (within : ∀ digit ∈ digits, 0 ≤ digit ∧ digit ≤ 15) {carriedWord : α} {carried : Int}
    (carry : Denotes carriedWord carried) (bit : 0 ≤ carried ∧ carried ≤ 1) :
    List.Forall₂ Denotes (balance carriedWord words) (balance carried digits) := by
  induction exact generalizing carriedWord carried with
  | nil => exact .nil
  | @cons word digit words digits same rest ih =>
      have first := within digit List.mem_cons_self
      have raised := LawfulLimbWord.add same carry (by unfold InRange; omega)
      cases rest with
      | nil => exact .cons raised .nil
      | @cons second other words digits second_same others_same =>
          have eight : Denotes (LimbWord.literal 8 : α) 8 := LawfulLimbWord.literal (by decide)
          have rounded := LawfulLimbWord.add raised eight (by unfold InRange; omega)
          have next := LawfulLimbWord.shiftRight rounded (by decide : 4 < 8)
            (by unfold InRange; omega)
          have shifted := LawfulLimbWord.shiftLeft next (by decide : 4 < 8)
            (by unfold InRange; omega)
          have left := LawfulLimbWord.sub raised shifted (by unfold InRange; omega)
          rw [balance_cons carried digit (List.cons_ne_nil other digits)]
          refine .cons left (ih ?_ next (by omega))
          exact fun later member => within later (List.mem_cons_of_mem _ member)

theorem digitsValue_balance {digits : List Int} (nonempty : digits ≠ []) (carried : Int) :
    digitsValue (balance carried digits) = carried + digitsValue digits := by
  induction digits generalizing carried with
  | nil => contradiction
  | cons digit rest ih =>
      cases rest with
      | nil =>
          simp only [balance, digitsValue]
          omega
      | cons second others =>
          have more : second :: others ≠ [] := List.cons_ne_nil second others
          have unfolded : digitsValue (digit :: second :: others) =
              digit + 16 * digitsValue (second :: others) := rfl
          rw [balance_cons carried digit more, digitsValue, ih more, unfolded]
          omega

/-- Every digit but the last comes out within `-8 … 7`, and the last with a carry of at most
one. -/
theorem balance_within {digits : List Int} (within : ∀ digit ∈ digits, 0 ≤ digit ∧ digit ≤ 15)
    (last : Int) {carried : Int} (bit : 0 ≤ carried ∧ carried ≤ 1) :
    ∃ balanced final, balance carried (digits ++ [last]) = balanced ++ [final] ∧
      (∀ digit ∈ balanced, -8 ≤ digit ∧ digit ≤ 7) ∧ last ≤ final ∧ final ≤ last + 1 := by
  induction digits generalizing carried with
  | nil => exact ⟨[], last + carried, rfl, by simp, by omega, by omega⟩
  | cons digit rest ih =>
      have first := within digit List.mem_cons_self
      have next : 0 ≤ (digit + carried + 8) / 16 ∧ (digit + carried + 8) / 16 ≤ 1 := by omega
      obtain ⟨balanced, final, split_eq, small, low, high⟩ :=
        ih (fun later member => within later (List.mem_cons_of_mem _ member)) next
      refine ⟨(digit + carried - (digit + carried + 8) / 16 * 16) :: balanced, final, ?_, ?_,
        low, high⟩
      · rw [List.cons_append, balance_cons carried digit (by simp), split_eq]
        rfl
      · intro entry member
        obtain rfl | later := List.mem_cons.mp member
        · omega
        · exact small entry later

end Balance

def exactDigits (scalar : Block 32) : List Int := digits Int scalar.toList

theorem exactDigits_eq (scalar : Block 32) :
    exactDigits scalar = balance 0 (rawDigits scalar.toList) := rfl

theorem denotes_digits {α : Type} [LimbWord α] [LawfulLimbWord α 8] (bytes : Bytes) :
    List.Forall₂ Denotes (digits α bytes) (digits Int bytes) := by
  have words : List.Forall₂ Denotes
      ((nibbles bytes).map fun nibble => (LimbWord.literal (nibble.toNat : Int) : α))
      (rawDigits bytes) := by
    rw [rawDigits, List.forall₂_map_left_iff, List.forall₂_map_right_iff, List.forall₂_same]
    intro nibble member
    have bound := nibbles_le _ nibble member
    exact LawfulLimbWord.literal (by unfold InRange; omega)
  have zero : Denotes (LimbWord.literal 0 : α) 0 := LawfulLimbWord.literal (by decide)
  exact denotes_balance words (rawDigits_within bytes) zero (by decide)

theorem toInt_digitVector (scalar : Block 32) :
    (digitVector scalar).toList.map Int8.toInt = exactDigits scalar := by
  have unfolded : (digitVector scalar).toList = digits Int8 scalar.toList := by
    simp [digitVector, Vector.toList]
  rw [unfolded, exactDigits, ← List.forall₂_eq_eq_eq, List.forall₂_map_left_iff]
  exact denotes_digits scalar.toList

/-- The run that watches every word ends with each of the digits. -/
theorem value?_digits (scalar : Block 32) :
    (digits (Checked 8) scalar.toList).map Checked.value? =
      (digitVector scalar).toList.map fun digit => some digit.toInt := by
  have exact_map : (digitVector scalar).toList.map (fun digit => some digit.toInt) =
      (exactDigits scalar).map some := by
    rw [← toInt_digitVector, List.map_map]
    rfl
  rw [exact_map, ← List.forall₂_eq_eq_eq, List.forall₂_map_left_iff, List.forall₂_map_right_iff]
  exact denotes_digits scalar.toList

theorem digitsValue_exactDigits (scalar : Block 32) :
    digitsValue (exactDigits scalar) = scalar.toNat := by
  have nonempty : rawDigits scalar.toList ≠ [] := by
    apply List.ne_nil_of_length_pos
    rw [length_rawDigits, Vector.length_toList]
    decide
  rw [exactDigits_eq, digitsValue_balance nonempty, digitsValue_rawDigits, zero_add]
  rfl

theorem rawDigits_eq_append (scalar : Block 32) :
    ∃ digits, rawDigits scalar.toList = digits ++ [((scalar.top.toNat / 16 : Nat) : Int)] := by
  have inside : 31 < scalar.toList.length := by simp
  have parts := List.take_succ_eq_append_getElem inside
  rw [List.take_of_length_le (by simp), Vector.getElem_toList] at parts
  have half : (scalar.top >>> 4).toNat = scalar.top.toNat / 16 := by
    rw [UInt8.toNat_shiftRight, Nat.shiftRight_eq_div_pow]
    rfl
  refine ⟨rawDigits (scalar.toList.take 31) ++ [((scalar.top &&& 15).toNat : Int)], ?_⟩
  have last : rawDigits [scalar.top] =
      [((scalar.top &&& 15).toNat : Int), ((scalar.top >>> 4).toNat : Int)] := rfl
  rw [List.append_assoc, List.singleton_append, ← half, ← last, rawDigits, rawDigits, rawDigits,
    ← List.map_append, nibbles, nibbles, nibbles, ← List.flatMap_append]
  exact congrArg _ (congrArg _ parts)

/-- Of a scalar that leaves bit 255 free, the last digit is 7 at most before it takes the last
carry. -/
theorem exactDigits_eq_append {scalar : Block 32} (narrow : scalar.top ≤ 127) :
    ∃ balanced final, exactDigits scalar = balanced ++ [final] ∧
      (∀ digit ∈ balanced, -8 ≤ digit ∧ digit ≤ 7) ∧ 0 ≤ final ∧ final ≤ 8 := by
  obtain ⟨digits, raw_eq⟩ := rawDigits_eq_append scalar
  have within := rawDigits_within scalar.toList
  have top_small : scalar.top.toNat ≤ 127 := UInt8.le_iff_toNat_le.mp narrow
  rw [raw_eq] at within
  obtain ⟨balanced, final, split_eq, small, low, high⟩ :=
    balance_within (fun digit member => within digit (List.mem_append_left _ member))
      ((scalar.top.toNat / 16 : Nat) : Int) (by decide : (0 : Int) ≤ 0 ∧ (0 : Int) ≤ 1)
  refine ⟨balanced, final, ?_, small, by omega, by omega⟩
  rw [exactDigits_eq, raw_eq, split_eq]

theorem top_le_iff (scalar : Block 32) : scalar.top ≤ 127 ↔ scalar.toNat < 2 ^ 255 := by
  have top := scalar.toNat_top
  have bound : scalar.top ≤ 127 ↔ scalar.top.toNat ≤ 127 := UInt8.le_iff_toNat_le
  rw [bound, top]
  omega

theorem recode_of_lt {scalar : Block 32} (narrow : scalar.toNat < 2 ^ 255) :
    recode scalar = .ok (digitVector scalar) :=
  if_pos ((top_le_iff scalar).mpr narrow)

section Places

theorem getElem?_exactDigits (scalar : Block 32) (place : Fin 64) :
    (exactDigits scalar)[place.val]? = some ((digitVector scalar).get place).toInt := by
  rw [← toInt_digitVector]
  simp [Vector.get_eq_getElem]

theorem length_exactDigits (scalar : Block 32) : (exactDigits scalar).length = 64 := by
  rw [← toInt_digitVector, List.length_map, Vector.length_toList]

theorem digitVector_within {scalar : Block 32} (narrow : scalar.top ≤ 127) (place : Fin 64) :
    let digit := ((digitVector scalar).get place).toInt
    (place.val < 63 → -8 ≤ digit ∧ digit ≤ 7) ∧ (place.val = 63 → 0 ≤ digit ∧ digit ≤ 8) := by
  obtain ⟨balanced, final, split_eq, small, low, high⟩ := exactDigits_eq_append narrow
  have length := length_exactDigits scalar
  have entry := getElem?_exactDigits scalar place
  rw [split_eq] at length entry
  rw [List.length_append, List.length_singleton] at length
  constructor
  · intro earlier
    rw [List.getElem?_append_left (by omega)] at entry
    exact small _ (List.mem_of_getElem? entry)
  · intro last
    rw [List.getElem?_append_right (by omega), last] at entry
    obtain rfl : final = _ := by simpa [show balanced.length = 63 by omega] using entry
    exact ⟨low, high⟩

theorem digitsValue_toInts (digits : Vector Int8 64) :
    digitsValue (digits.toList.map Int8.toInt) =
      ∑ place : Fin 64, (digits.get place).toInt * 16 ^ place.val := by
  rw [digitsValue_eq_sum, List.length_map, Vector.length_toList, Finset.sum_range]
  apply Finset.sum_congr rfl
  intro place _
  simp [List.getD_eq_getElem?_getD, Vector.get_eq_getElem]

theorem recode_eq_error_iff (scalar : Block 32) :
    recode scalar = .error .scalarTooWide ↔ 127 < scalar.top := by
  rw [recode]
  split
  · rename_i narrow
    simp [narrow]
  · rename_i wide
    simpa using wide

theorem eq_digitVector_of_recode {scalar : Block 32} {digits : Vector Int8 64}
    (recoded : recode scalar = .ok digits) : digitVector scalar = digits := by
  rw [recode] at recoded
  split at recoded
  · cases recoded
    rfl
  · cases recoded

theorem digitVector_injective {first second : Block 32}
    (same : digitVector first = digitVector second) : first = second := by
  apply Block.toNat_injective
  have values : digitsValue (exactDigits first) = digitsValue (exactDigits second) := by
    rw [← toInt_digitVector, ← toInt_digitVector, same]
  rw [digitsValue_exactDigits, digitsValue_exactDigits] at values
  exact_mod_cast values

end Places

/-- A scalar whose highest byte is 127 at most has 64 digits in powers of 16, all in `-8 … 7` but
the last, which is in `0 … 8`. They write the scalar and tell it from every other one, and the
run that watches every word of eight bits ends with each of them. Any other scalar is too wide. -/
theorem digits_exact (scalar : Block 32) :
    (scalar.top ≤ 127 → ∃ recoded : Vector Int8 64, recode scalar = .ok recoded ∧
      (∀ place : Fin 64, place.val < 63 →
        -8 ≤ (recoded.get place).toInt ∧ (recoded.get place).toInt ≤ 7) ∧
      (0 ≤ (recoded.get 63).toInt ∧ (recoded.get 63).toInt ≤ 8) ∧
      ∑ place : Fin 64, (recoded.get place).toInt * 16 ^ place.val = scalar.toNat ∧
      (digits (Checked 8) scalar.toList).map Checked.value? =
        recoded.toList.map fun digit => some digit.toInt) ∧
    (recode scalar = .error .scalarTooWide ↔ 127 < scalar.top) ∧
    ∀ (other : Block 32) (recoded : Vector Int8 64),
      recode scalar = .ok recoded → recode other = .ok recoded → scalar = other := by
  refine ⟨?_, recode_eq_error_iff scalar, ?_⟩
  · intro narrow
    refine ⟨digitVector scalar, if_pos narrow, ?_, ?_, ?_, value?_digits scalar⟩
    · intro place
      exact (digitVector_within narrow place).1
    · exact (digitVector_within narrow 63).2 rfl
    · rw [← digitsValue_toInts, toInt_digitVector, digitsValue_exactDigits]
  · intro other recoded first second
    apply digitVector_injective
    rw [eq_digitVector_of_recode first, eq_digitVector_of_recode second]

end EdwardsSignature.Radix16
