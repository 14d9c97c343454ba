import Mathlib
import EdwardsSignature.Scalar.SlidingWindow
import EdwardsSignature.Proofs.Bytes

/-! Sliding-window recoding keeps numbers that leave the highest bit free. -/

set_option autoImplicit false

namespace EdwardsSignature

namespace WindowDigit

@[simp] theorem value_add (digit : WindowDigit) (weight : Nat) (fits : digit.value + weight ≤ 15) :
    (digit.add weight fits).value = digit.value + weight := rfl

@[simp] theorem value_sub (digit : WindowDigit) (weight : Nat)
    (fits : -15 ≤ digit.value - weight) : (digit.sub weight fits).value = digit.value - weight := rfl

def IsOdd (digit : WindowDigit) : Prop := digit.value % 2 = 1

theorem isOdd_one : one.IsOdd := rfl

theorem IsOdd.index_eq {digit : WindowDigit} (odd : digit.IsOdd) :
    2 * digit.index.val + 1 = digit.value.natAbs := by
  unfold IsOdd at odd
  simp only [index]
  omega

end WindowDigit

namespace SlidingWindow

@[simp] theorem length_increment (bits : List Bool) : (increment bits).length = bits.length := by
  fun_induction increment bits <;> simp_all

/-- Nothing is lost while the number is not the largest of its length. -/
theorem bitsValue_increment {bits : List Bool} (room : bitsValue bits + 1 < 2 ^ bits.length) :
    bitsValue (increment bits) = bitsValue bits + 1 := by
  fun_induction increment bits with
  | case1 => simp [bitsValue] at room
  | case2 rest =>
      simp only [bitsValue, Bool.toNat_true, Bool.toNat_false]
      omega
  | case3 rest ih =>
      simp only [bitsValue, List.length_cons, Nat.pow_succ, Bool.toNat_true,
        Bool.toNat_false] at room ⊢
      rw [ih (by omega)]
      omega

def digitsValue : List WindowDigit → Int
  | [] => 0
  | digit :: rest => digit.value + 2 * digitsValue rest

/-- What an open window keeps: the bits above leave room for a borrow, and a positive digit,
from which alone a weight can be subtracted, leaves room for one more. -/
structure Room (digit : WindowDigit) (weight : Nat) (bits : List Bool) : Prop where
  weak : 2 * bitsValue bits ≤ 2 ^ bits.length
  strict : 0 < digit.value → 2 * bitsValue bits < 2 ^ bits.length
  below : digit.value < weight

section Steps

variable {digit : WindowDigit} {weight : Nat} {rest : List Bool}

theorem Room.skip (room : Room digit weight (false :: rest)) : Room digit (2 * weight) rest := by
  obtain ⟨weak, strict, below⟩ := room
  simp only [bitsValue, List.length_cons, Nat.pow_succ, Bool.toNat_false] at weak strict
  exact ⟨by omega, by omega, by omega⟩

theorem Room.add (room : Room digit weight (true :: rest)) (fits : digit.value + weight ≤ 15) :
    Room (digit.add weight fits) (2 * weight) rest := by
  obtain ⟨weak, _, below⟩ := room
  simp only [bitsValue, List.length_cons, Nat.pow_succ, Bool.toNat_true] at weak
  have above : 2 * bitsValue rest < 2 ^ rest.length := by omega
  refine ⟨above.le, fun _ => above, ?_⟩
  simp only [WindowDigit.value_add]
  omega

theorem Room.sub (room : Room digit weight (true :: rest)) (full : ¬digit.value + weight ≤ 15)
    (fits : -15 ≤ digit.value - weight) :
    bitsValue (increment rest) = bitsValue rest + 1 ∧
      Room (digit.sub weight fits) (2 * weight) (increment rest) := by
  obtain ⟨_, strict, below⟩ := room
  have positive : 0 < digit.value := by omega
  have above := strict positive
  simp only [bitsValue, List.length_cons, Nat.pow_succ, Bool.toNat_true] at above
  have nonempty : rest.length ≠ 0 := by
    intro empty
    rw [empty] at above
    omega
  have even : 2 ^ rest.length = 2 * 2 ^ (rest.length - 1) := by
    rw [← Nat.pow_succ', Nat.succ_eq_add_one, Nat.sub_add_cancel (Nat.pos_of_ne_zero nonempty)]
  have room_rest : bitsValue rest + 1 < 2 ^ rest.length := by omega
  have exact := bitsValue_increment room_rest
  refine ⟨exact, ?_, ?_, ?_⟩
  · rw [length_increment, exact]
    omega
  · simp only [WindowDigit.value_sub]
    omega
  · simp only [WindowDigit.value_sub]
    omega

end Steps

/-- Weights above the first are even, so what they add to an odd digit or take from it leaves it
odd. -/
theorem extend_isOdd {digit : WindowDigit} {weight : Nat} {bits : List Bool} (reach : Nat)
    (even : weight % 2 = 0) (odd : digit.IsOdd) : (extend reach weight digit bits).1.IsOdd := by
  fun_induction extend reach weight digit bits with
  | case1 weight digit bits => exact odd
  | case2 reach weight digit => exact odd
  | case3 reach weight digit rest extended ih => exact ih (by omega) odd
  | case4 reach weight digit rest fits extended ih =>
      apply ih (by omega)
      simp only [WindowDigit.IsOdd, WindowDigit.value_add] at odd ⊢
      omega
  | case5 reach weight digit rest full fits extended ih =>
      apply ih (by omega)
      simp only [WindowDigit.IsOdd, WindowDigit.value_sub] at odd ⊢
      omega
  | case6 reach weight digit rest full unfit => exact odd

theorem digits_sparse (count : Nat) (bits : List Bool) :
    ∀ digit ∈ digits count bits, digit = .zero ∨ digit.IsOdd := by
  fun_induction digits count bits with
  | case1 => simp
  | case2 count ih =>
      rw [List.forall_mem_cons]
      exact ⟨Or.inl rfl, ih⟩
  | case3 count rest ih =>
      rw [List.forall_mem_cons]
      exact ⟨Or.inl rfl, ih⟩
  | case4 count rest window ih =>
      rw [List.forall_mem_cons]
      exact ⟨Or.inr (extend_isOdd 6 rfl WindowDigit.isOdd_one), ih⟩

/-- Extending a window moves weight from the bits to the digit and loses none. -/
theorem extend_spec {digit : WindowDigit} {weight : Nat} {bits : List Bool} (reach : Nat)
    (room : Room digit weight bits) :
    let window := extend reach weight digit bits
    window.1.value + weight * bitsValue window.2 = digit.value + weight * bitsValue bits ∧
      window.2.length = bits.length ∧ 2 * bitsValue window.2 ≤ 2 ^ bits.length := by
  fun_induction extend reach weight digit bits with
  | case1 weight digit bits => exact ⟨rfl, rfl, room.weak⟩
  | case2 reach weight digit => exact ⟨rfl, rfl, room.weak⟩
  | case3 reach weight digit rest extended ih =>
      obtain ⟨kept, length, small⟩ := ih room.skip
      simp only [extended, bitsValue, List.length_cons, Nat.pow_succ, Bool.toNat_false]
      refine ⟨?_, by omega, by omega⟩
      push_cast at kept ⊢
      linarith
  | case4 reach weight digit rest fits extended ih =>
      obtain ⟨kept, length, small⟩ := ih (room.add fits)
      simp only [extended, bitsValue, List.length_cons, Nat.pow_succ, Bool.toNat_false,
        Bool.toNat_true, WindowDigit.value_add] at kept ⊢
      refine ⟨?_, by omega, by omega⟩
      push_cast at kept ⊢
      linarith
  | case5 reach weight digit rest full fits extended ih =>
      -- What is subtracted from the digit comes back as one more in the bits above.
      obtain ⟨borrowed, room'⟩ := room.sub full fits
      obtain ⟨kept, length, small⟩ := ih room'
      rw [length_increment] at length small
      simp only [extended, bitsValue, List.length_cons, Nat.pow_succ, Bool.toNat_false,
        Bool.toNat_true, WindowDigit.value_sub, borrowed] at kept ⊢
      refine ⟨?_, by omega, by omega⟩
      push_cast at kept ⊢
      linarith
  | case6 reach weight digit rest full unfit => exact ⟨rfl, rfl, room.weak⟩

theorem digitsValue_digits {count : Nat} {bits : List Bool} (length : bits.length = count)
    (room : 2 * bitsValue bits ≤ 2 ^ count) :
    digitsValue (digits count bits) = bitsValue bits := by
  fun_induction digits count bits with
  | case1 bits =>
      rw [List.length_eq_zero_iff.mp length]
      rfl
  | case2 count ih => simp at length
  | case3 count rest ih =>
      simp only [bitsValue, List.length_cons, Nat.pow_succ, Bool.toNat_false] at length room ⊢
      rw [digitsValue, ih (by omega) (by omega)]
      simp [WindowDigit.zero]
  | case4 count rest window ih =>
      simp only [bitsValue, List.length_cons, Nat.pow_succ, Bool.toNat_true] at length room ⊢
      have length_rest : rest.length = count := by omega
      have above : 2 * bitsValue rest < 2 ^ rest.length := by
        rw [length_rest]
        omega
      have start : Room .one 2 rest := ⟨above.le, fun _ => above, by decide⟩
      obtain ⟨kept, same, small⟩ := extend_spec 6 start
      rw [length_rest] at same small
      rw [digitsValue, ih same small]
      push_cast at kept ⊢
      exact kept

theorem recode_sparse (scalar : Block 32) :
    ∀ digit ∈ recode scalar, digit = .zero ∨ digit.IsOdd :=
  digits_sparse 256 _

/-- The digits of a scalar write the scalar, unless it uses bit 255. -/
theorem digitsValue_recode {scalar : Block 32} (narrow : scalar.toNat < 2 ^ 255) :
    digitsValue (recode scalar) = scalar.toNat := by
  have length : (Bytes.bits scalar.toList).length = 256 := by
    rw [Bytes.length_bits, Vector.length_toList]
  have value := Bytes.bitsValue_bits scalar.toList
  rw [← Block.toNat] at value
  rw [← value] at narrow ⊢
  exact digitsValue_digits length (by omega)

@[simp] theorem length_recode (scalar : Block 32) : (recode scalar).length = 256 :=
  length_digits 256 _

end SlidingWindow

end EdwardsSignature
