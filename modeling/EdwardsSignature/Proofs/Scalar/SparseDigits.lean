import Mathlib
import EdwardsSignature.Proofs.Scalar.SlidingWindow

/-! Sliding-window digits of every scalar: zero or odd, far apart, and exact up to one borrow.

A scalar that uses bit 255 may send a borrow out of the top. The borrow clears all bits on its
way, so none is left that could send another one. -/

set_option autoImplicit false

namespace EdwardsSignature.SlidingWindow

/-- The digit at a place, and zero above the last one. -/
def digitAt (digits : List WindowDigit) (place : Nat) : Int := (digits.getD place .zero).value

theorem digitAt_within (digits : List WindowDigit) (place : Nat) :
    -15 ≤ digitAt digits place ∧ digitAt digits place ≤ 15 :=
  ⟨(digits.getD place .zero).lower, (digits.getD place .zero).upper⟩

theorem digitsValue_eq_sum (digits : List WindowDigit) :
    digitsValue digits =
      ∑ place ∈ Finset.range digits.length, digitAt digits place * 2 ^ place :=
  written_eq_sum WindowDigit.value 2 .zero rfl (fun _ _ => rfl) digits

theorem digitAt_zero_or_odd {digits : List WindowDigit}
    (sparse : ∀ digit ∈ digits, digit = .zero ∨ digit.IsOdd) (place : Nat) :
    digitAt digits place = 0 ∨ digitAt digits place % 2 = 1 := by
  induction digits generalizing place with
  | nil => exact .inl rfl
  | cons digit rest ih =>
      rw [List.forall_mem_cons] at sparse
      cases place with
      | zero =>
          rcases sparse.1 with rfl | odd
          · exact .inl rfl
          · exact .inr odd
      | succ place => exact ih sparse.2 place

section Spacing

/-- Whether the first `count` bits are all clear. -/
def ClearBelow (count : Nat) (bits : List Bool) : Prop :=
  ∀ place < count, bits.getD place false = false

theorem clearBelow_zero (bits : List Bool) : ClearBelow 0 bits := by
  intro place impossible
  cases impossible

theorem ClearBelow.cons {count : Nat} {bits : List Bool} (clear : ClearBelow count bits) :
    ClearBelow (count + 1) (false :: bits) := by
  intro place below
  cases place with
  | zero => rfl
  | succ place => exact clear place (by omega)

theorem clearBelow_cons_iff {count : Nat} {bit : Bool} {bits : List Bool} :
    ClearBelow (count + 1) (bit :: bits) ↔ bit = false ∧ ClearBelow count bits := by
  constructor
  · intro clear
    exact ⟨clear 0 (by omega), fun place below => clear (place + 1) (by omega)⟩
  · rintro ⟨rfl, clear⟩
    exact clear.cons

/-- While its weight stays within 16, a bit that a window meets is taken in one way or the other,
and the bit is cleared. -/
theorem extend_clearBelow {digit : WindowDigit} {weight : Nat} {bits : List Bool} (reach : Nat)
    (positive : 0 < digit.value) (below : digit.value < weight) :
    ∀ count ≤ reach, weight * 2 ^ count = 32 →
      ClearBelow count (extend reach weight digit bits).2 := by
  fun_induction extend reach weight digit bits with
  | case1 weight digit bits =>
      intro count enough last
      obtain rfl : count = 0 := by omega
      exact clearBelow_zero bits
  | case2 reach weight digit =>
      intro count enough last place _
      rfl
  | case3 reach weight digit rest extended ih =>
      intro count enough last
      cases count with
      | zero => exact clearBelow_zero _
      | succ count =>
          rw [Nat.pow_succ] at last
          exact (ih positive (by omega) count (by omega) (by linarith)).cons
  | case4 reach weight digit rest fits extended ih =>
      intro count enough last
      cases count with
      | zero => exact clearBelow_zero _
      | succ count =>
          rw [Nat.pow_succ] at last
          have still_below : (digit.add weight fits).value < (2 * weight : Nat) := by
            rw [WindowDigit.value_add]
            omega
          have still_positive : 0 < (digit.add weight fits).value := by
            rw [WindowDigit.value_add]
            omega
          exact (ih still_positive still_below count (by omega) (by linarith)).cons
  | case5 reach weight digit rest full fits extended ih =>
      intro count enough last
      cases count with
      | zero => exact clearBelow_zero _
      | succ count =>
          cases count with
          | zero => exact (clearBelow_zero _).cons
          | succ count =>
              -- The weight is 8 or less here, and so it fits.
              rw [Nat.pow_succ, Nat.pow_succ] at last
              have powers : weight * 2 ^ count = 8 := by linarith
              have small : weight ≤ 8 := powers ▸ Nat.le_mul_of_pos_right weight (by positivity)
              omega
  | case6 reach weight digit rest full unfit =>
      intro count enough last
      cases count with
      | zero => exact clearBelow_zero _
      | succ count =>
          rw [Nat.pow_succ] at last
          have powers : weight * 2 ^ count = 16 := by linarith
          have small : weight ≤ 16 := powers ▸ Nat.le_mul_of_pos_right weight (by positivity)
          omega

theorem digitAt_digits_of_clearBelow {count : Nat} {bits : List Bool} :
    ∀ low, ClearBelow low bits → ∀ place < low, digitAt (digits count bits) place = 0 := by
  fun_induction digits count bits with
  | case1 => exact fun _ _ _ _ => rfl
  | case2 count ih =>
      intro low clear place below
      cases place with
      | zero => rfl
      | succ place => exact ih low clear place (by omega)
  | case3 count rest ih =>
      intro low clear place below
      cases low with
      | zero => cases below
      | succ low =>
          cases place with
          | zero => rfl
          | succ place => exact ih low (clearBelow_cons_iff.mp clear).2 place (by omega)
  | case4 count rest window ih =>
      intro low clear place below
      cases clear 0 (by omega)

/-- Digits that are not zero stand five places or more apart. -/
def Spaced (digits : List WindowDigit) : Prop :=
  ∀ lower upper, lower < upper → digitAt digits lower ≠ 0 → digitAt digits upper ≠ 0 →
    lower + 5 ≤ upper

theorem Spaced.cons {digit : WindowDigit} {rest : List WindowDigit} (spaced : Spaced rest)
    (clear : digit.value ≠ 0 → ∀ place < 4, digitAt rest place = 0) :
    Spaced (digit :: rest) := by
  intro lower upper order first second
  cases upper with
  | zero => cases order
  | succ upper =>
      cases lower with
      | zero =>
          by_contra near
          exact second (clear first upper (by omega))
      | succ lower =>
          have apart := spaced lower upper (by omega) first second
          omega

/-- After a digit that is not zero come four zeros. -/
theorem digits_spaced {count : Nat} {bits : List Bool} : Spaced (digits count bits) := by
  fun_induction digits count bits with
  | case1 =>
      intro lower upper _ first
      exact absurd rfl first
  | case2 count ih => exact ih.cons fun nonzero => absurd rfl nonzero
  | case3 count rest ih => exact ih.cons fun nonzero => absurd rfl nonzero
  | case4 count rest window ih =>
      have clear : ClearBelow 4 window.2 :=
        extend_clearBelow 6 (by decide) (by decide) 4 (by decide) rfl
      exact ih.cons fun _ => digitAt_digits_of_clearBelow 4 clear

end Spacing

section Borrow

/-- A carry that is lost at the top went through set bits only and left none of them set. -/
theorem increment_lost (bits : List Bool) :
    ∃ lost : Bool, (lost = true → bitsValue (increment bits) = 0) ∧
      bitsValue (increment bits) + lost.toNat * 2 ^ bits.length = bitsValue bits + 1 := by
  induction bits with
  | nil => exact ⟨true, fun _ => rfl, rfl⟩
  | cons bit rest ih =>
      cases bit with
      | false =>
          refine ⟨false, by simp, ?_⟩
          simp only [increment, bitsValue, Bool.toNat_true, Bool.toNat_false]
          omega
      | true =>
          obtain ⟨lost, cleared, value⟩ := ih
          simp only [increment, bitsValue, List.length_cons, pow_succ, Bool.toNat_true,
            Bool.toNat_false]
          refine ⟨lost, ?_, by linarith⟩
          intro gone
          rw [cleared gone]

theorem extend_of_bitsValue_zero {digit : WindowDigit} {weight : Nat} {bits : List Bool}
    (reach : Nat) (empty : bitsValue bits = 0) :
    extend reach weight digit bits = (digit, bits) := by
  fun_induction extend reach weight digit bits with
  | case1 weight digit bits => rfl
  | case2 reach weight digit => rfl
  | case3 reach weight digit rest extended ih =>
      have above : bitsValue rest = 0 := by
        simp only [bitsValue] at empty
        omega
      simp only [extended, ih above]
  | case4 => simp [bitsValue] at empty
  | case5 => simp [bitsValue] at empty
  | case6 => simp [bitsValue] at empty

theorem digitsValue_digits_of_zero {count : Nat} {bits : List Bool} (empty : bitsValue bits = 0) :
    digitsValue (digits count bits) = 0 := by
  fun_induction digits count bits with
  | case1 => rfl
  | case2 count ih =>
      rw [digitsValue, ih empty]
      rfl
  | case3 count rest ih =>
      simp only [bitsValue] at empty
      rw [digitsValue, ih (by omega)]
      rfl
  | case4 => simp [bitsValue] at empty

/-- A window keeps the number, but for a borrow that is lost at the top of the bits; then it
leaves them all clear. -/
theorem extend_lost {digit : WindowDigit} {weight : Nat} {bits : List Bool} (reach : Nat) :
    let window := extend reach weight digit bits
    window.2.length = bits.length ∧
      ∃ lost : Bool, (lost = true → bitsValue window.2 = 0) ∧
        window.1.value + weight * (bitsValue window.2 + lost.toNat * 2 ^ bits.length) =
          digit.value + weight * bitsValue bits := by
  fun_induction extend reach weight digit bits with
  | case1 weight digit bits => exact ⟨rfl, false, by simp, by simp⟩
  | case2 reach weight digit => exact ⟨rfl, false, by simp, by simp⟩
  | case3 reach weight digit rest extended ih =>
      obtain ⟨length, lost, cleared, value⟩ := ih
      simp only [extended, bitsValue, List.length_cons, pow_succ, Bool.toNat_false]
      refine ⟨by omega, lost, fun gone => by rw [cleared gone], ?_⟩
      push_cast at value ⊢
      linarith
  | case4 reach weight digit rest fits extended ih =>
      obtain ⟨length, lost, cleared, value⟩ := ih
      simp only [extended, bitsValue, List.length_cons, pow_succ, Bool.toNat_false,
        Bool.toNat_true, WindowDigit.value_add] at value ⊢
      refine ⟨by omega, lost, fun gone => by rw [cleared gone], ?_⟩
      push_cast at value ⊢
      linarith
  | case5 reach weight digit rest full fits extended ih =>
      obtain ⟨length, lost, cleared, value⟩ := ih
      obtain ⟨gone, empty, borrowed⟩ := increment_lost rest
      rw [length_increment] at length value
      zify at borrowed
      cases gone with
      | false =>
          simp only [extended, bitsValue, List.length_cons, pow_succ, Bool.toNat_false,
            Bool.toNat_true, WindowDigit.value_sub] at value borrowed ⊢
          refine ⟨by omega, lost, fun gone => by rw [cleared gone], ?_⟩
          push_cast at value borrowed ⊢
          linear_combination value + 2 * (weight : Int) * borrowed
      | true =>
          -- The borrow is lost here, and the cleared bits leave the window as it is.
          have stays : extended = (digit.sub weight fits, increment rest) :=
            extend_of_bitsValue_zero reach (empty rfl)
          simp only [stays, bitsValue, List.length_cons, length_increment, pow_succ, empty rfl,
            Bool.toNat_false, Bool.toNat_true, WindowDigit.value_sub] at borrowed ⊢
          refine ⟨trivial, true, by simp, ?_⟩
          rw [Bool.toNat_true]
          push_cast at borrowed ⊢
          linear_combination 2 * (weight : Int) * borrowed
  | case6 reach weight digit rest full unfit => exact ⟨rfl, false, by simp, by simp⟩

/-- No more than one borrow is lost. -/
theorem digits_lost {count : Nat} {bits : List Bool} (length : bits.length = count) :
    ∃ lost : Bool, digitsValue (digits count bits) + lost.toNat * 2 ^ count = bitsValue bits := by
  fun_induction digits count bits with
  | case1 bits =>
      rw [List.length_eq_zero_iff.mp length]
      exact ⟨false, rfl⟩
  | case2 count ih => simp at length
  | case3 count rest ih =>
      obtain ⟨lost, value⟩ := ih (by simpa using length)
      refine ⟨lost, ?_⟩
      simp only [digitsValue, bitsValue, WindowDigit.zero, Bool.toNat_false, pow_succ]
      push_cast
      linarith
  | case4 count rest window ih =>
      have length_rest : rest.length = count := by simpa using length
      obtain ⟨same, gone, cleared, kept⟩ : window.2.length = rest.length ∧ _ := extend_lost 6
      rw [length_rest] at same kept
      simp only [digitsValue, bitsValue, Bool.toNat_true, pow_succ]
      have one : WindowDigit.one.value = 1 := rfl
      rw [one] at kept
      cases gone with
      | false =>
          obtain ⟨lost, above⟩ := ih same
          refine ⟨lost, ?_⟩
          rw [Bool.toNat_false] at kept
          push_cast at kept above ⊢
          linear_combination kept + 2 * above
      | true =>
          refine ⟨true, ?_⟩
          rw [digitsValue_digits_of_zero (cleared rfl)]
          rw [cleared rfl, Bool.toNat_true] at kept
          rw [Bool.toNat_true]
          push_cast at kept ⊢
          linear_combination kept

theorem digitsValue_recode_cases (scalar : Block 32) :
    digitsValue (recode scalar) = scalar.toNat ∨
      digitsValue (recode scalar) = scalar.toNat - 2 ^ 256 := by
  have length : (Bytes.bits scalar.toList).length = 256 := by
    rw [Bytes.length_bits, Vector.length_toList]
  have value := Bytes.bitsValue_bits scalar.toList
  rw [← Block.toNat] at value
  obtain ⟨lost, total⟩ := digits_lost length
  rw [value] at total
  cases lost with
  | false =>
      left
      rw [← total]
      simp [recode]
  | true =>
      right
      rw [← total]
      simp [recode]

end Borrow

/-- Every scalar has 256 digits, zero or odd within `-15 … 15` and five places or more apart if
they are not zero. Their sum is the scalar modulo `2 ^ 256`: the scalar itself when bit 255 is
free, and else the scalar or what a lost borrow leaves of it. -/
theorem recode_exact (scalar : Block 32) :
    let digit := digitAt (recode scalar)
    let sum := ∑ place ∈ Finset.range 256, digit place * 2 ^ place
    (recode scalar).length = 256 ∧
      (∀ place, digit place = 0 ∨ digit place % 2 = 1 ∧ -15 ≤ digit place ∧ digit place ≤ 15) ∧
      (∀ lower upper, lower < upper → digit lower ≠ 0 → digit upper ≠ 0 → lower + 5 ≤ upper) ∧
      sum ≡ scalar.toNat [ZMOD 2 ^ 256] ∧
      (scalar.toNat < 2 ^ 255 → sum = scalar.toNat) ∧
      (sum = scalar.toNat ∨ sum = scalar.toNat - 2 ^ 256) := by
  intro digit sum
  have sum_eq : sum = digitsValue (recode scalar) := by
    rw [digitsValue_eq_sum, length_recode]
  have outcome := digitsValue_recode_cases scalar
  rw [← sum_eq] at outcome
  refine ⟨length_recode scalar, ?_, ?_, ?_, ?_, outcome⟩
  · intro place
    have within := digitAt_within (recode scalar) place
    exact (digitAt_zero_or_odd (recode_sparse scalar) place).imp_right fun odd => ⟨odd, within⟩
  · exact digits_spaced
  · rcases outcome with kept | lost
    · rw [kept]
    · rw [lost]
      exact Int.modEq_iff_dvd.mpr ⟨1, by ring⟩
  · intro narrow
    rw [sum_eq, digitsValue_recode narrow]

/-- The largest scalar loses its borrow. -/
example : digitsValue (recode (Block.ofNat 32 (2 ^ 256 - 1))) = -1 := by decide +kernel

end EdwardsSignature.SlidingWindow
