import Mathlib
import EdwardsSignature.Field.Basic
import EdwardsSignature.Scalar.Order

/-! The field prime and the order of the base point are prime numbers.

A certificate for a number is an element whose powers show that its multiplicative order
is the number less one. The factors of that order have certificates of their own, earlier
in the list, down to factors that trial division reaches. -/

set_option autoImplicit false

namespace EdwardsSignature.Primality

/-- The power with the low `count` bits of the exponent, reduced at every step. -/
def powerMod (modulus base : Nat) : (count exponent : Nat) → Nat
  | 0, _ => 1 % modulus
  | count + 1, exponent =>
      let half := powerMod modulus base count (exponent / 2)
      let squared := half * half % modulus
      if exponent % 2 = 1 then squared * base % modulus else squared

theorem natCast_powerMod (modulus base count exponent : Nat) (fits : exponent < 2 ^ count) :
    (powerMod modulus base count exponent : ZMod modulus) = (base : ZMod modulus) ^ exponent := by
  induction count generalizing exponent with
  | zero =>
      obtain rfl : exponent = 0 := by omega
      simp [powerMod]
  | succ count ih =>
      have half := ih (exponent / 2) (by omega)
      have parts : exponent = exponent / 2 + exponent / 2 + exponent % 2 := by omega
      rcases Nat.mod_two_eq_zero_or_one exponent with even | odd
      · simp only [powerMod, even, zero_ne_one, ↓reduceIte, ZMod.natCast_mod, Nat.cast_mul, half]
        rw [← pow_add, ← Nat.add_zero (_ + _), ← even, ← parts]
      · simp only [powerMod, odd, ↓reduceIte, ZMod.natCast_mod, Nat.cast_mul, half]
        rw [← pow_add, ← pow_succ, ← odd, ← parts]

theorem powerMod_lt {modulus : Nat} (positive : 0 < modulus) (base count exponent : Nat) :
    powerMod modulus base count exponent < modulus := by
  cases count with
  | zero => exact Nat.mod_lt _ positive
  | succ count =>
      simp only [powerMod]
      split <;> exact Nat.mod_lt _ positive

/-- A number, a candidate for an element of the greatest order, and the factors of that order. -/
structure Certificate where
  (number witness : Nat)
  factors : List Nat

/-- Whether the witness has the order that only a prime number allows, if its factors are prime. -/
def Certificate.valid (certificate : Certificate) : Bool :=
  let ⟨number, witness, factors⟩ := certificate
  1 < number && number < 2 ^ 256 && factors.prod == number - 1 &&
    powerMod number witness 256 (number - 1) == 1 &&
    factors.all fun factor => powerMod number witness 256 ((number - 1) / factor) != 1

theorem Certificate.prime_of_valid {certificate : Certificate} (valid : certificate.valid = true)
    (primes : ∀ factor ∈ certificate.factors, factor.Prime) : certificate.number.Prime := by
  obtain ⟨number, witness, factors⟩ := certificate
  simp only [Certificate.valid, Bool.and_eq_true, decide_eq_true_eq, beq_iff_eq,
    List.all_eq_true, bne_iff_ne] at valid
  obtain ⟨⟨⟨⟨large, fits⟩, product⟩, full⟩, proper⟩ := valid
  apply lucas_primality number (witness : ZMod number)
  · rw [← natCast_powerMod number witness 256 (number - 1) (by omega), full, Nat.cast_one]
  · intro factor prime divides same
    have member : factor ∈ factors := by
      rw [← product] at divides
      exact mem_list_primes_of_dvd_prod prime.prime
        (fun candidate listed => (primes candidate listed).prime) divides
    have smaller : (number - 1) / factor < 2 ^ 256 :=
      Nat.lt_of_le_of_lt (Nat.div_le_self _ _) (by omega)
    rw [← natCast_powerMod number witness 256 _ smaller] at same
    have congruent := (ZMod.natCast_eq_natCast_iff' _ 1 number).mp (same.trans Nat.cast_one.symm)
    rw [Nat.mod_eq_of_lt (powerMod_lt (by omega) _ _ _), Nat.mod_eq_of_lt large] at congruent
    exact proper factor member congruent

/-- Whether every certificate is valid and relies on known and earlier numbers only. -/
def validAfter (known : List Nat) : List Certificate → Bool
  | [] => true
  | certificate :: rest =>
      certificate.valid && certificate.factors.all known.contains &&
        validAfter (certificate.number :: known) rest

theorem prime_of_validAfter {known : List Nat} {certificates : List Certificate}
    (primes : ∀ number ∈ known, number.Prime)
    (valid : validAfter known certificates = true) {certificate : Certificate}
    (listed : certificate ∈ certificates) : certificate.number.Prime := by
  induction certificates generalizing known with
  | nil => cases listed
  | cons first rest ih =>
      simp only [validAfter, Bool.and_eq_true, List.all_eq_true, List.contains_iff_mem] at valid
      obtain ⟨⟨certified, covered⟩, others⟩ := valid
      have firstPrime : first.number.Prime :=
        first.prime_of_valid certified fun factor member => primes factor (covered factor member)
      cases listed with
      | head => exact firstPrime
      | tail _ later =>
          refine ih ?_ others later
          intro number member
          cases member with
          | head => exact firstPrime
          | tail _ earlier => exact primes number earlier

def smallPrimes : List Nat :=
  [2, 3, 5, 7, 11, 13, 19, 23, 31, 41, 43, 47, 73, 107, 127, 223, 269, 307, 353, 1361, 2437, 2851,
    4153, 5879, 30703, 57467, 65147, 75707, 82163, 132049, 132667, 137849, 430751, 531581, 569003,
    1224481, 1923133, 8574133, 58964693]

theorem prime_of_mem_smallPrimes : ∀ number ∈ smallPrimes, number.Prime := by
  simp only [smallPrimes, List.forall_mem_cons]
  norm_num

/-- Each number's factors come before it; the last two are the ones that the curve needs. -/
def certificates : List Certificate :=
  [⟨292386187, 2, [2, 3, 3, 3, 3, 307, 5879]⟩,
    ⟨2773320623, 5, [2, 2437, 569003]⟩,
    ⟨72106336199, 7, [2, 13, 2773320623]⟩,
    ⟨213441916511, 13, [2, 5, 73, 292386187]⟩,
    ⟨1257559732178653, 2, [2, 2, 3, 7, 23, 531581, 1224481]⟩,
    ⟨1919519569386763, 2, [2, 3, 7, 19, 47, 47, 127, 8574133]⟩,
    ⟨31757755568855353, 10, [2, 2, 2, 3, 31, 107, 223, 4153, 430751]⟩,
    ⟨4434155615661930479, 17, [2, 41, 43, 1257559732178653]⟩,
    ⟨3044861653679985063343, 5, [2, 3, 11, 30703, 82163, 132667, 137849]⟩,
    ⟨172054593956031949258510691, 2, [2, 5, 1361, 2851, 4434155615661930479]⟩,
    ⟨198211423230930754013084525763697, 5,
      [2, 2, 2, 2, 3, 23, 58964693, 3044861653679985063343]⟩,
    ⟨75445702479781427272750846543864801, 7,
      [2, 2, 2, 2, 2, 3, 3, 5, 5, 75707, 72106336199, 1919519569386763]⟩,
    ⟨19757330305831588566944191468367130476339, 2,
      [2, 269, 213441916511, 172054593956031949258510691]⟩,
    ⟨276602624281642239937218680557139826668747, 2,
      [2, 7, 19757330305831588566944191468367130476339]⟩,
    ⟨74058212732561358302231226437062788676166966415465897661863160754340907, 2,
      [2, 3, 353, 57467, 132049, 1923133, 31757755568855353,
        75445702479781427272750846543864801]⟩,
    ⟨Scalar.order, 2,
      [2, 2, 3, 11, 198211423230930754013084525763697,
        276602624281642239937218680557139826668747]⟩,
    ⟨fieldPrime, 2,
      [2, 2, 3, 65147,
        74058212732561358302231226437062788676166966415465897661863160754340907]⟩]

theorem certificates_valid : validAfter smallPrimes certificates = true := by
  decide +kernel

end EdwardsSignature.Primality

namespace EdwardsSignature

open Primality

theorem fieldPrime_prime : fieldPrime.Prime :=
  prime_of_validAfter prime_of_mem_smallPrimes certificates_valid
    (List.getLast_mem (by decide : certificates ≠ []))

instance : Fact fieldPrime.Prime := ⟨fieldPrime_prime⟩

theorem Scalar.order_prime : Scalar.order.Prime :=
  prime_of_validAfter prime_of_mem_smallPrimes certificates_valid
    (List.getElem_mem (by decide : 15 < certificates.length))

instance : Fact Scalar.order.Prime := ⟨Scalar.order_prime⟩

end EdwardsSignature
