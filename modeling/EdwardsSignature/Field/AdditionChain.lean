/-! Fixed addition chains for the two exponents that the field needs.

A chain uses multiplication only, so it makes sense wherever products do. Both chains
share their part up to the exponent `2 ^ 250 - 1`. -/
set_option autoImplicit false
namespace EdwardsSignature.AdditionChain

variable {α : Type} [Mul α]

def squareTimes : Nat → α → α
  | 0, base => base
  | count + 1, base => squareTimes count (base * base)

/-- The powers that both chains continue from: exponents `11` and `2 ^ 250 - 1`. -/
structure Common (α : Type) where
  eleven : α
  ones250 : α

/-- Doubles a run of ones in the exponent: from `2 ^ n - 1` to `2 ^ (2 * n) - 1`. -/
def doubleOnes (count : Nat) (ones : α) : α :=
  squareTimes count ones * ones

def common (base : α) : Common α :=
  let two := base * base
  let nine := base * squareTimes 2 two
  let eleven := two * nine
  let ones5 := nine * (eleven * eleven)
  let ones10 := doubleOnes 5 ones5
  let ones20 := doubleOnes 10 ones10
  let ones40 := doubleOnes 20 ones20
  let ones50 := squareTimes 10 ones40 * ones10
  let ones100 := doubleOnes 50 ones50
  let ones200 := doubleOnes 100 ones100
  ⟨eleven, squareTimes 50 ones200 * ones50⟩

/-- The power with exponent `2 ^ 255 - 21`. -/
def inverse (base : α) : α :=
  let shared := common base
  squareTimes 5 shared.ones250 * shared.eleven

/-- The power with exponent `2 ^ 252 - 3`. -/
def root (base : α) : α :=
  squareTimes 2 (common base).ones250 * base

end EdwardsSignature.AdditionChain
