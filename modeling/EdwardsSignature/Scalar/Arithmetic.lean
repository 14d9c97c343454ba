import EdwardsSignature.Scalar.Reduction

/-! Arithmetic modulo the order, as a parameter set chooses it, in limbs and on natural numbers. -/
set_option autoImplicit false
namespace EdwardsSignature

/-- How a parameter set computes with scalars. What is computed is left open, so that whatever
needs no more of it holds for any arithmetic; `ScalarArithmetic.Lawful` is what it promises. -/
structure ScalarArithmetic where
  name : String
  reduce : (wide : Block 64) → Block 32
  multiplyAdd : (left right addend : Block 32) → Block 32

namespace ScalarArithmetic

/-- Every answer is the least residue. -/
structure Lawful (scalars : ScalarArithmetic) : Prop where
  toNat_reduce (wide : Block 64) : (scalars.reduce wide).toNat = wide.toNat % Scalar.order
  toNat_multiplyAdd (left right addend : Block 32) :
    (scalars.multiplyAdd left right addend).toNat =
      (left.toNat * right.toNat + addend.toNat) % Scalar.order

def limbs : ScalarArithmetic where
  name := "Ed25519ScalarOps"
  reduce := Scalar.reduceLimbs
  multiplyAdd := Scalar.multiplyAddLimbs

def naturals : ScalarArithmetic where
  name := "BigScalarOps"
  reduce wide := Block.ofNat 32 (wide.toNat % Scalar.order)
  multiplyAdd left right addend :=
    Block.ofNat 32 ((left.toNat * right.toNat + addend.toNat) % Scalar.order)

end ScalarArithmetic

end EdwardsSignature
