import EdwardsSignature.BranchFree

/-! The order of the base point, which scalars are taken modulo. -/
set_option autoImplicit false
namespace EdwardsSignature.Scalar

/-! Powers are core's here, whatever other instances are in scope. -/
attribute [local instance (high)] instPowNat

/-- The order of the base point. -/
def order : Nat := 2 ^ (252 : Nat) + 27742317777372353535851937790883648493

def orderBlock : Block 32 := Block.ofNat 32 order

/-- Whether a scalar is below the order, found without a branch on its bytes. -/
def isCanonical (scalar : Block 32) : Bool :=
  BranchFree.lessThan scalar.toList orderBlock.toList

theorem toNat_orderBlock : orderBlock.toNat = order := by
  rw [orderBlock, Block.toNat_ofNat, Nat.mod_eq_of_lt (by decide)]

end EdwardsSignature.Scalar
