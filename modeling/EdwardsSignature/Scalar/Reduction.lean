import EdwardsSignature.Limb.Word
import EdwardsSignature.BitField
import EdwardsSignature.Scalar.Order

/-! Reduction modulo the order in limbs of 21 bits.

Limb `i` weighs `2 ^ (21 · i)`, so limb 12 starts at bit 252, where the order has its
highest bit. What lies there is folded back through the low part of the order. The
whole reduction is a fixed schedule of folds and carries, which no limb value changes. -/
set_option autoImplicit false
namespace EdwardsSignature.Scalar

open LimbWord

/-- The digits of `2 ^ 252` less the order, from the least significant one up. -/
def foldDigits : Vector Int 6 := #v[666643, 470296, 654183, -997805, 136657, -683901]

/-- Room for a product of two scalars, or for 512 bits. -/
abbrev Accumulator (α : Type) := Vector α 24

inductive Step where
  /-- Replaces the limb twelve places above `low` by its multiple of the fold digits. -/
  | fold (low : Fin 12)
  /-- Carries the rounded quotient by `2 ^ 21` into the next limb. -/
  | carry (source : Fin 23)
  /-- Carries the floor quotient by `2 ^ 21` into the next limb. -/
  | floorCarry (source : Fin 23)
  deriving DecidableEq, Repr

section Arithmetic

variable {α : Type} [LimbWord α]

def moveUp (limbs : Accumulator α) (source : Fin 23) (carried : α) : Accumulator α :=
  let raised := limbs.set (source.val + 1) (limbs[source.val + 1] + carried)
  raised.set source.val (raised[source.val] - shiftLeft carried 21)

def addFolded (limbs : Accumulator α) (low : Fin 12) : Accumulator α :=
  let folded := limbs[low.val + 12]
  (List.finRange 6).foldl (fun current digit =>
    current.set (low.val + digit.val)
      (current[low.val + digit.val] + folded * literal foldDigits[digit])) limbs

def Step.apply (limbs : Accumulator α) : Step → Accumulator α
  | fold low => (addFolded limbs low).set (low.val + 12) (literal 0)
  | carry source =>
      moveUp limbs source
        (shiftRight (limbs[source.val] + shiftLeft (literal 1) 20) 21)
  | floorCarry source => moveUp limbs source (shiftRight limbs[source.val] 21)

/-- The order of steps: the upper six limbs, rounding carries, the next six, rounding
carries again, and twice limb 12 with a chain of floor carries. -/
def reductionSchedule : List Step :=
  [.fold 11, .fold 10, .fold 9, .fold 8, .fold 7, .fold 6,
    .carry 6, .carry 8, .carry 10, .carry 12, .carry 14, .carry 16,
    .carry 7, .carry 9, .carry 11, .carry 13, .carry 15,
    .fold 5, .fold 4, .fold 3, .fold 2, .fold 1, .fold 0,
    .carry 0, .carry 2, .carry 4, .carry 6, .carry 8, .carry 10,
    .carry 1, .carry 3, .carry 5, .carry 7, .carry 9, .carry 11,
    .fold 0,
    .floorCarry 0, .floorCarry 1, .floorCarry 2, .floorCarry 3, .floorCarry 4, .floorCarry 5,
    .floorCarry 6, .floorCarry 7, .floorCarry 8, .floorCarry 9, .floorCarry 10, .floorCarry 11,
    .fold 0,
    .floorCarry 0, .floorCarry 1, .floorCarry 2, .floorCarry 3, .floorCarry 4, .floorCarry 5,
    .floorCarry 6, .floorCarry 7, .floorCarry 8, .floorCarry 9, .floorCarry 10]

/-- Rounding carries out of every limb of a product, even limbs first. -/
def productSchedule : List Step :=
  [.carry 0, .carry 2, .carry 4, .carry 6, .carry 8, .carry 10, .carry 12, .carry 14, .carry 16,
    .carry 18, .carry 20, .carry 22,
    .carry 1, .carry 3, .carry 5, .carry 7, .carry 9, .carry 11, .carry 13, .carry 15, .carry 17,
    .carry 19, .carry 21]

def run (schedule : List Step) (limbs : Accumulator α) : Accumulator α :=
  schedule.foldl Step.apply limbs

/-- Splits a little-endian integer into limbs; the last one keeps every bit that is left. -/
def split (α : Type) [LimbWord α] (count : Nat) (bytes : Bytes) : Vector α count :=
  Vector.ofFn fun index : Fin count =>
    let limb := if index.val + 1 < count then BitField.field bytes (21 * index.val) 21
      else BitField.window bytes (21 * index.val)
    literal (limb.toNat : Int)

/-- The limbs of `left · right + addend`, column by column. -/
def productPlus (left right addend : Vector α 12) : Accumulator α :=
  Vector.ofFn fun column : Fin 24 =>
    let start := if low : column.val < 12 then addend[column.val] else literal 0
    (List.finRange 12).foldl (fun total row =>
      if inside : row.val ≤ column.val ∧ column.val - row.val < 12 then
        total + left[row.val] * right[column.val - row.val]
      else total) start

end Arithmetic

/-- Writes the low twelve limbs: 252 bits, and so 31 whole bytes and one of four bits. -/
def pack (limbs : Accumulator Int64) : Block 32 :=
  BitField.packBlock 32
    ((limbs.toList.take 12).map fun limb => (21, limb.toUInt64))
    (by rw [BitField.totalWidth_map_const, List.length_take, Vector.length_toList]; rfl)

def reduceLimbs (wide : Block 64) : Block 32 :=
  pack (run reductionSchedule (split Int64 24 wide.toList))

def multiplyAddLimbs (left right addend : Block 32) : Block 32 :=
  let product := productPlus (split Int64 12 left.toList) (split Int64 12 right.toList)
    (split Int64 12 addend.toList)
  pack (run (productSchedule ++ reductionSchedule) product)

end EdwardsSignature.Scalar
