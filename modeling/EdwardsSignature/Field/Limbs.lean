import EdwardsSignature.Limb.Word
import EdwardsSignature.Bytes
import EdwardsSignature.BitField

/-! Ten signed limbs of alternately 26 and 25 bits.

The limb at a position weighs `2 ^ ⌈25.5 · i⌉`, and `2 ^ 255` is worth `19`. The
algorithms are written over any `LimbWord`; the machine keeps each limb in 32 bits
between operations and works in 64 bits within one. -/
set_option autoImplicit false
namespace EdwardsSignature

/-! Powers are core's here, whatever other instances are in scope. -/
attribute [local instance (high)] instPowNat

inductive Position where
  | p0 | p1 | p2 | p3 | p4 | p5 | p6 | p7 | p8 | p9
  deriving DecidableEq, Repr

namespace Position

/-- Even positions are one bit wider. -/
@[inline] def width : Position → Nat
  | p0 | p2 | p4 | p6 | p8 => 26
  | p1 | p3 | p5 | p7 | p9 => 25

/-- The bit at which a limb starts: the widths below it added up. -/
@[inline] def offset : Position → Nat
  | p0 => 0 | p1 => 26 | p2 => 51 | p3 => 77 | p4 => 102
  | p5 => 128 | p6 => 153 | p7 => 179 | p8 => 204 | p9 => 230

/-- Where a carry goes. The top position carries into the bottom one. -/
@[inline] def next : Position → Position
  | p0 => p1 | p1 => p2 | p2 => p3 | p3 => p4 | p4 => p5
  | p5 => p6 | p6 => p7 | p7 => p8 | p8 => p9 | p9 => p0

/-- The first whole byte at or above a limb's lowest bit. -/
def firstByte (position : Position) : Nat := (position.offset + 7) / 8

/-- How many bytes begin within a limb. -/
def byteCount (position : Position) : Nat :=
  (position.offset + position.width + 7) / 8 - position.firstByte

/-- How many bits of a limb lie below its first whole byte. -/
def lead (position : Position) : Nat := 8 * position.firstByte - position.offset

def all : List Position := [p0, p1, p2, p3, p4, p5, p6, p7, p8, p9]

theorem mem_all (position : Position) : position ∈ all := by
  cases position <;> decide

example : all.map offset = (List.range 10).map fun index => (51 * index + 1) / 2 := by decide

example : all.map (fun position => (position.firstByte, position.byteCount, position.lead)) =
    [(0, 4, 0), (4, 3, 6), (7, 3, 5), (10, 3, 3), (13, 3, 2),
      (16, 4, 0), (20, 3, 7), (23, 3, 5), (26, 3, 4), (29, 3, 2)] := by decide

theorem next_ne (position : Position) : position.next ≠ position := by
  cases position <;> decide

end Position

structure Limbs (α : Type) where
  (l0 l1 l2 l3 l4 l5 l6 l7 l8 l9 : α)
  deriving DecidableEq, Repr

namespace Limbs

variable {α β γ : Type}

@[inline] def get (limbs : Limbs α) : Position → α
  | .p0 => limbs.l0 | .p1 => limbs.l1 | .p2 => limbs.l2 | .p3 => limbs.l3 | .p4 => limbs.l4
  | .p5 => limbs.l5 | .p6 => limbs.l6 | .p7 => limbs.l7 | .p8 => limbs.l8 | .p9 => limbs.l9

@[inline] def ofFn (value : Position → α) : Limbs α :=
  ⟨value .p0, value .p1, value .p2, value .p3, value .p4,
    value .p5, value .p6, value .p7, value .p8, value .p9⟩

@[inline] def map (change : α → β) (limbs : Limbs α) : Limbs β :=
  ⟨change limbs.l0, change limbs.l1, change limbs.l2, change limbs.l3, change limbs.l4,
    change limbs.l5, change limbs.l6, change limbs.l7, change limbs.l8, change limbs.l9⟩

@[inline] def zipWith (combine : α → β → γ) (left : Limbs α) (right : Limbs β) : Limbs γ :=
  ⟨combine left.l0 right.l0, combine left.l1 right.l1, combine left.l2 right.l2,
    combine left.l3 right.l3, combine left.l4 right.l4, combine left.l5 right.l5,
    combine left.l6 right.l6, combine left.l7 right.l7, combine left.l8 right.l8,
    combine left.l9 right.l9⟩

@[inline] def modify (limbs : Limbs α) (position : Position) (change : α → α) : Limbs α :=
  match position with
  | .p0 => { limbs with l0 := change limbs.l0 }
  | .p1 => { limbs with l1 := change limbs.l1 }
  | .p2 => { limbs with l2 := change limbs.l2 }
  | .p3 => { limbs with l3 := change limbs.l3 }
  | .p4 => { limbs with l4 := change limbs.l4 }
  | .p5 => { limbs with l5 := change limbs.l5 }
  | .p6 => { limbs with l6 := change limbs.l6 }
  | .p7 => { limbs with l7 := change limbs.l7 }
  | .p8 => { limbs with l8 := change limbs.l8 }
  | .p9 => { limbs with l9 := change limbs.l9 }

@[ext] theorem ext_get {left right : Limbs α}
    (same : ∀ position, left.get position = right.get position) : left = right := by
  cases left
  cases right
  simp only [mk.injEq]
  exact ⟨same .p0, same .p1, same .p2, same .p3, same .p4, same .p5, same .p6, same .p7,
    same .p8, same .p9⟩

@[simp] theorem get_ofFn (value : Position → α) (position : Position) :
    (ofFn value).get position = value position := by
  cases position <;> rfl

@[simp] theorem get_map (change : α → β) (limbs : Limbs α) (position : Position) :
    (limbs.map change).get position = change (limbs.get position) := by
  cases position <;> rfl

@[simp] theorem get_zipWith (combine : α → β → γ) (left : Limbs α) (right : Limbs β)
    (position : Position) :
    (zipWith combine left right).get position =
      combine (left.get position) (right.get position) := by
  cases position <;> rfl

theorem get_modify (limbs : Limbs α) (position other : Position) (change : α → α) :
    (limbs.modify position change).get other =
      if other = position then change (limbs.get other) else limbs.get other := by
  cases position <;> cases other <;> rfl

section Arithmetic

variable [LimbWord α]
open LimbWord

/-- A carry is worth `19` of itself when it leaves the top position. -/
@[inline] def wrapped : Position → α → α
  | .p9, carried => carried * literal 19
  | _, carried => carried

/-- The quotient by the weight of the next limb, rounded to the nearest integer. -/
@[inline] def roundedQuotient (width : Nat) (value : α) : α :=
  shiftRight (value + shiftLeft (literal 1) (width - 1)) width

/-- Carries out of one position and into the next, leaving a signed remainder. -/
@[inline] def carryAt (position : Position) (limbs : Limbs α) : Limbs α :=
  let carried := roundedQuotient position.width (limbs.get position)
  (limbs.modify position (· - shiftLeft carried position.width)).modify position.next
    (· + wrapped position carried)

/-- The carry pass behind every operation: two interleaved chains, from positions 0 and 4,
and a second carry where each chain ends. -/
@[inline] def carry (limbs : Limbs α) : Limbs α :=
  limbs |> carryAt .p0 |> carryAt .p4 |> carryAt .p1 |> carryAt .p5 |> carryAt .p2 |> carryAt .p6
    |> carryAt .p3 |> carryAt .p7 |> carryAt .p4 |> carryAt .p8 |> carryAt .p9 |> carryAt .p0

/-- A product of two odd limbs weighs twice what its position does. -/
@[inline] def twice (value : α) : α := value * literal 2

/-- A product beyond the top position comes back at the bottom. -/
@[inline] def around (value : α) : α := value * literal 19

@[inline] def product (f g : Limbs α) : Limbs α where
  l0 := f.l0 * g.l0 + around (twice (f.l1 * g.l9)) + around (f.l2 * g.l8)
    + around (twice (f.l3 * g.l7)) + around (f.l4 * g.l6) + around (twice (f.l5 * g.l5))
    + around (f.l6 * g.l4) + around (twice (f.l7 * g.l3)) + around (f.l8 * g.l2)
    + around (twice (f.l9 * g.l1))
  l1 := f.l0 * g.l1 + f.l1 * g.l0 + around (f.l2 * g.l9) + around (f.l3 * g.l8)
    + around (f.l4 * g.l7) + around (f.l5 * g.l6) + around (f.l6 * g.l5) + around (f.l7 * g.l4)
    + around (f.l8 * g.l3) + around (f.l9 * g.l2)
  l2 := f.l0 * g.l2 + twice (f.l1 * g.l1) + f.l2 * g.l0 + around (twice (f.l3 * g.l9))
    + around (f.l4 * g.l8) + around (twice (f.l5 * g.l7)) + around (f.l6 * g.l6)
    + around (twice (f.l7 * g.l5)) + around (f.l8 * g.l4) + around (twice (f.l9 * g.l3))
  l3 := f.l0 * g.l3 + f.l1 * g.l2 + f.l2 * g.l1 + f.l3 * g.l0 + around (f.l4 * g.l9)
    + around (f.l5 * g.l8) + around (f.l6 * g.l7) + around (f.l7 * g.l6) + around (f.l8 * g.l5)
    + around (f.l9 * g.l4)
  l4 := f.l0 * g.l4 + twice (f.l1 * g.l3) + f.l2 * g.l2 + twice (f.l3 * g.l1) + f.l4 * g.l0
    + around (twice (f.l5 * g.l9)) + around (f.l6 * g.l8) + around (twice (f.l7 * g.l7))
    + around (f.l8 * g.l6) + around (twice (f.l9 * g.l5))
  l5 := f.l0 * g.l5 + f.l1 * g.l4 + f.l2 * g.l3 + f.l3 * g.l2 + f.l4 * g.l1 + f.l5 * g.l0
    + around (f.l6 * g.l9) + around (f.l7 * g.l8) + around (f.l8 * g.l7) + around (f.l9 * g.l6)
  l6 := f.l0 * g.l6 + twice (f.l1 * g.l5) + f.l2 * g.l4 + twice (f.l3 * g.l3) + f.l4 * g.l2
    + twice (f.l5 * g.l1) + f.l6 * g.l0 + around (twice (f.l7 * g.l9)) + around (f.l8 * g.l8)
    + around (twice (f.l9 * g.l7))
  l7 := f.l0 * g.l7 + f.l1 * g.l6 + f.l2 * g.l5 + f.l3 * g.l4 + f.l4 * g.l3 + f.l5 * g.l2
    + f.l6 * g.l1 + f.l7 * g.l0 + around (f.l8 * g.l9) + around (f.l9 * g.l8)
  l8 := f.l0 * g.l8 + twice (f.l1 * g.l7) + f.l2 * g.l6 + twice (f.l3 * g.l5) + f.l4 * g.l4
    + twice (f.l5 * g.l3) + f.l6 * g.l2 + twice (f.l7 * g.l1) + f.l8 * g.l0
    + around (twice (f.l9 * g.l9))
  l9 := f.l0 * g.l9 + f.l1 * g.l8 + f.l2 * g.l7 + f.l3 * g.l6 + f.l4 * g.l5 + f.l5 * g.l4
    + f.l6 * g.l3 + f.l7 * g.l2 + f.l8 * g.l1 + f.l9 * g.l0

@[inline] def sum (f g : Limbs α) : Limbs α := (zipWith (· + ·) f g).carry

@[inline] def difference (f g : Limbs α) : Limbs α := (zipWith (· - ·) f g).carry

/-- The carry pass behind decoding: odd positions first and then even ones, so that no
position is carried out of twice. -/
@[inline] def settle (limbs : Limbs α) : Limbs α :=
  limbs |> carryAt .p1 |> carryAt .p3 |> carryAt .p5 |> carryAt .p7 |> carryAt .p9
    |> carryAt .p0 |> carryAt .p2 |> carryAt .p4 |> carryAt .p6 |> carryAt .p8

@[inline] def carriedProduct (f g : Limbs α) : Limbs α := (f.product g).carry

/-- The product with itself is doubled before the carry pass. -/
@[inline] def doubledSquare (f : Limbs α) : Limbs α := ((f.product f).map (shiftLeft · 1)).carry

/-- How many times the prime fits, found from the top limb and then along all limbs. -/
@[inline] def quotient (h : Limbs α) : α :=
  let above (below limb : α) (width : Nat) : α := shiftRight (limb + below) width
  let top := shiftRight (literal 19 * h.l9 + shiftLeft (literal 1) 24) 25
  let q := above (above (above (above (above top h.l0 26) h.l1 25) h.l2 26) h.l3 25) h.l4 26
  above (above (above (above (above q h.l5 25) h.l6 26) h.l7 25) h.l8 26) h.l9 25

/-- Carries the floor quotient out of a position below the top. -/
@[inline] def floorCarryAt (position : Position) (limbs : Limbs α) : Limbs α :=
  let carried := shiftRight (limbs.get position) position.width
  (limbs.modify position.next (· + carried)).modify position
    (· - shiftLeft carried position.width)

/-- Drops the multiple of `2 ^ 255` that the top limb holds. -/
@[inline] def dropTop (limbs : Limbs α) : Limbs α :=
  limbs.modify .p9 fun top => top - shiftLeft (shiftRight top 25) 25

/-- The digits of the least non-negative residue: the quotient's multiples of `19` come in
at the bottom, and one chain of floor carries takes `2 ^ 255` times the quotient out at
the top. -/
@[inline] def canonical (limbs : Limbs α) : Limbs α :=
  let shifted := limbs.modify .p0 (· + literal 19 * quotient limbs)
  shifted |> floorCarryAt .p0 |> floorCarryAt .p1 |> floorCarryAt .p2 |> floorCarryAt .p3
    |> floorCarryAt .p4 |> floorCarryAt .p5 |> floorCarryAt .p6 |> floorCarryAt .p7
    |> floorCarryAt .p8 |> dropTop

end Arithmetic

def value (limbs : Limbs Int) : Int :=
  Position.all.foldr (fun position sum => limbs.get position * 2 ^ position.offset + sum) 0

@[inline] def widen (limbs : Limbs Int32) : Limbs Int64 := limbs.map Int32.toInt64

@[inline] def narrow (limbs : Limbs Int64) : Limbs Int32 := limbs.map Int64.toInt32

def toInts (limbs : Limbs Int32) : Limbs Int := limbs.map Int32.toInt

/-- The bound that every operation keeps: a limb of full width, with its sign. -/
def bound (position : Position) : Nat := 2 ^ position.width

/-- Limbs within the bound, so that multiplication stays in 64 bits. -/
def Admissible (limbs : Limbs Int32) : Prop :=
  ∀ position, (limbs.get position).toInt.natAbs ≤ bound position

instance (limbs : Limbs Int32) : Decidable limbs.Admissible :=
  decidable_of_iff (∀ position ∈ Position.all, (limbs.get position).toInt.natAbs ≤ bound position)
    ⟨fun within position => within position position.mem_all,
      fun within position _ => within position⟩

/-- Writes canonical digits: 255 bits, and so 31 whole bytes and one of seven bits. -/
def pack (digits : Limbs Int64) : Block 32 :=
  BitField.packBlock 32
    (Position.all.map fun position => (position.width, (digits.get position).toUInt64))
    (by simp only [Position.all, List.map, BitField.totalWidth, Position.width])

/-- The whole bytes that begin within a limb, at the limb's scale. The top limb leaves out
bit 255. -/
def gather (bytes : Bytes) (position : Position) : UInt64 :=
  let loaded := BitField.word position.byteCount (bytes.drop position.firstByte)
  let kept := if position = .p9 then loaded &&& 0x7fffff else loaded
  kept <<< UInt64.ofNat position.lead

/-- The number in the low 255 bits: each limb takes whole bytes, and what exceeds its width
is carried on. -/
def decode (α : Type) [LimbWord α] (bytes : Bytes) : Limbs α :=
  (ofFn fun position => LimbWord.literal ((gather bytes position).toNat : Int)).settle

def ofBlock (block : Block 32) : Limbs Int32 := (decode Int64 block.toList).narrow

end Limbs

end EdwardsSignature
