import EdwardsSignature.Field.Basic
import EdwardsSignature.Field.LimbBounds
import EdwardsSignature.Field.AdditionChain

/-! Field elements as ten limbs that always keep their bounds.

Every operation ends within the bounds that multiplication relies on, so the bounds are
part of the type and no caller has to track them. -/
set_option autoImplicit false
namespace EdwardsSignature

/-! Powers are core's here, whatever other instances are in scope. -/
attribute [local instance (high)] instPowNat

/-- Limbs within their widths. Different limbs may stand for one residue. -/
structure LimbElement where
  limbs : Limbs Int32
  admissible : limbs.Admissible

namespace Limbs

theorem widen_allBounded {limbs : Limbs Int32} {bounds : Position → Nat}
    (within : ∀ position, (limbs.get position).toInt.natAbs ≤ bounds position) :
    AllBounded limbs.widen limbs.toInts bounds := by
  intro position
  simp only [widen, toInts, get_map]
  exact ⟨Int32.toInt_toInt64 _, within position⟩

theorem bound_le (position : Position) : bound position ≤ 2 ^ (26 : Nat) := by
  cases position <;> decide

theorem AllBounded.toInts_narrow {limbs : Limbs Int64} {values : Limbs Int}
    (known : AllBounded limbs values bound) : limbs.narrow.toInts = values := by
  ext position
  have stands : (limbs.get position).toInt = values.get position := (known position).denotes
  have small := Nat.le_trans (known position).within (bound_le position)
  simp only [toInts, narrow, get_map, Int64.toInt_toInt32, stands]
  exact Int.bmod_eq_of_le (by omega) (by omega)

theorem AllBounded.admissible_narrow {limbs : Limbs Int64} {values : Limbs Int}
    (known : AllBounded limbs values bound) : limbs.narrow.Admissible := by
  intro position
  have exact := congrArg (Limbs.get · position) known.toInts_narrow
  simp only [toInts, get_map] at exact
  rw [exact]
  exact (known position).within

theorem Admissible.widened {limbs : Limbs Int32} (admissible : limbs.Admissible) :
    AllBounded limbs.widen limbs.toInts bound :=
  widen_allBounded admissible

theorem AllBounded.weaken {α : Type} [LimbWord α] [LawfulLimbWord α 64] {limbs : Limbs α}
    {values : Limbs Int} {bounds larger : Position → Nat} (known : AllBounded limbs values bounds)
    (le : ∀ position, bounds position ≤ larger position) : AllBounded limbs values larger :=
  fun position => (known position).weaken (le position)

section Operations

variable {α : Type} [LimbWord α] [LawfulLimbWord α 64] {left right limbs : Limbs α}
  {leftValues rightValues values : Limbs Int}

theorem AllBounded.add (f : AllBounded left leftValues bound)
    (g : AllBounded right rightValues bound) :
    AllBounded (zipWith (· + ·) left right) (zipWith (· + ·) leftValues rightValues)
      fun _ => 2 ^ (60 : Nat) := by
  intro position
  have small := bound_le position
  simp only [get_zipWith]
  exact ((f position).add (g position) (by omega)).weaken (by omega)

theorem AllBounded.sub (f : AllBounded left leftValues bound)
    (g : AllBounded right rightValues bound) :
    AllBounded (zipWith (· - ·) left right) (zipWith (· - ·) leftValues rightValues)
      fun _ => 2 ^ (60 : Nat) := by
  intro position
  have small := bound_le position
  simp only [get_zipWith]
  exact ((f position).sub (g position) (by omega)).weaken (by omega)

theorem AllBounded.double (known : AllBounded limbs values fun _ => 2 ^ (59 : Nat)) :
    AllBounded (limbs.map (LimbWord.shiftLeft · 1)) (values.map (LimbWord.shiftLeft · 1))
      fun _ => 2 ^ (60 : Nat) := by
  intro position
  simp only [get_map]
  have half : Bounded (limbs.get position) (values.get position) (2 ^ (59 : Nat)) := known position
  exact half.shiftLeft 1

theorem AllBounded.sum (f : AllBounded left leftValues bound)
    (g : AllBounded right rightValues bound) :
    AllBounded (left.sum right) (leftValues.sum rightValues) bound :=
  (f.add g).carry

theorem AllBounded.difference (f : AllBounded left leftValues bound)
    (g : AllBounded right rightValues bound) :
    AllBounded (left.difference right) (leftValues.difference rightValues) bound :=
  (f.sub g).carry

theorem AllBounded.carriedProduct (f : AllBounded left leftValues bound)
    (g : AllBounded right rightValues bound) :
    AllBounded (left.carriedProduct right) (leftValues.carriedProduct rightValues) bound :=
  ((f.product g).weaken fun _ => by decide).carry

theorem AllBounded.doubledSquare (known : AllBounded limbs values bound) :
    AllBounded limbs.doubledSquare values.doubledSquare bound :=
  (known.product known).double.carry

end Operations

end Limbs

namespace LimbElement

open Limbs

def add (left right : LimbElement) : LimbElement where
  limbs := (left.limbs.widen.sum right.limbs.widen).narrow
  admissible := (left.admissible.widened.sum right.admissible.widened).admissible_narrow

def sub (left right : LimbElement) : LimbElement where
  limbs := (left.limbs.widen.difference right.limbs.widen).narrow
  admissible := (left.admissible.widened.difference right.admissible.widened).admissible_narrow

def mul (left right : LimbElement) : LimbElement where
  limbs := (left.limbs.widen.carriedProduct right.limbs.widen).narrow
  admissible :=
    (left.admissible.widened.carriedProduct right.admissible.widened).admissible_narrow

def doubleSquare (element : LimbElement) : LimbElement where
  limbs := element.limbs.widen.doubledSquare.narrow
  admissible := element.admissible.widened.doubledSquare.admissible_narrow

/-- Negation stays within the widths, which are symmetric, and needs no carry. -/
def neg (element : LimbElement) : LimbElement where
  limbs := element.limbs.map (- ·)
  admissible := by
    intro position
    have small := element.admissible position
    have wide := bound_le position
    have exact : (-(element.limbs.get position)).toInt = -(element.limbs.get position).toInt := by
      rw [Int32.toInt_neg]
      exact Int.bmod_eq_of_le (by omega) (by omega)
    rw [get_map, exact, Int.natAbs_neg]
    exact small

/-- All bits of a word when the byte's lowest bit is set, and none otherwise. -/
def selectionMask (bit : UInt8) : Int32 := -(bit &&& 1).toUInt32.toInt32

/-- Masked exchange of one limb: the difference is applied where the mask has ones. -/
def selectLimb (mask unset set : Int32) : Int32 := unset ^^^ ((unset ^^^ set) &&& mask)

theorem selectLimb_selectionMask (bit : UInt8) (unset set : Int32) :
    selectLimb (selectionMask bit) unset set = if bit &&& 1 = 1 then set else unset := by
  have parity : bit &&& 1 = 0 ∨ bit &&& 1 = 1 := by
    have low : (bit &&& 1).toNat = bit.toNat % 2 := by
      rw [UInt8.toNat_and]
      exact Nat.and_one_is_mod _
    rcases Nat.mod_two_eq_zero_or_one bit.toNat with even | odd
    · exact .inl (UInt8.toNat_inj.mp (low.trans even))
    · exact .inr (UInt8.toNat_inj.mp (low.trans odd))
  unfold selectLimb selectionMask
  rcases parity with even | odd
  · rw [even, if_neg (by decide)]
    show unset ^^^ ((unset ^^^ set) &&& 0) = unset
    rw [Int32.and_zero, Int32.xor_zero]
  · rw [odd, if_pos rfl]
    show unset ^^^ ((unset ^^^ set) &&& -1) = set
    rw [Int32.and_neg_one, ← Int32.xor_assoc, Int32.xor_self, Int32.zero_xor]

def select (unset set : LimbElement) (bit : UInt8) : LimbElement where
  limbs := zipWith (selectLimb (selectionMask bit)) unset.limbs set.limbs
  admissible := by
    intro position
    rw [get_zipWith, selectLimb_selectionMask]
    split
    · exact set.admissible position
    · exact unset.admissible position

/-- Limbs are taken as they are given, if they are within their widths. -/
def ofLimbs? (limbs : Limbs Int32) : Option LimbElement :=
  if admissible : limbs.Admissible then some ⟨limbs, admissible⟩ else none

def ofBlock (block : Block 32) : LimbElement where
  limbs := Limbs.ofBlock block
  admissible := (decode_allBounded (α := Int64) block.toList).admissible_narrow

def toBlock (element : LimbElement) : Block 32 :=
  element.limbs.widen.canonical.pack

def ofSmall (value : Int32) (small : value.toInt.natAbs ≤ 1) : LimbElement where
  limbs := ⟨value, 0, 0, 0, 0, 0, 0, 0, 0, 0⟩
  admissible := by
    intro position
    cases position
    case p0 => exact Nat.le_trans small (by decide)
    all_goals exact Nat.zero_le _

instance : Mul LimbElement := ⟨mul⟩

def invert (element : LimbElement) : LimbElement := AdditionChain.inverse element

def rootPower (element : LimbElement) : LimbElement := AdditionChain.root element

/-- Different limbs may stand for one residue, so encodings are compared. -/
def same (left right : LimbElement) : Bool :=
  BranchFree.equal left.toBlock.toList right.toBlock.toList

def describe (element : LimbElement) : String :=
  s!"Fe25519({Bytes.hex element.toBlock.toList})"

instance : BaseField LimbElement where
  zero := ofSmall 0 (by decide)
  one := ofSmall 1 (by decide)
  add := add
  sub := sub
  neg := neg
  mul := mul
  ofBlock := ofBlock
  toBlock := toBlock
  square element := mul element element
  doubleSquare := doubleSquare
  invert := invert
  rootPower := rootPower
  select := select
  same := same
  describe := describe

end LimbElement

end EdwardsSignature
