import Mathlib
import EdwardsSignature.Proofs.Field.AdditionChain
import EdwardsSignature.Proofs.Field.Canonical
import EdwardsSignature.Proofs.Field.Lawful

/-! Ten limbs are an exact representation of the base field.

The bounds that an element carries make every machine step the exact one, so what holds of
limbs over the integers holds of the machine's. -/

set_option autoImplicit false

namespace EdwardsSignature

theorem Bounded.floorShift {α : Type} [LimbWord α] [LawfulLimbWord α 64] {word : α} {x : Int}
    {bound : Nat} (known : Bounded word x bound) (amount : Nat)
    (small : amount < 64 := by decide) (fits : bound < 2 ^ 63 := by decide) :
    Bounded (LimbWord.shiftRight word amount) (x / 2 ^ amount) bound :=
  known.shiftRight amount (Nat.le_trans (Int.natAbs_ediv_le_natAbs _ _) known.within) small fits

namespace Limbs

section Machine

variable {α : Type} [LimbWord α] [LawfulLimbWord α 64]

theorem AllBounded.quotient {limbs : Limbs α} {values : Limbs Int}
    (known : AllBounded limbs values bound) :
    Bounded limbs.quotient values.quotient (2 ^ 31) := by
  have top := (((Bounded.literal 19).mul (known .p9)).add
    ((Bounded.literal 1).shiftLeft 24)).floorShift 25
  have low := (known .p0).add top |>.floorShift 26
  have low := (known .p1).add low |>.floorShift 25
  have low := (known .p2).add low |>.floorShift 26
  have low := (known .p3).add low |>.floorShift 25
  have low := (known .p4).add low |>.floorShift 26
  have low := (known .p5).add low |>.floorShift 25
  have low := (known .p6).add low |>.floorShift 26
  have low := (known .p7).add low |>.floorShift 25
  have low := (known .p8).add low |>.floorShift 26
  have low := (known .p9).add low |>.floorShift 25
  exact low.weaken

/-- The bounds after a floor carry out of one position. -/
def floorBounds (position : Position) (bounds : Position → Nat) (other : Position) : Nat :=
  if other = position.next then bounds other + bounds position
  else if other = position then 2 ^ position.width
  else bounds other

theorem bounded_floorRemainder {word : α} {x : Int} {magnitude : Nat} (position : Position)
    (known : Bounded word x magnitude) (fits : magnitude ≤ 2 ^ 62) :
    Bounded (word - LimbWord.shiftLeft (LimbWord.shiftRight word position.width) position.width)
      (x - x / 2 ^ position.width * 2 ^ position.width) (2 ^ position.width) := by
  have narrow : position.width ≤ 26 := by cases position <;> decide
  have weight : 2 ^ position.width ≤ 2 ^ 26 := Nat.pow_le_pow_right (by decide) narrow
  have cast : ((2 ^ position.width : Nat) : Int) = 2 ^ position.width := by push_cast; rfl
  have within := known.within
  have remainder := Int.emod_add_ediv_mul x (2 ^ position.width)
  have nonneg := Int.emod_nonneg x (b := 2 ^ position.width) (by positivity)
  have below := Int.emod_lt_of_pos x (b := 2 ^ position.width) (by positivity)
  have carried := known.floorShift position.width (by omega) (by omega)
  have shifted : LawfulLimbWord.Denotes
      (LimbWord.shiftLeft (LimbWord.shiftRight word position.width) position.width)
      (x / 2 ^ position.width * 2 ^ position.width) :=
    LawfulLimbWord.shiftLeft carried.denotes (by omega) (Bounded.inRange (by omega))
  have small : (x - x / 2 ^ position.width * 2 ^ position.width).natAbs ≤ 2 ^ position.width := by
    omega
  exact ⟨LawfulLimbWord.sub known.denotes shifted (Bounded.inRange (by omega)), small⟩

theorem AllBounded.floorCarryAt {limbs : Limbs α} {values : Limbs Int} {bounds : Position → Nat}
    (known : AllBounded limbs values bounds) (position : Position)
    (fits : bounds position ≤ 2 ^ 62 := by decide)
    (room : floorBounds position bounds position.next < 2 ^ 63 := by decide) :
    AllBounded (limbs.floorCarryAt position) (values.floorCarryAt position)
      (floorBounds position bounds) := by
  have apart := position.next_ne
  have narrow : position.width < 64 := by cases position <;> decide
  have carried := (known position).floorShift position.width narrow (by omega)
  intro other
  simp only [Limbs.floorCarryAt, get_modify, floorBounds]
  by_cases leaves : other = position
  · subst leaves
    simp only [apart.symm, ↓reduceIte]
    exact bounded_floorRemainder other (known other) fits
  · by_cases arrives : other = position.next
    · subst arrives
      simp only [floorBounds, ↓reduceIte] at room
      simp only [↓reduceIte, apart]
      exact (known position.next).add carried room
    · simp only [leaves, arrives, ↓reduceIte]
      exact known other

theorem AllBounded.modify {limbs : Limbs α} {values : Limbs Int} {bounds : Position → Nat}
    (known : AllBounded limbs values bounds) (position : Position) (change : α → α)
    (exact : Int → Int) {larger : Nat}
    (changed : Bounded (change (limbs.get position)) (exact (values.get position)) larger) :
    AllBounded (limbs.modify position change) (values.modify position exact)
      fun other => if other = position then larger else bounds other := by
  intro other
  simp only [get_modify]
  by_cases same : other = position
  · subst same
    simp only [↓reduceIte]
    exact changed
  · simp only [same, ↓reduceIte]
    exact known other

theorem AllBounded.canonical {limbs : Limbs α} {values : Limbs Int}
    (known : AllBounded limbs values bound) (position : Position) :
    LawfulLimbWord.Denotes (limbs.canonical.get position) (values.canonical.get position) := by
  have shifted := known.modify .p0 (· + LimbWord.literal 19 * limbs.quotient)
    (· + LimbWord.literal 19 * values.quotient)
    ((known .p0).add ((Bounded.literal 19).mul known.quotient))
  have chain := shifted.floorCarryAt .p0 |>.floorCarryAt .p1 |>.floorCarryAt .p2
    |>.floorCarryAt .p3 |>.floorCarryAt .p4 |>.floorCarryAt .p5 |>.floorCarryAt .p6
    |>.floorCarryAt .p7 |>.floorCarryAt .p8
  have dropped := chain.modify .p9
    (fun top => top - LimbWord.shiftLeft (LimbWord.shiftRight top 25) 25)
    (fun top => top - LimbWord.shiftLeft (LimbWord.shiftRight top 25) 25)
    (bounded_floorRemainder .p9 (chain .p9) (by decide))
  exact (dropped position).denotes

end Machine

theorem toNat_pack {digits : Limbs Int64} {values : Limbs Int}
    (stands : ∀ position, (digits.get position).toInt = values.get position)
    (settled : Settled Position.all values) : (digits.pack.toNat : Int) = values.value := by
  have digit (position : Position) : ((digits.get position).toUInt64.toNat : Int) =
      values.get position :=
    BitField.toNat_toUInt64_of_nonneg (stands position)
      (settled position (by cases position <;> decide)).1
  have below (position : Position) :
      (digits.get position).toUInt64.toNat < 2 ^ position.width := by
    have inside := (settled position (by cases position <;> decide)).2
    rw [← digit position] at inside
    exact_mod_cast inside
  have fits : BitField.Fits 0 (Position.all.map fun position =>
      (position.width, (digits.get position).toUInt64)) := by
    simp only [Position.all, List.map_cons, List.map_nil, BitField.Fits, Position.width]
    exact ⟨by decide, below .p0, by decide, below .p1, by decide, below .p2, by decide, below .p3,
      by decide, below .p4, by decide, below .p5, by decide, below .p6, by decide, below .p7,
      by decide, below .p8, by decide, Nat.lt_of_lt_of_le (below .p9) (by decide)⟩
  have packed := BitField.toNat_pack (by decide) (by decide : (0 : UInt64).toNat < 2 ^ 0) fits
  have bytes : digits.pack.toList = BitField.pack 0 0 (Position.all.map fun position =>
      (position.width, (digits.get position).toUInt64)) := rfl
  rw [Block.toNat, bytes, packed, value_eq]
  simp only [Position.all, List.map_cons, List.map_nil, BitField.fieldsValue, Position.width]
  push_cast
  rw [digit .p0, digit .p1, digit .p2, digit .p3, digit .p4, digit .p5, digit .p6, digit .p7,
    digit .p8, digit .p9]
  simp only [get]
  ring

end Limbs

namespace LimbElement

open Limbs

theorem within (element : LimbElement) : element.limbs.toInts.Within := by
  intro position
  have admissible := element.admissible position
  simp only [toInts, get_map]
  exact admissible

theorem toNat_toBlock (element : LimbElement) :
    (element.toBlock.toNat : Int) = element.limbs.toInts.value % fieldPrime := by
  rw [← element.within.value_canonical]
  exact toNat_pack element.admissible.widened.canonical (settled_canonical _)

def residue (element : LimbElement) : ZMod fieldPrime := element.limbs.toInts.residue

theorem residue_add (left right : LimbElement) :
    (left.add right).residue = left.residue + right.residue := by
  have stored : (left.add right).limbs.toInts = left.limbs.toInts.sum right.limbs.toInts :=
    (left.admissible.widened.sum right.admissible.widened).toInts_narrow
  rw [residue, stored, residue_sum]
  rfl

theorem residue_sub (left right : LimbElement) :
    (left.sub right).residue = left.residue - right.residue := by
  have stored :
      (left.sub right).limbs.toInts = left.limbs.toInts.difference right.limbs.toInts :=
    (left.admissible.widened.difference right.admissible.widened).toInts_narrow
  rw [residue, stored, residue_difference]
  rfl

theorem residue_mul (left right : LimbElement) :
    (left.mul right).residue = left.residue * right.residue := by
  have stored :
      (left.mul right).limbs.toInts = left.limbs.toInts.carriedProduct right.limbs.toInts :=
    (left.admissible.widened.carriedProduct right.admissible.widened).toInts_narrow
  rw [residue, stored, residue_carriedProduct]
  rfl

theorem residue_doubleSquare (element : LimbElement) :
    element.doubleSquare.residue = 2 * element.residue ^ 2 := by
  have stored : element.doubleSquare.limbs.toInts = element.limbs.toInts.doubledSquare :=
    element.admissible.widened.doubledSquare.toInts_narrow
  rw [residue, stored, residue_doubledSquare]
  rfl

theorem toInts_neg (element : LimbElement) :
    (-element).limbs.toInts = element.limbs.toInts.map (- ·) := by
  ext position
  have small := element.admissible position
  have wide := bound_le position
  have exact : (-(element.limbs.get position)).toInt = -(element.limbs.get position).toInt := by
    rw [Int32.toInt_neg]
    exact Int.bmod_eq_of_le (by omega) (by omega)
  have negated : (-element).limbs = element.limbs.map (- ·) := rfl
  rw [negated]
  simp only [toInts, get_map, exact]

theorem residue_neg (element : LimbElement) : element.neg.residue = -element.residue := by
  have negated : element.neg.limbs.toInts = element.limbs.toInts.map (- ·) := element.toInts_neg
  simp only [residue, negated, residue_eq, map]
  push_cast
  ring

theorem limbs_select (unset set : LimbElement) (bit : UInt8) :
    (unset.select set bit).limbs = if bit &&& 1 = 1 then set.limbs else unset.limbs := by
  ext position
  simp only [select, get_zipWith, selectLimb_selectionMask]
  split <;> rfl

theorem residue_select (unset set : LimbElement) (bit : UInt8) :
    (unset.select set bit).residue = if bit &&& 1 = 1 then set.residue else unset.residue := by
  simp only [residue, limbs_select]
  split <;> rfl

theorem residue_ofSmall (value : Int32) (small : value.toInt.natAbs ≤ 1) :
    (ofSmall value small).residue = value.toInt := by
  simp [residue, residue_eq, ofSmall, toInts, map]

private theorem mod_two_pow_add (number start width : Nat) :
    number % 2 ^ (start + width) =
      number % 2 ^ start + 2 ^ start * (number / 2 ^ start % 2 ^ width) := by
  rw [pow_add, Nat.mod_mul]

/-- How many bits decoding keeps of the bytes that begin within a limb. -/
def gatheredBits (position : Position) : Nat :=
  if position = .p9 then 23 else 8 * position.byteCount

theorem toNat_gather (bytes : Bytes) (position : Position) :
    (gather bytes position).toNat =
      bytes.toNat / 2 ^ (8 * position.firstByte) % 2 ^ gatheredBits position *
        2 ^ position.lead := by
  have few : position.byteCount ≤ 8 := by cases position <;> decide
  have room : position.lead < 64 ∧ gatheredBits position + position.lead ≤ 32 := by
    cases position <;> decide
  have bytePower (count : Nat) : 256 ^ count = 2 ^ (8 * count) := by
    rw [pow_mul]
    norm_num
  have word := BitField.toNat_word (bytes.drop position.firstByte) few
  rw [Bytes.toNat_drop, bytePower, bytePower] at word
  have kept : (if position = .p9 then
      BitField.word position.byteCount (bytes.drop position.firstByte) &&& 0x7fffff
      else BitField.word position.byteCount (bytes.drop position.firstByte)).toNat =
        bytes.toNat / 2 ^ (8 * position.firstByte) % 2 ^ gatheredBits position := by
    unfold gatheredBits
    split
    · next top =>
        subst top
        have mask : (0x7fffff : UInt64).toNat = 2 ^ 23 - 1 := by decide
        have within : 2 ^ 23 ∣ 2 ^ (8 * Position.p9.byteCount) := by decide
        rw [UInt64.toNat_and, word, mask, Nat.and_two_pow_sub_one_eq_mod,
          Nat.mod_mod_of_dvd _ within]
    · exact word
  have small := Nat.mod_lt (bytes.toNat / 2 ^ (8 * position.firstByte))
    (Nat.two_pow_pos (gatheredBits position))
  have fits : 2 ^ gatheredBits position * 2 ^ position.lead ≤ 2 ^ 32 := by
    rw [← pow_add]
    exact Nat.pow_le_pow_right (by decide) room.2
  have scaled := Nat.mul_lt_mul_of_pos_right small (Nat.two_pow_pos position.lead)
  rw [gather, BitField.toNat_shiftLeft_of_lt room.1 (by rw [kept]; omega), kept]

/-- Before any carry, the limbs of decoding write the number itself. -/
theorem value_gathered (bytes : Bytes) :
    (ofFn fun position => ((gather bytes position).toNat : Int)).value =
      (bytes.toNat % 2 ^ 255 : Nat) := by
  have whole : bytes.toNat % 2 ^ 255 =
      bytes.toNat / 2 ^ 0 % 2 ^ 32 + bytes.toNat / 2 ^ 32 % 2 ^ 24 * 2 ^ 32 +
        bytes.toNat / 2 ^ 56 % 2 ^ 24 * 2 ^ 56 + bytes.toNat / 2 ^ 80 % 2 ^ 24 * 2 ^ 80 +
        bytes.toNat / 2 ^ 104 % 2 ^ 24 * 2 ^ 104 + bytes.toNat / 2 ^ 128 % 2 ^ 32 * 2 ^ 128 +
        bytes.toNat / 2 ^ 160 % 2 ^ 24 * 2 ^ 160 + bytes.toNat / 2 ^ 184 % 2 ^ 24 * 2 ^ 184 +
        bytes.toNat / 2 ^ 208 % 2 ^ 24 * 2 ^ 208 + bytes.toNat / 2 ^ 232 % 2 ^ 23 * 2 ^ 232 := by
    rw [mod_two_pow_add _ 232 23, mod_two_pow_add _ 208 24, mod_two_pow_add _ 184 24,
      mod_two_pow_add _ 160 24, mod_two_pow_add _ 128 32, mod_two_pow_add _ 104 24,
      mod_two_pow_add _ 80 24, mod_two_pow_add _ 56 24, mod_two_pow_add _ 32 24, pow_zero,
      Nat.div_one]
    ring
  simp only [value_eq, ofFn, toNat_gather, whole, gatheredBits, Position.lead,
    Position.byteCount, Position.firstByte, Position.offset, Position.width, reduceCtorEq,
    ↓reduceIte]
  norm_num
  ring

theorem residue_decode (bytes : Bytes) :
    (decode Int bytes).residue = (bytes.toNat % 2 ^ 255 : Nat) := by
  have literal : (decode Int bytes) =
      (ofFn fun position => ((gather bytes position).toNat : Int)).settle := rfl
  rw [literal, residue_settle, Limbs.residue, value_gathered, Int.cast_natCast]

theorem residue_product_eq (left right : LimbElement) :
    (left * right).residue = left.residue * right.residue :=
  residue_mul left right

theorem residue_invert (element : LimbElement) : element.invert.residue = element.residue⁻¹ := by
  rw [invert, AdditionChain.map_inverse residue_product_eq, inverse_eq_inv]

theorem residue_rootPower (element : LimbElement) :
    element.rootPower.residue = element.residue ^ ((fieldPrime - 5) / 8) := by
  rw [rootPower, AdditionChain.map_root residue_product_eq, root_eq_rootPower]

theorem residue_zero : (0 : LimbElement).residue = 0 :=
  (residue_ofSmall 0 (by decide)).trans Int.cast_zero

theorem residue_one : (1 : LimbElement).residue = 1 :=
  (residue_ofSmall 1 (by decide)).trans Int.cast_one

theorem residue_square (element : LimbElement) :
    (BaseField.square element).residue = element.residue ^ 2 := by
  rw [pow_two]
  exact residue_mul element element

theorem residue_ofBlock (block : Block 32) :
    (LimbElement.ofBlock block).residue = (block.toNat % 2 ^ 255 : Nat) := by
  have decoded := decode_allBounded (α := Int64) block.toList
  have stored : (LimbElement.ofBlock block).limbs.toInts = decode Int block.toList :=
    decoded.toInts_narrow
  rw [residue, stored, residue_decode]
  rfl

theorem toNat_toBlock_eq_val (element : LimbElement) :
    element.toBlock.toNat = element.residue.val := by
  have exact := element.toNat_toBlock
  rw [← ZMod.val_intCast] at exact
  exact_mod_cast exact

instance lawful : LawfulBaseField LimbElement where
  value := residue
  value_zero := residue_zero
  value_one := residue_one
  value_add := residue_add
  value_sub := residue_sub
  value_neg := residue_neg
  value_mul := residue_mul
  value_square := residue_square
  value_doubleSquare := residue_doubleSquare
  value_invert := residue_invert
  value_rootPower := residue_rootPower
  value_select := residue_select
  value_ofBlock := residue_ofBlock
  toNat_toBlock := toNat_toBlock_eq_val
  isNonZero_iff element := Block.isNonZero_iff_of_val (toNat_toBlock_eq_val element)
  same_iff left right :=
    Block.equal_iff_of_val (toNat_toBlock_eq_val left) (toNat_toBlock_eq_val right)

end LimbElement

end EdwardsSignature
