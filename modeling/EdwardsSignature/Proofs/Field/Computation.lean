import Mathlib
import EdwardsSignature.Proofs.Field.LimbElement

/-! Computations on limbs that watch every word.

A computation is run a second time on words that remember leaving their range: 64 bits
within an operation, 32 bits for what is kept between operations. That run always comes to
the limbs that the machine keeps, so nothing overflows and nothing is lost in storing. -/

set_option autoImplicit false

namespace EdwardsSignature

namespace Checked

/-- Moves a word to another width, where nothing is left of a value that does not fit. -/
def resize {source : Nat} (target : Nat) (word : Checked source) : Checked target :=
  match word.value? with
  | some value => ofInt target value
  | none => ⟨none⟩

def negate {width : Nat} (word : Checked width) : Checked width :=
  match word.value? with
  | some value => ofInt width (-value)
  | none => ⟨none⟩

end Checked

namespace Limbs

/-- Kept limbs, on words that remember leaving their range. -/
def stored (limbs : Limbs Int32) : Limbs (Checked 32) :=
  limbs.map fun limb => Checked.ofInt 32 limb.toInt

def load (limbs : Limbs (Checked 32)) : Limbs (Checked 64) := limbs.map (Checked.resize 64)

def store (limbs : Limbs (Checked 64)) : Limbs (Checked 32) := limbs.map (Checked.resize 32)

theorem inRange_toInt (limb : Int32) : InRange 32 limb.toInt := ⟨limb.le_toInt, limb.toInt_lt⟩

/-- A kept limb is there: it has not left the range. -/
theorem value?_stored (limbs : Limbs Int32) (position : Position) :
    (limbs.stored.get position).value? = some (limbs.get position).toInt := by
  rw [stored, get_map]
  exact Checked.ofInt_of_inRange (inRange_toInt _)

theorem Admissible.loaded {limbs : Limbs Int32} (admissible : limbs.Admissible) :
    AllBounded limbs.stored.load limbs.toInts bound := by
  intro position
  have small := admissible position
  have wide := bound_le position
  have inside : InRange 64 (limbs.get position).toInt := Bounded.inRange (by omega)
  rw [load, toInts, get_map, get_map, Checked.resize, value?_stored]
  exact ⟨Checked.ofInt_of_inRange inside, small⟩

/-- Where the exact limbs are within their widths, both runs keep the same limbs. -/
theorem AllBounded.store_eq {checked : Limbs (Checked 64)} {words : Limbs Int64}
    {values : Limbs Int} (checks : AllBounded checked values bound)
    (runs : AllBounded words values bound) : checked.store = words.narrow.stored := by
  have kept := runs.toInts_narrow
  ext1 position
  have holds : (checked.get position).value? = some (values.get position) :=
    (checks position).denotes
  rw [store, stored, get_map, get_map, Checked.resize, holds, ← kept, toInts, get_map]

instance : Mul (Limbs (Checked 32)) := ⟨fun f g => (f.load.carriedProduct g.load).store⟩

end Limbs

namespace LimbElement

variable (left right element : LimbElement)

theorem stored_add :
    (left + right).limbs.stored = (left.limbs.stored.load.sum right.limbs.stored.load).store :=
  ((left.admissible.loaded.sum right.admissible.loaded).store_eq
    (left.admissible.widened.sum right.admissible.widened)).symm

theorem stored_sub :
    (left - right).limbs.stored =
      (left.limbs.stored.load.difference right.limbs.stored.load).store :=
  ((left.admissible.loaded.difference right.admissible.loaded).store_eq
    (left.admissible.widened.difference right.admissible.widened)).symm

theorem stored_mul :
    (left * right).limbs.stored = left.limbs.stored * right.limbs.stored :=
  ((left.admissible.loaded.carriedProduct right.admissible.loaded).store_eq
    (left.admissible.widened.carriedProduct right.admissible.widened)).symm

theorem stored_doubleSquare :
    (BaseField.doubleSquare element).limbs.stored =
      element.limbs.stored.load.doubledSquare.store :=
  (element.admissible.loaded.doubledSquare.store_eq
    element.admissible.widened.doubledSquare).symm

theorem stored_neg : (-element).limbs.stored = element.limbs.stored.map Checked.negate := by
  ext1 position
  have exact := congrArg (Limbs.get · position) element.toInts_neg
  simp only [Limbs.toInts, Limbs.get_map] at exact
  rw [Limbs.get_map, Checked.negate, Limbs.value?_stored, Limbs.stored, Limbs.get_map, exact]

def stored (element : LimbElement) : Limbs (Checked 32) := element.limbs.stored

theorem stored_product (left right : LimbElement) :
    (left * right).stored = left.stored * right.stored :=
  stored_mul left right

theorem stored_invert :
    (BaseField.invert element).limbs.stored = AdditionChain.inverse element.limbs.stored :=
  AdditionChain.map_inverse stored_product element

theorem stored_rootPower :
    (BaseField.rootPower element).limbs.stored = AdditionChain.root element.limbs.stored :=
  AdditionChain.map_root stored_product element

theorem stored_ofBlock (block : Block 32) :
    (BaseField.ofBlock block : LimbElement).limbs.stored =
      (Limbs.decode (Checked 64) block.toList).store :=
  ((Limbs.decode_allBounded block.toList).store_eq (Limbs.decode_allBounded block.toList)).symm

end LimbElement

/-- What is computed from limbs within their widths: constants, decoded blocks, and what
operations make of results that are there already. -/
inductive LimbComputation where
  | given (element : LimbElement)
  | zero
  | one
  | decoded (block : Block 32)
  | add (left right : LimbComputation)
  | subtract (left right : LimbComputation)
  | negate (operand : LimbComputation)
  | multiply (left right : LimbComputation)
  | square (operand : LimbComputation)
  | doubleSquare (operand : LimbComputation)
  | invert (operand : LimbComputation)
  | rootPower (operand : LimbComputation)
  | select (unset set : LimbComputation) (bit : UInt8)

namespace LimbComputation

/-- What the machine comes to. -/
def result : LimbComputation → LimbElement
  | given element => element
  | zero => 0
  | one => 1
  | decoded block => BaseField.ofBlock block
  | add left right => left.result + right.result
  | subtract left right => left.result - right.result
  | negate operand => -operand.result
  | multiply left right => left.result * right.result
  | square operand => BaseField.square operand.result
  | doubleSquare operand => BaseField.doubleSquare operand.result
  | invert operand => BaseField.invert operand.result
  | rootPower operand => BaseField.rootPower operand.result
  | select unset set bit => BaseField.select unset.result set.result bit

/-- The residue that the computation is about. -/
noncomputable def residue : LimbComputation → ZMod fieldPrime
  | given element => element.limbs.toInts.residue
  | zero => 0
  | one => 1
  | decoded block => (block.toNat % 2 ^ 255 : Nat)
  | add left right => left.residue + right.residue
  | subtract left right => left.residue - right.residue
  | negate operand => -operand.residue
  | multiply left right => left.residue * right.residue
  | square operand => operand.residue ^ 2
  | doubleSquare operand => 2 * operand.residue ^ 2
  | invert operand => operand.residue⁻¹
  | rootPower operand => operand.residue ^ ((fieldPrime - 5) / 8)
  | select unset set bit => if bit &&& 1 = 1 then set.residue else unset.residue

/-- The run on checked words. Selection moves limbs and computes nothing. -/
def checked : LimbComputation → Limbs (Checked 32)
  | given element => element.limbs.stored
  | zero => Limbs.ofFn fun _ => LimbWord.literal 0
  | one => Limbs.ofFn fun position => LimbWord.literal (if position = .p0 then 1 else 0)
  | decoded block => (Limbs.decode (Checked 64) block.toList).store
  | add left right => (left.checked.load.sum right.checked.load).store
  | subtract left right => (left.checked.load.difference right.checked.load).store
  | negate operand => operand.checked.map Checked.negate
  | multiply left right => left.checked * right.checked
  | square operand => operand.checked * operand.checked
  | doubleSquare operand => operand.checked.load.doubledSquare.store
  | invert operand => AdditionChain.inverse operand.checked
  | rootPower operand => AdditionChain.root operand.checked
  | select unset set bit => if bit &&& 1 = 1 then set.checked else unset.checked

theorem residue_result (computation : LimbComputation) :
    computation.result.limbs.toInts.residue = computation.residue := by
  induction computation with
  | given element => rfl
  | zero => exact LimbElement.residue_zero
  | one => exact LimbElement.residue_one
  | decoded block => exact LimbElement.residue_ofBlock block
  | add left right leftIH rightIH =>
      change _ = left.residue + right.residue
      rw [← leftIH, ← rightIH]
      exact LimbElement.residue_add _ _
  | subtract left right leftIH rightIH =>
      change _ = left.residue - right.residue
      rw [← leftIH, ← rightIH]
      exact LimbElement.residue_sub _ _
  | negate operand ih =>
      change _ = -operand.residue
      rw [← ih]
      exact LimbElement.residue_neg _
  | multiply left right leftIH rightIH =>
      change _ = left.residue * right.residue
      rw [← leftIH, ← rightIH]
      exact LimbElement.residue_mul _ _
  | square operand ih =>
      change _ = operand.residue ^ 2
      rw [← ih]
      exact LimbElement.residue_square _
  | doubleSquare operand ih =>
      change _ = 2 * operand.residue ^ 2
      rw [← ih]
      exact LimbElement.residue_doubleSquare _
  | invert operand ih =>
      change _ = operand.residue⁻¹
      rw [← ih]
      exact LimbElement.residue_invert _
  | rootPower operand ih =>
      change _ = operand.residue ^ ((fieldPrime - 5) / 8)
      rw [← ih]
      exact LimbElement.residue_rootPower _
  | select unset set bit unsetIH setIH =>
      change _ = if bit &&& 1 = 1 then set.residue else unset.residue
      rw [← unsetIH, ← setIH]
      exact LimbElement.residue_select _ _ bit

theorem checked_eq (computation : LimbComputation) :
    computation.checked = computation.result.limbs.stored := by
  induction computation with
  | given element => rfl
  | zero => rfl
  | one => rfl
  | decoded block => exact (LimbElement.stored_ofBlock block).symm
  | add left right leftIH rightIH =>
      rw [checked, leftIH, rightIH]
      exact (LimbElement.stored_add _ _).symm
  | subtract left right leftIH rightIH =>
      rw [checked, leftIH, rightIH]
      exact (LimbElement.stored_sub _ _).symm
  | negate operand ih =>
      rw [checked, ih]
      exact (LimbElement.stored_neg _).symm
  | multiply left right leftIH rightIH =>
      rw [checked, leftIH, rightIH]
      exact (LimbElement.stored_mul _ _).symm
  | square operand ih =>
      rw [checked, ih]
      exact (LimbElement.stored_mul _ _).symm
  | doubleSquare operand ih =>
      rw [checked, ih]
      exact (LimbElement.stored_doubleSquare _).symm
  | invert operand ih =>
      rw [checked, ih]
      exact (LimbElement.stored_invert _).symm
  | rootPower operand ih =>
      rw [checked, ih]
      exact (LimbElement.stored_rootPower _).symm
  | select unset set bit unsetIH setIH =>
      have chosen := LimbElement.limbs_select unset.result set.result bit
      rw [checked, unsetIH, setIH, result]
      exact (apply_ite Limbs.stored _ _ _).symm.trans (congrArg Limbs.stored chosen.symm)

/-- Whatever is computed, from any limbs within their widths: the limbs stay within their
widths and stand for exactly the residue meant, and the run that watches every word ends with
each of these limbs. -/
theorem limbs_exact (computation : LimbComputation) :
    computation.result.limbs.Admissible ∧
      computation.result.limbs.toInts.residue = computation.residue ∧
      ∀ position, (computation.checked.get position).value? =
        some (computation.result.limbs.get position).toInt := by
  refine ⟨computation.result.admissible, computation.residue_result, ?_⟩
  intro position
  rw [computation.checked_eq]
  exact Limbs.value?_stored _ position

end LimbComputation

end EdwardsSignature
