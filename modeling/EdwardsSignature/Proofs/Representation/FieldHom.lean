import Mathlib
import EdwardsSignature.Proofs.Field.Residue

/-! Changes of the representation of field elements.

A change that commutes with every operation and keeps encodings cannot be seen from outside:
truth values are read off encodings, and bytes only enter as encodings. Every representation
that computes exactly has such a change to least residues. -/

set_option autoImplicit false

namespace EdwardsSignature

/-- A map between representations that commutes with every operation. How elements are
described is not among them. -/
structure FieldHom (F G : Type) [BaseField F] [BaseField G] where
  toFun : F → G
  map_zero : toFun 0 = 0
  map_one : toFun 1 = 1
  map_add (left right : F) : toFun (left + right) = toFun left + toFun right
  map_sub (left right : F) : toFun (left - right) = toFun left - toFun right
  map_neg (element : F) : toFun (-element) = -toFun element
  map_mul (left right : F) : toFun (left * right) = toFun left * toFun right
  map_square (element : F) : toFun (BaseField.square element) = BaseField.square (toFun element)
  map_doubleSquare (element : F) :
    toFun (BaseField.doubleSquare element) = BaseField.doubleSquare (toFun element)
  map_invert (element : F) : toFun (BaseField.invert element) = BaseField.invert (toFun element)
  map_rootPower (element : F) :
    toFun (BaseField.rootPower element) = BaseField.rootPower (toFun element)
  map_select (unset set : F) (bit : UInt8) :
    toFun (BaseField.select unset set bit) = BaseField.select (toFun unset) (toFun set) bit
  map_ofBlock (block : Block 32) : toFun (BaseField.ofBlock block) = BaseField.ofBlock block
  toBlock_map (element : F) : BaseField.toBlock (toFun element) = BaseField.toBlock element
  isNonZero_map (element : F) : BaseField.isNonZero (toFun element) = BaseField.isNonZero element
  same_map (left right : F) :
    BaseField.same (toFun left) (toFun right) = BaseField.same left right

namespace FieldHom

variable {F G : Type} [BaseField F] [BaseField G]

instance : CoeFun (FieldHom F G) fun _ => F → G := ⟨toFun⟩

attribute [simp] map_zero map_one map_add map_sub map_neg map_mul map_square map_doubleSquare
  map_invert map_rootPower map_select map_ofBlock toBlock_map isNonZero_map same_map

end FieldHom

namespace BaseField

variable {F G : Type} [BaseField F] [BaseField G] (hom : FieldHom F G)

theorem decode_eq_map (bytes : Bytes) :
    (decode bytes : Except Rejection G) = hom <$> (decode bytes : Except Rejection F) := by
  unfold decode
  cases Block.ofBytes? 32 bytes with
  | none => rfl
  | some block => exact congrArg Except.ok (hom.map_ofBlock block).symm

@[simp] theorem isNegative_map (element : F) : isNegative (hom element) = isNegative element := by
  rw [isNegative, isNegative, hom.toBlock_map]

@[simp] theorem equal_map (left right : F) : equal (hom left) (hom right) = equal left right := by
  rw [equal, equal, hom.toBlock_map, hom.toBlock_map]

theorem map_divide (numerator denominator : F) :
    hom (divide numerator denominator) = divide (hom numerator) (hom denominator) := by
  rw [divide, divide, hom.map_mul, hom.map_invert]

theorem map_power (base : F) (exponent : Bytes) :
    hom (power base exponent) = power (hom base) exponent := by
  rw [power, power, ← hom.map_one]
  symm
  apply List.foldl_hom
  intro total bit
  cases bit with
  | false => exact (hom.map_square total).symm
  | true => exact ((hom.map_mul _ _).trans (congrArg (· * _) (hom.map_square total))).symm

end BaseField

namespace Residue

theorem residue_injective : Function.Injective residue := by
  intro left right same
  have values := residue_inj.mp same
  cases left
  cases right
  cases values
  rfl

/-- The least residue of a class. -/
def ofClass (residue : ZMod fieldPrime) : Residue := ⟨residue.val, ZMod.val_lt residue⟩

@[simp] theorem value_ofClass (residue : ZMod fieldPrime) :
    LawfulBaseField.value (ofClass residue) = residue :=
  ZMod.natCast_zmod_val residue

theorem ofClass_eq {residue : ZMod fieldPrime} {element : Residue}
    (stands : LawfulBaseField.value element = residue) : ofClass residue = element :=
  residue_injective ((value_ofClass residue).trans stands.symm)

end Residue

namespace FieldHom

open LawfulBaseField (value)
open Residue (ofClass ofClass_eq value_ofClass)

variable (F : Type) [BaseField F] [LawfulBaseField F]

/-- Takes every element to the least residue that it stands for. -/
def toResidue : FieldHom F Residue where
  toFun element := ofClass (value element)
  map_zero := ofClass_eq (by simp)
  map_one := ofClass_eq (by simp)
  map_add left right := ofClass_eq (by simp)
  map_sub left right := ofClass_eq (by simp)
  map_neg element := ofClass_eq (by simp)
  map_mul left right := ofClass_eq (by simp)
  map_square element := ofClass_eq (by simp)
  map_doubleSquare element := ofClass_eq (by simp)
  map_invert element := ofClass_eq (by simp)
  map_rootPower element := ofClass_eq (by simp only [value_ofClass, LawfulBaseField.value_rootPower])
  map_select unset set bit := ofClass_eq (by simp only [value_ofClass, LawfulBaseField.value_select])
  map_ofBlock block := ofClass_eq (by simp only [LawfulBaseField.value_ofBlock])
  toBlock_map element := by
    apply Block.toNat_injective
    rw [LawfulBaseField.toNat_toBlock, LawfulBaseField.toNat_toBlock, value_ofClass]
  isNonZero_map element := by
    rw [Bool.eq_iff_iff, LawfulBaseField.isNonZero_iff, LawfulBaseField.isNonZero_iff,
      value_ofClass]
  same_map left right := by
    rw [Bool.eq_iff_iff, LawfulBaseField.same_iff, LawfulBaseField.same_iff, value_ofClass,
      value_ofClass]

end FieldHom

end EdwardsSignature
