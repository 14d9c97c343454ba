import Mathlib
import EdwardsSignature.Proofs.Curve.BasePoint
import EdwardsSignature.Proofs.Curve.Validity

/-! The points of the curve are an abelian group under the addition of their coordinates.

Two ways to add up the same points seldom lead to the same coordinates. So the laws hold up to
the comparison of points, which looks through the denominators. -/

set_option autoImplicit false

namespace EdwardsSignature

variable {F : Type} [BaseField F]

namespace Extended

/-- Points that their comparison does not tell apart. -/
def Same (left right : Extended F) : Prop :=
  (Point.extended left).equal (.extended right) = true

def minus (curve : Curve F) (left right : Extended F) : Extended F :=
  (left.sub (right.toProjectiveNiels curve)).toExtended

variable [LawfulBaseField F] {curve : Curve F} {left right first second third : Extended F}
  {left_named right_named named : CurvePoint}

theorem Names.same_iff (first : left.Names left_named) (second : right.Names right_named) :
    left.Same right ↔ left_named = right_named :=
  first.toProjective.equal_iff second.toProjective

theorem Names.same (first : left.Names named) (second : right.Names named) : left.Same right :=
  (first.same_iff second).mpr rfl

theorem Names.minus (standard : curve.HasStandardConstants) (first : left.Names left_named)
    (second : right.Names right_named) :
    (left.minus curve right).Names (left_named - right_named) :=
  (first.sub (second.toProjectiveNiels standard)).toExtended

theorem Names.negate (names : left.Names named) : (left.negate curve).Names (-named) :=
  names.toProjective.negate

section Neutral

theorem Names.add_neutral (names : left.Names named) :
    (left.add .neutral).toExtended.Names named := by
  have sum := (names.add ProjectiveNiels.names_neutral).toExtended
  rwa [add_zero] at sum

theorem Names.addEntry_neutral (names : left.Names named) :
    (left.addEntry .neutral).toExtended.Names named := by
  have sum := (names.addEntry AffineNiels.names_neutral).toExtended
  rwa [add_zero] at sum

end Neutral

theorem Names.plus_assoc (standard : curve.HasStandardConstants) {third_named : CurvePoint}
    (first_names : first.Names left_named) (second_names : second.Names right_named)
    (third_names : third.Names third_named) :
    ((first.plus curve second).plus curve third).Same
      (first.plus curve (second.plus curve third)) := by
  have grouped_left := (first_names.plus standard second_names).plus standard third_names
  have grouped_right := first_names.plus standard (second_names.plus standard third_names)
  rw [← add_assoc] at grouped_right
  exact grouped_left.same grouped_right

theorem Names.plus_comm (standard : curve.HasStandardConstants) (first : left.Names left_named)
    (second : right.Names right_named) :
    (left.plus curve right).Same (right.plus curve left) := by
  have exchanged := second.plus standard first
  rw [add_comm] at exchanged
  exact (first.plus standard second).same exchanged

theorem Names.plus_negate (standard : curve.HasStandardConstants) (names : left.Names named) :
    (left.plus curve (left.negate curve)).Same .neutral := by
  have negative : (left.negate curve).Names (-named) := names.negate
  have sum := names.plus standard negative
  rw [add_neg_cancel] at sum
  exact sum.same names_neutral

theorem Names.plus_minus (standard : curve.HasStandardConstants) (first : left.Names left_named)
    (second : right.Names right_named) :
    ((left.plus curve right).minus curve right).Same left := by
  have undone := (first.plus standard second).minus standard second
  rw [add_sub_cancel_right] at undone
  exact undone.same first

/-- Addition of valid points answers valid points, respects their comparison, and satisfies the
laws of an abelian group: it is associative and commutative, the neutral point in any of its
forms is neutral, the negative is inverse, doubling adds a point to itself, and subtraction
undoes addition. -/
theorem plus_group_laws (standard : curve.HasStandardConstants) (first_valid : first.Valid)
    (second_valid : second.Valid) (third_valid : third.Valid) :
    ((first.plus curve second).Valid ∧ (first.minus curve second).Valid ∧
      (first.negate curve).Valid) ∧
    (first.Same third → (first.plus curve second).Same (third.plus curve second)) ∧
    ((first.plus curve second).plus curve third).Same
      (first.plus curve (second.plus curve third)) ∧
    (first.plus curve second).Same (second.plus curve first) ∧
    ((first.plus curve .neutral).Same first ∧ (first.add .neutral).toExtended.Same first ∧
      (first.addEntry .neutral).toExtended.Same first) ∧
    (first.plus curve first).Same first.double.toExtended ∧
    (first.plus curve (first.negate curve)).Same .neutral ∧
    ((first.plus curve second).minus curve second).Same first := by
  have first_names := first_valid.names
  have second_names := second_valid.names
  have third_names := third_valid.names
  refine ⟨⟨(first_names.plus standard second_names).valid,
      (first_names.minus standard second_names).valid, first_names.negate.valid⟩, ?_,
    first_names.plus_assoc standard second_names third_names,
    first_names.plus_comm standard second_names, ⟨?_, first_names.add_neutral.same first_names,
      first_names.addEntry_neutral.same first_names⟩,
    (first_names.plus standard first_names).same first_names.double.toExtended,
    first_names.plus_negate standard, first_names.plus_minus standard second_names⟩
  · intro same
    rw [first_names.same_iff third_names] at same
    rw [same] at first_names
    exact (first_names.plus standard second_names).same (third_names.plus standard second_names)
  · have sum := first_names.plus standard names_neutral
    rw [add_zero] at sum
    exact sum.same first_names

/-- The base point and the point of order two, which is its own negative. -/
theorem plus_group_laws_base :
    let curve : Curve Residue := .standard
    let order_two : Extended Residue := .orderTwo
    residueBase.Valid ∧ order_two.Valid ∧
      ((residueBase.plus curve order_two).plus curve order_two).Same
        (residueBase.plus curve (order_two.plus curve order_two)) ∧
      (order_two.plus curve order_two).Same order_two.double.toExtended ∧
      ((residueBase.plus curve order_two).minus curve order_two).Same residueBase := by
  intro curve order_two
  have standard : curve.HasStandardConstants := Curve.standard_hasStandardConstants
  have base_valid : residueBase.Valid := residueBase_names.valid
  have order_two_valid : order_two.Valid := orderTwo_valid
  obtain ⟨_, _, assoc, _, _, _, _, undone⟩ :=
    plus_group_laws standard base_valid order_two_valid order_two_valid
  obtain ⟨_, _, _, _, _, double, _, _⟩ :=
    plus_group_laws standard order_two_valid base_valid base_valid
  exact ⟨base_valid, order_two_valid, assoc, double, undone⟩

end Extended

end EdwardsSignature
