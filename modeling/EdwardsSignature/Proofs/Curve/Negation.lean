import Mathlib
import EdwardsSignature.Field.LimbElement
import EdwardsSignature.Proofs.Curve.Decoding
import EdwardsSignature.Proofs.Curve.Equality
import EdwardsSignature.Proofs.Curve.GroupLaws
import EdwardsSignature.Proofs.Curve.Multiplication
import EdwardsSignature.Proofs.Field.LimbElement

/-! Negation is exact, for points on the curve and off it.

It subtracts from the neutral point, whose `T` is zero, so it never looks at the `T` of the point
that it negates. What it answers always has the `T` that belongs to its other coordinates. The sum
of a point and its negative does look at the point's `T`, and is neutral when it belongs there. -/

set_option autoImplicit false

namespace EdwardsSignature

namespace Block

/-- The encoding with the other sign. -/
def flipSign (block : Block 32) : Block 32 := block.mapTop (· ^^^ 128)

theorem toNat_xor_128 (byte : UInt8) :
    (byte ^^^ 128).toNat = byte.toNat % 128 + 128 * (1 - byte.toNat / 128) := by
  revert byte
  exact forall_byte (by decide +kernel)

theorem toNat_flipSign (block : Block 32) :
    block.flipSign.toNat = block.toNat % 2 ^ 255 + 2 ^ 255 * (1 - block.signBit) := by
  have top := block.toNat_top
  have bound := block.toNat_lt
  rw [flipSign, toNat_mapTop, toNat_xor_128, top, signBit]
  omega

end Block

variable {F : Type} [BaseField F] [LawfulBaseField F]

namespace Extended

variable {curve : Curve F} {point : Extended F}

/-- What the subtraction from the neutral point comes to. The point's own `T` is not in it. -/
theorem map_value_negate (curve : Curve F) (point : Extended F) :
    (point.negate curve).map value =
      ⟨-(4 * value point.z * value point.x), 4 * value point.z * value point.y,
        4 * value point.z ^ 2, -(4 * value point.x * value point.y)⟩ := by
  simp only [Extended.map, negate, sub, neutral, toProjectiveNiels, Completed.toExtended,
    LawfulBaseField.value_add, LawfulBaseField.value_sub, LawfulBaseField.value_mul,
    LawfulBaseField.value_zero, LawfulBaseField.value_one, Extended.mk.injEq]
  refine ⟨?_, ?_, ?_, ?_⟩ <;> ring

/-- The constant factors that the formulas leave are powers of two. -/
theorem two_pow_factor_ne_zero {factor : ZMod fieldPrime} (exponent : Nat)
    (power : factor = 2 ^ exponent) : factor ≠ 0 := by
  rw [power]
  exact pow_ne_zero exponent two_ne_zero_zmod

theorem z_negate_ne_zero (nonzero : value point.z ≠ 0) : value (point.negate curve).z ≠ 0 := by
  obtain ⟨_, _, z_eq, _⟩ := (Extended.mk.injEq ..).mp (map_value_negate curve point)
  rw [z_eq]
  exact mul_ne_zero (two_pow_factor_ne_zero 2 (by norm_num)) (pow_ne_zero 2 nonzero)

theorem product_negate (curve : Curve F) (point : Extended F) :
    value (point.negate curve).x * value (point.negate curve).y =
      value (point.negate curve).z * value (point.negate curve).t := by
  obtain ⟨x_eq, y_eq, z_eq, t_eq⟩ := (Extended.mk.injEq ..).mp (map_value_negate curve point)
  rw [x_eq, y_eq, z_eq, t_eq]
  ring

theorem affine_negate (nonzero : value point.z ≠ 0) :
    (Point.extended (point.negate curve)).affine =
      (-(Point.extended point).affine.1, (Point.extended point).affine.2) := by
  obtain ⟨x_eq, y_eq, z_eq, _⟩ := (Extended.mk.injEq ..).mp (map_value_negate curve point)
  have scale : (4 : ZMod fieldPrime) ≠ 0 := two_pow_factor_ne_zero 2 (by norm_num)
  simp only [Point.affine, x_eq, y_eq, z_eq, Prod.mk.injEq]
  constructor
  · field_simp
  · field_simp

theorem onCurve_negate_iff (nonzero : value point.z ≠ 0) :
    (Point.extended (point.negate curve)).OnCurve ↔ (Point.extended point).OnCurve := by
  simp only [Point.OnCurve, affine_negate nonzero, EdwardsCurve.Contains, neg_sq]

/-- The check of the curve equation sees only the square of `x`. -/
theorem isOnCurve_negate (nonzero : value point.z ≠ 0) (other : Curve F) :
    (point.negate curve).isOnCurve other = point.isOnCurve other := by
  rw [Bool.eq_iff_iff, isOnCurve, isOnCurve, Projective.isOnCurve_iff_equation,
    Projective.isOnCurve_iff_equation]
  simp only [Projective.value_affine_x, Projective.value_affine_y, affine_toProjective,
    affine_negate nonzero, neg_sq]

theorem toNat_encode (point : Extended F) :
    point.encode.toNat = (Point.extended point).affine.2.val +
      2 ^ 255 * ((Point.extended point).affine.1.val % 2) := by
  rw [encode, Projective.toNat_encode, Projective.value_affine_x, Projective.value_affine_y,
    affine_toProjective]

/-- The sign of `x` changes with its negation, except for the `x` that has no sign. -/
theorem encode_negate (nonzero : value point.z ≠ 0) :
    (point.negate curve).encode =
      if (Point.extended point).affine.1 = 0 then point.encode else point.encode.flipSign := by
  have number := point.toNat_encode
  have negated := (point.negate curve).toNat_encode
  have below := val_lt_two_pow_255 (Point.extended point).affine.2
  simp only [affine_negate nonzero] at negated
  apply Block.toNat_injective
  split
  · rename_i vanishes
    rw [negated, number, vanishes, neg_zero]
  · rename_i signed
    rw [val_neg_mod_two signed] at negated
    rw [negated, Block.toNat_flipSign, Block.signBit, number]
    omega

/-- Negating twice leads back to the point, with the `T` that belongs to it. -/
theorem equal_negate_negate (nonzero : value point.z ≠ 0) :
    (Point.extended ((point.negate curve).negate curve)).equal (.extended point) = true := by
  have once : value (point.negate curve).z ≠ 0 := z_negate_ne_zero nonzero
  have twice : (Point.extended ((point.negate curve).negate curve)).HasAffine :=
    z_negate_ne_zero once
  have defined : (Point.extended point).HasAffine := nonzero
  rw [twice.equal_iff defined, affine_negate once, affine_negate nonzero, neg_neg]

section Sums

variable {named : CurvePoint}

/-- The sum of a point and its negative, before its denominators are looked at: the point's own
`T` is in them and nowhere else. -/
theorem map_value_add_negate (standard : curve.HasStandardConstants)
    (point : Extended F) :
    (point.add ((point.negate curve).toProjectiveNiels curve)).map value =
      ⟨0, 8 * value point.z * (value point.y ^ 2 - value point.x ^ 2),
        8 * (value point.z ^ 3 -
          standardCurve.d * value point.x * value point.y * value point.t),
        8 * (value point.z ^ 3 +
          standardCurve.d * value point.x * value point.y * value point.t)⟩ := by
  obtain ⟨x_eq, y_eq, z_eq, t_eq⟩ := (Extended.mk.injEq ..).mp (map_value_negate curve point)
  simp only [Completed.map, add, toProjectiveNiels, LawfulBaseField.value_add,
    LawfulBaseField.value_sub, LawfulBaseField.value_mul, x_eq, y_eq, z_eq, t_eq,
    standard.twiceD_eq, Completed.mk.injEq]
  refine ⟨?_, ?_, ?_, ?_⟩ <;> ring

theorem hasAffine_add_negate_of_t (standard : curve.HasStandardConstants)
    (nonzero : value point.z ≠ 0) (vanishes : value point.t = 0) :
    (Point.completed (point.add ((point.negate curve).toProjectiveNiels curve))).HasAffine := by
  obtain ⟨_, _, z_eq, t_eq⟩ := (Completed.mk.injEq ..).mp (map_value_add_negate standard point)
  have denominator : 8 * value point.z ^ 3 ≠ 0 :=
    mul_ne_zero (two_pow_factor_ne_zero 3 (by norm_num)) (pow_ne_zero 3 nonzero)
  rw [Point.HasAffine, z_eq, t_eq, vanishes, mul_zero, sub_zero, add_zero]
  exact ⟨denominator, denominator⟩

/-- The equation that makes this sum neutral, with the equation of the curve taken out of it. -/
theorem sum_equation_iff (names : point.toProjective.Names named) :
    value point.z * (value point.y ^ 2 - value point.x ^ 2) = value point.z ^ 3 +
        standardCurve.d * value point.x * value point.y * value point.t ↔
      value point.x * value point.y = value point.z * value point.t ∨
        named.x = 0 ∨ named.y = 0 := by
  have x_eq : value point.x = named.x * value point.z := names.x_eq
  have y_eq : value point.y = named.y * value point.z := names.y_eq
  have nonzero : value point.z ≠ 0 := names.z_ne_zero
  have equation := named.equation
  -- The equation of the curve leaves of the two sides what only a foreign `T` makes differ.
  have factored : value point.z * (value point.y ^ 2 - value point.x ^ 2) -
      (value point.z ^ 3 + standardCurve.d * value point.x * value point.y * value point.t) =
        standardCurve.d * value point.z * (named.x * named.y *
          (value point.x * value point.y - value point.z * value point.t)) := by
    rw [x_eq, y_eq]
    linear_combination value point.z ^ 3 * equation
  have scale : standardCurve.d * value point.z ≠ 0 := mul_ne_zero standardCurve.d_ne_zero nonzero
  rw [← sub_eq_zero, factored, mul_eq_zero_iff_left scale, mul_eq_zero, mul_eq_zero, sub_eq_zero,
    or_comm]

/-- Where a point on the curve and its negative have a sum at all, the sum is neutral for the `T`
that belongs to the point, and else only where a coordinate vanishes. -/
theorem add_negate_equal_neutral_iff (standard : curve.HasStandardConstants)
    (names : point.toProjective.Names named)
    (defined :
      (Point.completed (point.add ((point.negate curve).toProjectiveNiels curve))).HasAffine) :
    (Point.completed (point.add ((point.negate curve).toProjectiveNiels curve))).equal
        (.neutral .extended) = true ↔ point.Valid ∨ named.x = 0 ∨ named.y = 0 := by
  have neutral_names := Point.names_neutral (F := F) .extended
  have scale : (8 : ZMod fieldPrime) ≠ 0 := two_pow_factor_ne_zero 3 (by norm_num)
  obtain ⟨x_eq, y_eq, _, t_eq⟩ :=
    (Completed.mk.injEq ..).mp (map_value_add_negate standard point)
  rw [defined.equal_iff (neutral_names.hasAffine trivial), neutral_names.affine_eq,
    Extended.valid_iff, and_iff_right names.valid, ← sum_equation_iff names]
  simp only [Point.affine, EdwardsPoint.pair, EdwardsPoint.zero_x, EdwardsPoint.zero_y,
    Prod.mk.injEq, div_eq_one_iff_eq defined.2]
  rw [x_eq, y_eq, t_eq, zero_div, mul_assoc, mul_right_inj' scale]
  exact and_iff_right rfl

end Sums

end Extended

namespace TabledPoint

variable {tabled : TabledPoint F} {named : CurvePoint}

theorem Names.negate (names : tabled.Names named) : tabled.negate.Names (-named) :=
  ⟨names.standard, names.point_names.negate⟩

/-- Negation moves through the multiplication by any scalar. -/
theorem Names.multiply_negate (names : tabled.Names named) {scalar : Block 32}
    (narrow : scalar.toNat < 2 ^ 255) :
    ∃ product opposite, tabled.multiply scalar = .ok product ∧
      tabled.negate.multiply scalar = .ok opposite ∧
      opposite.Same (product.negate tabled.curve) := by
  obtain ⟨product, multiplied, product_names⟩ := names.multiply narrow
  obtain ⟨opposite, negate_multiplied, opposite_names⟩ := names.negate.multiply narrow
  rw [smul_neg] at opposite_names
  exact ⟨product, opposite, multiplied, negate_multiplied,
    opposite_names.same product_names.negate⟩

end TabledPoint

namespace Extended

/-- Negation answers for every point whose denominator does not vanish, on the curve or off it and
with any `T`: the point with the opposite `x`, whose own `T` belongs to it. The check of the curve
equation and a second negation agree with that, and the encoding changes its sign unless `x` is
zero. On the curve, the multiples of the negative are the negatives of the multiples. -/
theorem negation_exact :
    (∀ (curve : Curve F) (point : Extended F), value point.z ≠ 0 →
      ∃ negated, (Point.extended point).negate curve = .ok negated ∧
        value negated.z ≠ 0 ∧
        value negated.x * value negated.y = value negated.z * value negated.t ∧
        (Point.extended negated).affine =
          (-(Point.extended point).affine.1, (Point.extended point).affine.2) ∧
        ((Point.extended negated).OnCurve ↔ (Point.extended point).OnCurve) ∧
        negated.isOnCurve curve = point.isOnCurve curve ∧
        (∃ again, (Point.extended negated).negate curve = .ok again ∧
          (Point.extended again).equal (.extended point) = true) ∧
        negated.encode =
          if (Point.extended point).affine.1 = 0 then point.encode else point.encode.flipSign) ∧
    ∀ tabled : TabledPoint F, tabled.curve.HasStandardConstants → tabled.point.Valid →
      ∀ scalar : Block 32, scalar.toNat < 2 ^ 255 →
        ∃ product opposite negated, tabled.multiply scalar = .ok product ∧
          tabled.negate.multiply scalar = .ok opposite ∧
          (Point.extended product).negate tabled.curve = .ok negated ∧
          (Point.extended opposite).equal (.extended negated) = true := by
  constructor
  · intro curve point nonzero
    exact ⟨_, rfl, z_negate_ne_zero nonzero, product_negate curve point, affine_negate nonzero,
      onCurve_negate_iff nonzero, isOnCurve_negate nonzero curve,
      ⟨_, rfl, equal_negate_negate nonzero⟩, encode_negate nonzero⟩
  · intro tabled standard valid scalar narrow
    have names : tabled.Names valid.curvePoint := ⟨standard, valid.names⟩
    obtain ⟨product, opposite, multiplied, negate_multiplied, same⟩ := names.multiply_negate narrow
    exact ⟨product, opposite, _, multiplied, negate_multiplied, rfl, same⟩

/-- The point of order two, whose `x` has no sign, with a `T` that does not belong to it, a point
off the curve, and the widest scalar. -/
theorem negation_exact_order_two :
    let curve : Curve LimbElement := .standard
    let unsigned : Extended LimbElement := ⟨0, -1, 1, 1⟩
    let outside : Extended LimbElement := ⟨1, 1, 1, 0⟩
    let tabled : TabledPoint LimbElement := .ofExtended curve .orderTwo
    (value unsigned.x * value unsigned.y ≠ value unsigned.z * value unsigned.t ∧
      ∃ negated, (Point.extended unsigned).negate curve = .ok negated ∧
        value negated.x * value negated.y = value negated.z * value negated.t ∧
        negated.encode = unsigned.encode) ∧
    (∃ negated, (Point.extended outside).negate curve = .ok negated ∧
      (Point.extended negated).affine = (-1, 1) ∧
      negated.isOnCurve curve = outside.isOnCurve curve ∧
      negated.encode = outside.encode.flipSign) ∧
    ∃ product opposite negated, tabled.multiply (Block.ofNat 32 (2 ^ 255 - 1)) = .ok product ∧
      tabled.negate.multiply (Block.ofNat 32 (2 ^ 255 - 1)) = .ok opposite ∧
      (Point.extended product).negate curve = .ok negated ∧
      (Point.extended opposite).equal (.extended negated) = true := by
  intro curve unsigned outside tabled
  have unsigned_nonzero : value unsigned.z ≠ 0 := by simp [unsigned]
  have outside_nonzero : value outside.z ≠ 0 := by simp [outside]
  have unsigned_x : (Point.extended unsigned).affine.1 = 0 := by simp [unsigned, Point.affine]
  have outside_affine : (Point.extended outside).affine = (1, 1) := by
    simp [outside, Point.affine]
  have widest : (Block.ofNat 32 (2 ^ 255 - 1)).toNat = 2 ^ 255 - 1 :=
    Block.toNat_ofNat_of_lt (by decide)
  obtain ⟨points, multiples⟩ := negation_exact (F := LimbElement)
  obtain ⟨negated, answered, _, product, _, _, _, _, encoded⟩ :=
    points curve unsigned unsigned_nonzero
  obtain ⟨other, other_answered, _, _, affine_eq, _, checked, _, flipped⟩ :=
    points curve outside outside_nonzero
  rw [if_pos unsigned_x] at encoded
  rw [outside_affine, if_neg one_ne_zero] at flipped
  rw [outside_affine] at affine_eq
  exact ⟨⟨by simp [unsigned], negated, answered, product, encoded⟩,
    ⟨other, other_answered, affine_eq, checked, flipped⟩,
    multiples tabled Curve.standard_hasStandardConstants orderTwo_valid _
      (by rw [widest]; decide)⟩

end Extended

end EdwardsSignature
