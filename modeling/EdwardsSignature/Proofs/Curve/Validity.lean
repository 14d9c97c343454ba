import Mathlib
import EdwardsSignature.Curve.Point
import EdwardsSignature.Proofs.Curve.Encoding
import EdwardsSignature.Proofs.Edwards.Affine

/-! Validity of coordinates, said on the coordinates alone, and the affine point they give. -/

set_option autoImplicit false

namespace EdwardsSignature

variable {F : Type} [BaseField F] [LawfulBaseField F]

/-- A denominator that does not vanish, and affine coordinates on the curve. -/
structure Projective.Valid (point : Projective F) : Prop where
  z_ne_zero : value point.z ≠ 0
  onCurve : standardCurve.Contains (value point.x / value point.z) (value point.y / value point.z)

structure Extended.Valid (point : Extended F) : Prop where
  z_ne_zero : value point.z ≠ 0
  product_eq : value point.x * value point.y = value point.z * value point.t
  onCurve : standardCurve.Contains (value point.x / value point.z) (value point.y / value point.z)

structure Completed.Valid (point : Completed F) : Prop where
  z_ne_zero : value point.z ≠ 0
  t_ne_zero : value point.t ≠ 0
  onCurve : standardCurve.Contains (value point.x / value point.z) (value point.y / value point.t)

/-- An entry that reads like the normalised form of a valid point. -/
def AffineNiels.Valid (curve : Curve F) (entry : AffineNiels F) : Prop :=
  ∃ point : Extended F, point.Valid ∧ entry.map value = (point.toAffineNiels curve).map value

/-- An operand that reads like the cached form of a valid point. -/
def ProjectiveNiels.Valid (curve : Curve F) (operand : ProjectiveNiels F) : Prop :=
  ∃ point : Extended F, point.Valid ∧
    operand.map value = (point.toProjectiveNiels curve).map value

namespace Point

def Valid (curve : Curve F) : Point F → Prop
  | projective point => point.Valid
  | extended point => point.Valid
  | completed point => point.Valid
  | affineNiels entry => entry.Valid curve
  | projectiveNiels operand => operand.Valid curve

/-- The affine coordinates that the coordinates of a system are fractions of. -/
def affine : Point F → ZMod fieldPrime × ZMod fieldPrime
  | projective ⟨x, y, z⟩ => (value x / value z, value y / value z)
  | extended ⟨x, y, z, _⟩ => (value x / value z, value y / value z)
  | completed ⟨x, y, z, t⟩ => (value x / value z, value y / value t)
  | affineNiels ⟨yPlusX, yMinusX, _⟩ =>
      ((value yPlusX - value yMinusX) / 2, (value yPlusX + value yMinusX) / 2)
  | projectiveNiels ⟨yPlusX, yMinusX, z, _⟩ =>
      ((value yPlusX - value yMinusX) / (2 * value z),
        (value yPlusX + value yMinusX) / (2 * value z))

def Names : Point F → CurvePoint → Prop
  | projective point, named => point.Names named
  | extended point, named => point.Names named
  | completed point, named => point.Names named
  | affineNiels entry, named => entry.Names named
  | projectiveNiels operand, named => operand.Names named

end Point

/-- The computed affine coordinates are the fractions, also where the denominator vanishes. -/
theorem Projective.value_affine_x (point : Projective F) :
    value point.affine.1 = (Point.projective point).affine.1 := by
  simp only [Point.affine, Projective.affine, LawfulBaseField.value_mul,
    LawfulBaseField.value_invert, div_eq_mul_inv]

theorem Projective.value_affine_y (point : Projective F) :
    value point.affine.2 = (Point.projective point).affine.2 := by
  simp only [Point.affine, Projective.affine, LawfulBaseField.value_mul,
    LawfulBaseField.value_invert, div_eq_mul_inv]

theorem Extended.affine_toProjective (point : Extended F) :
    (Point.projective point.toProjective).affine = (Point.extended point).affine := rfl

section Named

variable {named : CurvePoint}

/-- Valid coordinates name the curve point of their affine coordinates. -/
theorem Projective.Valid.names {point : Projective F} (valid : point.Valid) :
    point.Names ⟨_, _, valid.onCurve⟩ where
  z_ne_zero := valid.z_ne_zero
  x_eq := (div_mul_cancel₀ _ valid.z_ne_zero).symm
  y_eq := (div_mul_cancel₀ _ valid.z_ne_zero).symm

/-- The curve point of valid coordinates. -/
def Extended.Valid.curvePoint {point : Extended F} (valid : point.Valid) : CurvePoint where
  x := value point.x / value point.z
  y := value point.y / value point.z
  equation := valid.onCurve

theorem Extended.Valid.names {point : Extended F} (valid : point.Valid) :
    point.Names valid.curvePoint where
  z_ne_zero := valid.z_ne_zero
  x_eq := (div_mul_cancel₀ _ valid.z_ne_zero).symm
  y_eq := (div_mul_cancel₀ _ valid.z_ne_zero).symm
  t_eq := by
    have nonzero := valid.z_ne_zero
    have product := valid.product_eq
    simp only [Extended.Valid.curvePoint]
    field_simp
    linear_combination -product

theorem Completed.Valid.names {point : Completed F} (valid : point.Valid) :
    point.Names ⟨_, _, valid.onCurve⟩ where
  z_ne_zero := valid.z_ne_zero
  t_ne_zero := valid.t_ne_zero
  x_eq := (div_mul_cancel₀ _ valid.z_ne_zero).symm
  y_eq := (div_mul_cancel₀ _ valid.t_ne_zero).symm

theorem Projective.Names.valid {point : Projective F} (names : point.Names named) :
    point.Valid where
  z_ne_zero := names.z_ne_zero
  onCurve := by
    rw [names.x_eq, names.y_eq, mul_div_cancel_right₀ _ names.z_ne_zero,
      mul_div_cancel_right₀ _ names.z_ne_zero]
    exact named.equation

theorem Extended.Names.valid {point : Extended F} (names : point.Names named) : point.Valid where
  z_ne_zero := names.z_ne_zero
  product_eq := by
    rw [names.x_eq, names.y_eq, names.t_eq]
    ring
  onCurve := names.toProjective.valid.onCurve

theorem Projective.exists_names_iff (point : Projective F) :
    (∃ named, point.Names named) ↔ point.Valid :=
  ⟨fun ⟨_, names⟩ => names.valid, fun valid => ⟨_, valid.names⟩⟩

/-- Without its `T`, a valid point is a valid projective one. -/
theorem Extended.valid_iff (point : Extended F) :
    point.Valid ↔
      point.toProjective.Valid ∧ value point.x * value point.y = value point.z * value point.t :=
  ⟨fun valid => ⟨⟨valid.z_ne_zero, valid.onCurve⟩, valid.product_eq⟩,
    fun ⟨projected, product⟩ => ⟨projected.z_ne_zero, product, projected.onCurve⟩⟩

theorem Completed.Names.valid {point : Completed F} (names : point.Names named) :
    point.Valid where
  z_ne_zero := names.z_ne_zero
  t_ne_zero := names.t_ne_zero
  onCurve := by
    rw [names.x_eq, names.y_eq, mul_div_cancel_right₀ _ names.z_ne_zero,
      mul_div_cancel_right₀ _ names.t_ne_zero]
    exact named.equation

/-- The point of order two: an operand that additions tend to have exceptions for. -/
def Extended.orderTwo : Extended F := ⟨0, -1, 1, 0⟩

theorem Extended.orderTwo_valid : (orderTwo : Extended F).Valid := by
  constructor <;> simp [orderTwo, EdwardsCurve.Contains]

theorem Extended.two_nsmul_orderTwo : 2 • (orderTwo_valid (F := F)).curvePoint = 0 := by
  rw [two_nsmul]
  symm
  apply EdwardsPoint.eq_add_of_mul <;>
    simp [Extended.Valid.curvePoint, orderTwo, EdwardsPoint.cross, EdwardsCurve.cross]

theorem Extended.odd_nsmul_orderTwo (count : Nat) :
    (2 * count + 1) • (orderTwo_valid (F := F)).curvePoint =
      (orderTwo_valid (F := F)).curvePoint := by
  rw [succ_nsmul, mul_nsmul, two_nsmul_orderTwo, nsmul_zero, zero_add]

/-- Every residue has an element that stands for it. -/
theorem LawfulBaseField.exists_value_eq (residue : ZMod fieldPrime) :
    ∃ element : F, value element = residue := by
  have below := val_lt_two_pow_255 residue
  refine ⟨BaseField.ofBlock (Block.ofNat 32 residue.val), ?_⟩
  have fits : residue.val < 256 ^ 32 := by omega
  rw [LawfulBaseField.value_ofBlock, Block.toNat_ofNat_of_lt fits, Nat.mod_eq_of_lt below,
    ZMod.natCast_zmod_val]

/-- A curve point can be written with any denominator. -/
theorem Extended.exists_names (named : CurvePoint) {z : ZMod fieldPrime} (nonzero : z ≠ 0) :
    ∃ point : Extended F, point.Names named ∧ value point.z = z := by
  obtain ⟨x, x_eq⟩ := LawfulBaseField.exists_value_eq (F := F) (named.x * z)
  obtain ⟨y, y_eq⟩ := LawfulBaseField.exists_value_eq (F := F) (named.y * z)
  obtain ⟨denominator, rfl⟩ := LawfulBaseField.exists_value_eq (F := F) z
  obtain ⟨t, t_eq⟩ :=
    LawfulBaseField.exists_value_eq (F := F) (named.x * named.y * value denominator)
  exact ⟨⟨x, y, denominator, t⟩, ⟨nonzero, x_eq, y_eq, t_eq⟩, rfl⟩

theorem Projective.Names.affine_eq {point : Projective F} (names : point.Names named) :
    (Point.projective point).affine = named.pair := by
  have nonzero := names.z_ne_zero
  simp only [Point.affine, EdwardsPoint.pair, names.x_eq, names.y_eq,
    mul_div_cancel_right₀ _ nonzero]

theorem Extended.Names.affine_eq {point : Extended F} (names : point.Names named) :
    (Point.extended point).affine = named.pair :=
  names.toProjective.affine_eq

theorem Completed.Names.affine_eq {point : Completed F} (names : point.Names named) :
    (Point.completed point).affine = named.pair := by
  simp only [Point.affine, EdwardsPoint.pair, names.x_eq, names.y_eq,
    mul_div_cancel_right₀ _ names.z_ne_zero, mul_div_cancel_right₀ _ names.t_ne_zero]

theorem AffineNiels.Names.affine_eq {entry : AffineNiels F} (names : entry.Names named) :
    (Point.affineNiels entry).affine = named.pair := by
  have two := two_ne_zero_zmod
  simp only [Point.affine, EdwardsPoint.pair, names.yPlusX_eq, names.yMinusX_eq, Prod.mk.injEq]
  constructor
  · field_simp
    ring
  · field_simp
    ring

theorem ProjectiveNiels.Names.affine_eq {operand : ProjectiveNiels F}
    (names : operand.Names named) : (Point.projectiveNiels operand).affine = named.pair := by
  have two := two_ne_zero_zmod
  have nonzero := names.z_ne_zero
  simp only [Point.affine, EdwardsPoint.pair, names.yPlusX_eq, names.yMinusX_eq, Prod.mk.injEq]
  constructor
  · field_simp
    ring
  · field_simp
    ring

variable {curve : Curve F}

theorem AffineNiels.Names.map_value {left right : AffineNiels F} (first : left.Names named)
    (second : right.Names named) : left.map value = right.map value := by
  simp only [AffineNiels.map, first.yPlusX_eq, first.yMinusX_eq, first.xy2d_eq,
    second.yPlusX_eq, second.yMinusX_eq, second.xy2d_eq]

theorem ProjectiveNiels.Names.map_value {left right : ProjectiveNiels F}
    (first : left.Names named) (second : right.Names named)
    (same : value left.z = value right.z) : left.map value = right.map value := by
  simp only [ProjectiveNiels.map, first.yPlusX_eq, first.yMinusX_eq, first.t2d_eq,
    second.yPlusX_eq, second.yMinusX_eq, second.t2d_eq, same]

theorem AffineNiels.Names.of_map_value {left right : AffineNiels F}
    (same : left.map value = right.map value) (names : right.Names named) : left.Names named := by
  obtain ⟨plus, minus, product⟩ := (AffineNiels.mk.injEq ..).mp same
  exact ⟨plus.trans names.yPlusX_eq, minus.trans names.yMinusX_eq, product.trans names.xy2d_eq⟩

theorem ProjectiveNiels.Names.of_map_value {left right : ProjectiveNiels F}
    (same : left.map value = right.map value) (names : right.Names named) :
    left.Names named := by
  obtain ⟨plus, minus, z, product⟩ := (ProjectiveNiels.mk.injEq ..).mp same
  constructor
  · rw [z]
    exact names.z_ne_zero
  · rw [plus, z, names.yPlusX_eq]
  · rw [minus, z, names.yMinusX_eq]
  · rw [product, z, names.t2d_eq]

theorem AffineNiels.Valid.names (standard : curve.HasStandardConstants) {entry : AffineNiels F}
    (valid : entry.Valid curve) : ∃ named, entry.Names named := by
  obtain ⟨point, point_valid, same⟩ := valid
  exact ⟨_, .of_map_value same (point_valid.names.toAffineNiels standard)⟩

theorem ProjectiveNiels.Valid.names (standard : curve.HasStandardConstants)
    {operand : ProjectiveNiels F} (valid : operand.Valid curve) :
    ∃ named, operand.Names named := by
  obtain ⟨point, point_valid, same⟩ := valid
  exact ⟨_, .of_map_value same (point_valid.names.toProjectiveNiels standard)⟩

theorem AffineNiels.Names.valid (standard : curve.HasStandardConstants) {entry : AffineNiels F}
    (names : entry.Names named) : entry.Valid curve := by
  obtain ⟨point, point_names, _⟩ := Extended.exists_names (F := F) named one_ne_zero
  exact ⟨point, point_names.valid, names.map_value (point_names.toAffineNiels standard)⟩

theorem ProjectiveNiels.Names.valid (standard : curve.HasStandardConstants)
    {operand : ProjectiveNiels F} (names : operand.Names named) : operand.Valid curve := by
  obtain ⟨point, point_names, z_eq⟩ := Extended.exists_names (F := F) named names.z_ne_zero
  exact ⟨point, point_names.valid,
    names.map_value (point_names.toProjectiveNiels standard) z_eq.symm⟩

end Named

namespace Point

variable {point left right : Point F} {named : CurvePoint} {curve : Curve F}

theorem Names.affine_eq (names : point.Names named) : point.affine = named.pair := by
  cases point with
  | projective => exact Projective.Names.affine_eq names
  | extended => exact Extended.Names.affine_eq names
  | completed => exact Completed.Names.affine_eq names
  | affineNiels => exact AffineNiels.Names.affine_eq names
  | projectiveNiels => exact ProjectiveNiels.Names.affine_eq names

/-- Valid coordinates are those that name a curve point. -/
theorem valid_iff_names (standard : curve.HasStandardConstants) (point : Point F) :
    point.Valid curve ↔ ∃ named, point.Names named := by
  cases point with
  | projective point => exact point.exists_names_iff.symm
  | extended => exact ⟨fun valid => ⟨_, valid.names⟩, fun ⟨_, names⟩ => names.valid⟩
  | completed => exact ⟨fun valid => ⟨_, valid.names⟩, fun ⟨_, names⟩ => names.valid⟩
  | affineNiels =>
      exact ⟨fun valid => valid.names standard, fun ⟨_, names⟩ => names.valid standard⟩
  | projectiveNiels =>
      exact ⟨fun valid => valid.names standard, fun ⟨_, names⟩ => names.valid standard⟩

theorem names_neutral (system : CoordinateSystem) : (neutral system : Point F).Names 0 := by
  cases system with
  | projective => exact Projective.names_neutral
  | extended => exact Extended.names_neutral
  | completed => exact Completed.names_neutral
  | affineNiels => exact AffineNiels.names_neutral
  | projectiveNiels => exact ProjectiveNiels.names_neutral

end Point

section Equality

variable {left right : Projective F} {left_named right_named : CurvePoint}

/-- Comparing across the denominators compares the affine coordinates. -/
theorem Projective.equal_iff (left_nonzero : value left.z ≠ 0) (right_nonzero : value right.z ≠ 0) :
    left.equal right = true ↔
      (Point.projective left).affine = (Point.projective right).affine := by
  simp only [equal, Point.affine, Prod.mk.injEq, div_eq_div_iff left_nonzero right_nonzero]
  split
  · rename_i same
    rw [BaseField.equal_iff] at same
    rw [Bool.and_eq_true, BaseField.equal_iff, BaseField.equal_iff, same,
      mul_left_inj' right_nonzero, mul_left_inj' right_nonzero]
  · rw [Bool.and_eq_true, BaseField.equal_iff, BaseField.equal_iff]
    simp only [LawfulBaseField.value_mul]

theorem Projective.Names.equal_iff (first : left.Names left_named)
    (second : right.Names right_named) : left.equal right = true ↔ left_named = right_named := by
  rw [Projective.equal_iff first.z_ne_zero second.z_ne_zero, first.affine_eq, second.affine_eq,
    EdwardsPoint.pair_inj]

namespace Point

/-- Points in the systems that can be encoded, which the operand forms cannot. -/
def IsWorking : Point F → Prop
  | projective _ | extended _ | completed _ => True
  | affineNiels _ | projectiveNiels _ => False

/-- Coordinates that have affine coordinates: no denominator vanishes. -/
def HasAffine : Point F → Prop
  | projective point => value point.z ≠ 0
  | extended point => value point.z ≠ 0
  | completed point => value point.z ≠ 0 ∧ value point.t ≠ 0
  | affineNiels _ | projectiveNiels _ => False

variable {point other : Point F} {named other_named : CurvePoint}

omit [LawfulBaseField F] in
theorem equal_of_projective? {left right : Projective F}
    (left_eq : point.projective? = some left) (right_eq : other.projective? = some right) :
    point.equal other = left.equal right := by
  cases point <;> cases other <;> simp_all [projective?, Point.equal]

theorem HasAffine.toProjective {point : Completed F} (defined : (completed point).HasAffine) :
    (projective point.toProjective).HasAffine ∧
      (projective point.toProjective).affine = (completed point).affine := by
  obtain ⟨z_ne_zero, t_ne_zero⟩ := defined
  simp only [HasAffine, affine, Completed.toProjective, LawfulBaseField.value_mul]
  rw [mul_div_mul_right _ _ t_ne_zero, mul_comm (value point.y), mul_div_mul_left _ _ z_ne_zero]
  exact ⟨mul_ne_zero z_ne_zero t_ne_zero, rfl⟩

/-- In every system, a point compares and encodes as projective coordinates of the same affine
point do. -/
theorem HasAffine.exists_projective (defined : point.HasAffine) :
    ∃ projected, point.projective? = some projected ∧ value projected.z ≠ 0 ∧
      (projective projected).affine = point.affine ∧ point.encode = .ok projected.encode := by
  cases point with
  | projective point => exact ⟨point, rfl, defined, rfl, rfl⟩
  | extended point => exact ⟨point.toProjective, rfl, defined, rfl, rfl⟩
  | completed point =>
      obtain ⟨nonzero, affine_eq⟩ := HasAffine.toProjective defined
      exact ⟨point.toProjective, rfl, nonzero, affine_eq, rfl⟩
  | affineNiels | projectiveNiels => cases defined

theorem HasAffine.equal_iff (defined : point.HasAffine) (other_defined : other.HasAffine) :
    point.equal other = true ↔ point.affine = other.affine := by
  obtain ⟨left, left_eq, left_nonzero, left_affine, _⟩ := defined.exists_projective
  obtain ⟨right, right_eq, right_nonzero, right_affine, _⟩ := other_defined.exists_projective
  rw [equal_of_projective? left_eq right_eq, Projective.equal_iff left_nonzero right_nonzero,
    left_affine, right_affine]

theorem HasAffine.encode_eq (defined : point.HasAffine) (onCurve : point.affine = named.pair) :
    point.encode = .ok named.encode := by
  obtain ⟨projected, _, nonzero, affine_eq, encoded⟩ := defined.exists_projective
  obtain ⟨x_eq, y_eq⟩ := (Prod.mk.injEq ..).mp (affine_eq.trans onCurve)
  have names : projected.Names named :=
    ⟨nonzero, (div_eq_iff nonzero).mp x_eq, (div_eq_iff nonzero).mp y_eq⟩
  rw [encoded, names.encode_eq]

theorem Names.hasAffine (names : point.Names named) (working : point.IsWorking) :
    point.HasAffine := by
  cases point with
  | projective point => exact Projective.Names.z_ne_zero names
  | extended point => exact Extended.Names.z_ne_zero names
  | completed point => exact ⟨Completed.Names.z_ne_zero names, Completed.Names.t_ne_zero names⟩
  | affineNiels | projectiveNiels => cases working

theorem Names.encode_eq (names : point.Names named) (working : point.IsWorking) :
    point.encode = .ok named.encode :=
  (names.hasAffine working).encode_eq names.affine_eq

theorem Names.equal_iff (names : point.Names named) (other_names : other.Names other_named)
    (working : point.IsWorking) (other_working : other.IsWorking) :
    point.equal other = true ↔ named = other_named := by
  rw [(names.hasAffine working).equal_iff (other_names.hasAffine other_working), names.affine_eq,
    other_names.affine_eq, EdwardsPoint.pair_inj]

end Point

end Equality

end EdwardsSignature
