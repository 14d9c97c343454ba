import Mathlib
import EdwardsSignature.Curve.Encoding
import EdwardsSignature.Proofs.Curve.Coordinates

/-! Encodings of curve points: what they determine and what decodes. -/

set_option autoImplicit false

namespace EdwardsSignature

open BaseField

/-- The 32 bytes of a curve point: `y`, with the parity of `x` in bit 255. -/
def EdwardsPoint.encode (point : CurvePoint) : Block 32 :=
  Block.ofNat 32 (point.y.val + 2 ^ 255 * (point.x.val % 2))

theorem val_lt_fieldPrime (residue : ZMod fieldPrime) : residue.val < fieldPrime :=
  residue.val_lt

theorem val_lt_two_pow_255 (residue : ZMod fieldPrime) : residue.val < 2 ^ 255 :=
  residue.val_lt.trans (by decide)

/-- The prime is odd, so the negative of a non-zero residue has the other parity. -/
theorem val_neg_mod_two {residue : ZMod fieldPrime} (nonzero : residue ≠ 0) :
    (-residue).val % 2 = 1 - residue.val % 2 := by
  have : NeZero residue := ⟨nonzero⟩
  have below := val_lt_fieldPrime residue
  have odd : fieldPrime % 2 = 1 := by decide
  rw [ZMod.val_neg_of_ne_zero]
  omega

namespace EdwardsPoint

variable (point : CurvePoint)

theorem toNat_encode : point.encode.toNat = point.y.val + 2 ^ 255 * (point.x.val % 2) := by
  have below := val_lt_two_pow_255 point.y
  rw [encode, Block.toNat_ofNat_of_lt]
  omega

theorem one_add_d_mul_sq_ne_zero (y : ZMod fieldPrime) : standardCurve.d * y ^ 2 + 1 ≠ 0 := by
  intro vanishes
  have root_sq : standardCurve.root ^ 2 = -1 := by
    rw [pow_two, standardCurve.root_mul_root]
  have none : y = 0 := by
    apply standardCurve.eq_zero_of_d_mul_square (v := standardCurve.root)
    rw [root_sq]
    linear_combination vanishes
  rw [none] at vanishes
  simp at vanishes

theorem x_sq_mul : point.x ^ 2 * (standardCurve.d * point.y ^ 2 + 1) = point.y ^ 2 - 1 := by
  linear_combination -point.equation

/-- The point with a given `y` and a root of `(y² - 1) / (d·y² + 1)` as its `x`. -/
def ofRoot {x y : ZMod fieldPrime} (root : x ^ 2 * (standardCurve.d * y ^ 2 + 1) = y ^ 2 - 1) :
    CurvePoint where
  x := x
  y := y
  equation := by linear_combination -root

theorem x_eq_or_eq_neg {left right : CurvePoint} (same : left.y = right.y) :
    left.x = right.x ∨ left.x = -right.x := by
  apply sq_eq_sq_iff_eq_or_eq_neg.mp
  apply mul_right_cancel₀ (one_add_d_mul_sq_ne_zero right.y)
  have first := left.x_sq_mul
  rw [same] at first
  rw [first, right.x_sq_mul]

theorem eq_of_y_eq {left right : CurvePoint} (same : left.y = right.y)
    (parity : left.x = 0 ∨ left.x.val % 2 = right.x.val % 2) : left = right := by
  have x_same : left.x = right.x := by
    obtain equal | opposite := x_eq_or_eq_neg same
    · exact equal
    · by_cases vanishes : right.x = 0
      · rw [opposite, vanishes, neg_zero]
      · have flipped := val_neg_mod_two vanishes
        rw [opposite, flipped, neg_eq_zero] at parity
        have same_parity := parity.resolve_left vanishes
        omega
  ext
  · exact x_same
  · exact same

theorem encode_injective {left right : CurvePoint} (same : left.encode = right.encode) :
    left = right := by
  have numbers := congrArg Block.toNat same
  have left_below := val_lt_two_pow_255 left.y
  have right_below := val_lt_two_pow_255 right.y
  rw [toNat_encode, toNat_encode] at numbers
  apply eq_of_y_eq
  · apply ZMod.val_injective
    omega
  · right
    omega

end EdwardsPoint

variable {F : Type} [BaseField F] [LawfulBaseField F]

namespace Projective

variable {point : Projective F} {named : CurvePoint} {curve : Curve F}

theorem Names.affine_x (names : point.Names named) : value point.affine.1 = named.x := by
  rw [affine, LawfulBaseField.value_mul, LawfulBaseField.value_invert, names.x_eq,
    mul_inv_cancel_right₀ names.z_ne_zero]

theorem Names.affine_y (names : point.Names named) : value point.affine.2 = named.y := by
  rw [affine, LawfulBaseField.value_mul, LawfulBaseField.value_invert, names.y_eq,
    mul_inv_cancel_right₀ names.z_ne_zero]

/-- The number that an encoding writes, for coordinates on the curve or off it. -/
theorem toNat_encode (point : Projective F) :
    point.encode.toNat =
      (value point.affine.2).val + 2 ^ 255 * ((value point.affine.1).val % 2) := by
  have below := val_lt_two_pow_255 (value point.affine.2)
  have negative := isNegative_iff point.affine.1
  have top_small : (value point.affine.2).val / 2 ^ 248 < 128 := by omega
  have top := (toBlock point.affine.2).toNat_top
  rw [LawfulBaseField.toNat_toBlock] at top
  rw [encode, Block.toNat_mapTop, LawfulBaseField.toNat_toBlock, UInt8.toNat_or, top]
  cases sign : isNegative point.affine.1 with
  | true =>
      have odd := negative.mp sign
      have joined : (value point.affine.2).val / 2 ^ 248 ||| 128 =
          (value point.affine.2).val / 2 ^ 248 + 128 := by
        rw [Nat.or_comm, ← Nat.two_pow_add_eq_or_of_lt (i := 7) top_small 1, Nat.add_comm]
      have bit : (if true = true then (128 : UInt8) else 0).toNat = 128 := rfl
      rw [bit, joined, odd]
      omega
  | false =>
      have even : (value point.affine.1).val % 2 = 0 := by
        by_contra nonzero
        have wrong := negative.mpr (by omega)
        rw [sign] at wrong
        contradiction
      have bit : (if false = true then (128 : UInt8) else 0).toNat = 0 := rfl
      rw [bit, Nat.or_zero, even]
      omega

theorem Names.encode_eq (names : point.Names named) : point.encode = named.encode := by
  apply Block.toNat_injective
  rw [toNat_encode, names.affine_x, names.affine_y, named.toNat_encode]

theorem isOnCurve_iff_equation (curve : Curve F) (point : Projective F) :
    point.isOnCurve curve = true ↔
      1 + value curve.d * value point.affine.1 ^ 2 * value point.affine.2 ^ 2 +
        value point.affine.1 ^ 2 = value point.affine.2 ^ 2 := by
  rw [isOnCurve, equal_iff]
  simp only [LawfulBaseField.value_add, LawfulBaseField.value_one, LawfulBaseField.value_mul,
    LawfulBaseField.value_square]

/-- The check of the curve equation accepts exactly the coordinates of curve points. A zero
denominator gives zeros, which are not on the curve. -/
theorem isOnCurve_iff (standard : curve.HasStandardConstants) (point : Projective F) :
    point.isOnCurve curve = true ↔ ∃ named, point.Names named := by
  rw [isOnCurve_iff_equation, standard.d_eq]
  constructor
  · intro equation
    have nonzero : value point.z ≠ 0 := by
      intro vanishes
      simp [affine, vanishes] at equation
    refine ⟨⟨value point.affine.1, value point.affine.2, ?_⟩, nonzero, ?_, ?_⟩
    · linear_combination -equation
    · simp only [affine, LawfulBaseField.value_mul, LawfulBaseField.value_invert]
      rw [inv_mul_cancel_right₀ nonzero]
    · simp only [affine, LawfulBaseField.value_mul, LawfulBaseField.value_invert]
      rw [inv_mul_cancel_right₀ nonzero]
  · rintro ⟨named, names⟩
    rw [names.affine_x, names.affine_y]
    linear_combination -named.equation

theorem Names.unique {other : CurvePoint} (names : point.Names named)
    (others : point.Names other) : named = other := by
  ext
  · rw [← names.affine_x, others.affine_x]
  · rw [← names.affine_y, others.affine_y]

end Projective

theorem Extended.Names.encode_eq {point : Extended F} {named : CurvePoint}
    (names : point.Names named) : point.encode = named.encode :=
  names.toProjective.encode_eq

namespace Curve

variable {curve : Curve F}

def rootCandidate (u v : ZMod fieldPrime) : ZMod fieldPrime :=
  v ^ 3 * u * (v ^ 7 * u) ^ ((fieldPrime - 5) / 8)

/-- When `u / v` is a square, the candidate squared is `u / v` or its negative. -/
theorem rootCandidate_sq_mul {u v x : ZMod fieldPrime} (root : x ^ 2 * v = u) :
    rootCandidate u v ^ 2 * v = u ∨ rootCandidate u v ^ 2 * v = -u := by
  have exponent : 2 * ((fieldPrime - 5) / 8) + 1 = (fieldPrime - 1) / 4 := by decide
  have quarter : 2 * ((fieldPrime - 1) / 4) = (fieldPrime - 1) / 2 := by decide
  have half : (fieldPrime - 1) / 2 * 2 = fieldPrime - 1 := by decide
  have power : rootCandidate u v ^ 2 * v = u * (v ^ 7 * u) ^ ((fieldPrime - 1) / 4) := by
    rw [rootCandidate, ← exponent, pow_succ (v ^ 7 * u), pow_mul']
    generalize (v ^ 7 * u) ^ ((fieldPrime - 5) / 8) = factor
    ring
  have base : v ^ 7 * u = (x * v ^ 4) ^ 2 := by
    rw [← root]
    ring
  have square : (v ^ 7 * u) ^ ((fieldPrime - 1) / 4) = (x * v ^ 4) ^ ((fieldPrime - 1) / 2) := by
    rw [base, ← pow_mul, quarter]
  -- The power is one of the half exponent on a root, where it is `1` or `-1`.
  by_cases vanishes : x * v ^ 4 = 0
  · left
    have none : u = 0 := by
      rw [← root]
      obtain x_zero | v_zero := mul_eq_zero.mp vanishes
      · rw [x_zero, zero_pow two_ne_zero, zero_mul]
      · rw [eq_zero_of_pow_eq_zero v_zero, mul_zero]
    rw [power, none, zero_mul]
  · have fermat := ZMod.pow_card_sub_one_eq_one vanishes
    rw [← half, pow_mul, pow_two, mul_self_eq_one_iff] at fermat
    rw [power, square]
    obtain one | minus := fermat
    · left
      rw [one, mul_one]
    · right
      rw [minus, mul_neg_one]

theorem recoverX_eq_candidate (standard : curve.HasStandardConstants) (y : F) :
    let u := value y ^ 2 - 1
    let v := standardCurve.d * value y ^ 2 + 1
    ∃ x scaled numerator : F, value x = rootCandidate u v ∧
      value scaled = rootCandidate u v ^ 2 * v ∧ value numerator = u ∧
      curve.recoverX y =
        if isNonZero (scaled - numerator) then
          if isNonZero (scaled + numerator) then none else some (x * curve.rootOfMinusOne)
        else some x := by
  intro u v
  let yy := square y
  let numerator := yy - 1
  let denominator := yy * curve.d + 1
  let cube := square denominator * denominator
  let x := cube * numerator * rootPower (square cube * denominator * numerator)
  have numerator_eq : value numerator = u := by simp [numerator, yy, u]
  have denominator_eq : value denominator = v := by
    simp only [denominator, yy, v, LawfulBaseField.value_add, LawfulBaseField.value_mul,
      LawfulBaseField.value_square, LawfulBaseField.value_one, standard.d_eq]
    ring
  have x_eq : value x = rootCandidate u v := by
    have base : ((v ^ 2 * v) ^ 2 * v * u) = v ^ 7 * u := by ring
    simp only [x, cube, rootCandidate, LawfulBaseField.value_mul,
      LawfulBaseField.value_square, LawfulBaseField.value_rootPower, numerator_eq,
      denominator_eq, base]
    generalize (v ^ 7 * u) ^ ((fieldPrime - 5) / 8) = factor
    ring
  refine ⟨x, square x * denominator, numerator, x_eq, ?_, numerator_eq, rfl⟩
  rw [LawfulBaseField.value_mul, LawfulBaseField.value_square, x_eq, denominator_eq]

theorem recoverX_cases (standard : curve.HasStandardConstants) (y : F) :
    let u := value y ^ 2 - 1
    let v := standardCurve.d * value y ^ 2 + 1
    let candidate := rootCandidate u v
    (candidate ^ 2 * v = u ∧ ∃ root, curve.recoverX y = some root ∧ value root = candidate) ∨
      (candidate ^ 2 * v = -u ∧ ∃ root, curve.recoverX y = some root ∧
        value root = candidate * standardCurve.root) ∨
      (candidate ^ 2 * v ≠ u ∧ candidate ^ 2 * v ≠ -u ∧ curve.recoverX y = none) := by
  intro u v candidate
  obtain ⟨x, scaled, numerator, x_eq, scaled_eq, numerator_eq, unfolded⟩ :=
    recoverX_eq_candidate standard y
  have first := LawfulBaseField.isNonZero_iff (scaled - numerator)
  have second := LawfulBaseField.isNonZero_iff (scaled + numerator)
  rw [LawfulBaseField.value_sub, scaled_eq, numerator_eq, sub_ne_zero] at first
  rw [LawfulBaseField.value_add, scaled_eq, numerator_eq, Ne, add_eq_zero_iff_eq_neg] at second
  rw [unfolded]
  by_cases same : candidate ^ 2 * v = u
  · left
    refine ⟨same, x, ?_, x_eq⟩
    rw [if_neg fun nonzero => first.mp nonzero same]
  · right
    rw [if_pos (first.mpr same)]
    by_cases opposite : candidate ^ 2 * v = -u
    · left
      refine ⟨opposite, x * curve.rootOfMinusOne, ?_, ?_⟩
      · rw [if_neg fun nonzero => second.mp nonzero opposite]
      · rw [LawfulBaseField.value_mul, x_eq, standard.root_eq]
    · right
      exact ⟨same, opposite, if_pos (second.mpr opposite)⟩

theorem recoverX_sq_mul (standard : curve.HasStandardConstants) {y root : F}
    (recovered : curve.recoverX y = some root) :
    value root ^ 2 * (standardCurve.d * value y ^ 2 + 1) = value y ^ 2 - 1 := by
  have minus_one := standardCurve.root_mul_root
  obtain ⟨same, found, found_eq, value_eq⟩ | ⟨opposite, found, found_eq, value_eq⟩ |
    ⟨_, _, none⟩ := recoverX_cases standard y
  · obtain rfl := Option.some.inj (recovered.symm.trans found_eq)
    rw [value_eq, same]
  · obtain rfl := Option.some.inj (recovered.symm.trans found_eq)
    rw [value_eq, mul_pow, pow_two standardCurve.root, minus_one]
    linear_combination -opposite
  · rw [none] at recovered
    contradiction

theorem recoverX_isSome (standard : curve.HasStandardConstants) {y : F} {x : ZMod fieldPrime}
    (root : x ^ 2 * (standardCurve.d * value y ^ 2 + 1) = value y ^ 2 - 1) :
    ∃ recovered, curve.recoverX y = some recovered := by
  obtain ⟨_, found, found_eq, _⟩ | ⟨_, found, found_eq, _⟩ | ⟨not_same, not_opposite, _⟩ :=
    recoverX_cases standard y
  · exact ⟨found, found_eq⟩
  · exact ⟨found, found_eq⟩
  · obtain same | opposite := rootCandidate_sq_mul root
    · exact absurd same not_same
    · exact absurd opposite not_opposite

theorem signed_root (root : F) (negative : Bool) :
    let chosen := if isNegative root != negative then -root else root
    value chosen ^ 2 = value root ^ 2 ∧
      (value chosen = 0 ∨ (value chosen).val % 2 = negative.toNat) := by
  intro chosen
  have sign := isNegative_iff root
  by_cases vanishes : value root = 0
  · have none : value chosen = 0 := by
      simp only [chosen]
      split
      · rw [LawfulBaseField.value_neg, vanishes, neg_zero]
      · exact vanishes
    rw [none, vanishes]
    exact ⟨rfl, Or.inl rfl⟩
  · have flipped := val_neg_mod_two vanishes
    refine ⟨?_, Or.inr ?_⟩
    · simp only [chosen]
      split
      · rw [LawfulBaseField.value_neg, neg_sq]
      · rfl
    · simp only [chosen]
      generalize isNegative root = bit at sign ⊢
      cases bit <;> cases negative <;> simp at sign ⊢ <;> omega

theorem top_shiftRight (block : Block 32) :
    (block.top >>> 7 == 1).toNat = block.toNat / 2 ^ 255 := by
  have top := block.toNat_top
  have bound := block.toNat_lt
  have shifted : (block.top >>> 7).toNat = block.toNat / 2 ^ 255 := by
    rw [UInt8.toNat_shiftRight, top, Nat.shiftRight_eq_div_pow, Nat.div_div_eq_div_mul]
    rfl
  have bit : block.toNat / 2 ^ 255 < 2 := by omega
  rw [← shifted] at bit ⊢
  have one : (block.top >>> 7 == 1) = decide ((block.top >>> 7).toNat = 1) := by
    rw [Bool.eq_iff_iff, beq_iff_eq, decide_eq_true_iff, ← UInt8.toNat_inj]
    rfl
  rw [one]
  generalize (block.top >>> 7).toNat = shifted_bit at bit
  interval_cases shifted_bit <;> rfl

/-- What decodes is a point of the curve with the `y` and the sign that the bytes write. -/
theorem decodePoint_names (standard : curve.HasStandardConstants) {bytes : Bytes}
    {point : Extended F} (decoded : curve.decodePoint bytes = .ok point) :
    ∃ named : CurvePoint, point.Names named ∧ bytes.length = 32 ∧
      named.y = (Bytes.toNat bytes % 2 ^ 255 : Nat) ∧
      (named.x = 0 ∨ named.x.val % 2 = Bytes.toNat bytes / 2 ^ 255) := by
  unfold decodePoint at decoded
  split at decoded
  · contradiction
  · rename_i block accepted
    have exact := Block.toList_of_ofBytes? accepted
    dsimp only at decoded
    split at decoded
    · contradiction
    · rename_i root recovered
      obtain rfl := Except.ok.inj decoded
      have equation := recoverX_sq_mul standard recovered
      obtain ⟨square_eq, sign⟩ := signed_root root (block.top >>> 7 == 1)
      rw [top_shiftRight, Block.toNat, exact] at sign
      rw [← square_eq] at equation
      generalize (if isNegative root != (block.top >>> 7 == 1) then -root else root) = chosen at *
      refine ⟨.ofRoot equation, ?_, ?_, ?_, sign⟩
      · constructor <;> simp [EdwardsPoint.ofRoot]
      · rw [← exact, Vector.length_toList]
      · have y_eq := LawfulBaseField.value_ofBlock (F := F) block
        rwa [Block.toNat, exact] at y_eq

theorem decodePoint_of_root (standard : curve.HasStandardConstants) {bytes : Bytes}
    (length : bytes.length = 32) {x : ZMod fieldPrime}
    (root : x ^ 2 * (standardCurve.d * (Bytes.toNat bytes % 2 ^ 255 : Nat) ^ 2 + 1) =
      (Bytes.toNat bytes % 2 ^ 255 : Nat) ^ 2 - 1) :
    ∃ point, curve.decodePoint bytes = .ok point := by
  obtain ⟨block, accepted, exact⟩ := Block.ofBytes?_of_length length
  have y_eq : value (ofBlock block : F) = (Bytes.toNat bytes % 2 ^ 255 : Nat) := by
    rw [LawfulBaseField.value_ofBlock, Block.toNat, exact]
  rw [← y_eq] at root
  obtain ⟨recovered, found⟩ := recoverX_isSome standard root
  simp only [decodePoint, accepted, found]
  exact ⟨_, rfl⟩

theorem decodePoint_encode (standard : curve.HasStandardConstants) (named : CurvePoint) :
    ∃ point, curve.decodePoint named.encode.toList = .ok point ∧ point.Names named := by
  have number := named.toNat_encode
  have below := val_lt_two_pow_255 named.y
  rw [Block.toNat] at number
  have low : Bytes.toNat named.encode.toList % 2 ^ 255 = named.y.val := by omega
  have high : Bytes.toNat named.encode.toList / 2 ^ 255 = named.x.val % 2 := by omega
  have y_eq : ((Bytes.toNat named.encode.toList % 2 ^ 255 : Nat) : ZMod fieldPrime) = named.y := by
    rw [low, ZMod.natCast_zmod_val]
  have length : named.encode.toList.length = 32 := Vector.length_toList
  have root := named.x_sq_mul
  rw [← y_eq] at root
  obtain ⟨point, decoded⟩ := decodePoint_of_root standard length root
  obtain ⟨decoded_named, names, _, y_same, parity⟩ := decodePoint_names standard decoded
  rw [high] at parity
  obtain rfl := EdwardsPoint.eq_of_y_eq (y_same.trans y_eq) parity
  exact ⟨point, decoded, names⟩

end Curve

end EdwardsSignature
