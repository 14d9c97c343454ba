import Mathlib
import EdwardsSignature.Field.LimbElement
import EdwardsSignature.Proofs.Curve.GroupLaws
import EdwardsSignature.Proofs.Curve.Multiplication
import EdwardsSignature.Proofs.Curve.Validity
import EdwardsSignature.Proofs.Field.LimbElement

/-! The table-driven multiplications agree with repeated addition and with double-and-add.

The ladder of the double multiplication is also written without what types guarantee: entries
are then looked up by number, and each operation looks at the system of its operands. It never
misses an entry and never meets a point in the wrong system. -/

set_option autoImplicit false

namespace EdwardsSignature

variable {F : Type} [BaseField F]

section Ladder

namespace Point

/-- Adds or takes away the entry at half the magnitude of a digit. -/
def applyDigit? (row : List (AffineNiels F)) (total : Point F) (digit : Int) : Option (Point F) :=
  if 0 < digit then do
    let start ← total.toExtended.toOption
    let entry ← row[(digit / 2).toNat]?
    let sum ← ((extended start).addEntry (affineNiels entry)).toOption
    return completed sum
  else if digit < 0 then do
    let start ← total.toExtended.toOption
    let entry ← row[(-digit / 2).toNat]?
    let difference ← ((extended start).subEntry (affineNiels entry)).toOption
    return completed difference
  else some total

def doubleStep? (first second : List (AffineNiels F)) (total : Point F) (digits : Int × Int) :
    Option (Point F) := do
  let doubled ← total.double.toOption
  let once ← applyDigit? first (completed doubled) digits.1
  let twice ← applyDigit? second once digits.2
  let next ← twice.toProjective.toOption
  return projective next

/-- The ladder over two lists of digits, from the highest place down at which either is not
zero. -/
def ladder? (first second : List (AffineNiels F)) (firstDigits secondDigits : List Int) :
    Option (Point F) :=
  let places := (firstDigits.zip secondDigits).reverse
  let used := places.dropWhile fun digits => digits.1 == 0 && digits.2 == 0
  used.foldlM (doubleStep? first second) (neutral .projective)

/-- A digit of a window finds its entry. -/
theorem applyDigit?_value (row : EntryRow F) (total : Completed F) (digit : WindowDigit) :
    applyDigit? row.toList (completed total) digit.value =
      some (completed (row.applyDigit total digit)) := by
  have entry : row.toList[digit.index.val]? = some row[digit.index] := by
    simp
  unfold applyDigit? EntryRow.applyDigit
  split
  · rename_i positive
    have place : (digit.value / 2).toNat = digit.index.val := by
      simp only [WindowDigit.index]
      omega
    rw [place, entry]
    rfl
  · split
    · rename_i negative
      have place : (-digit.value / 2).toNat = digit.index.val := by
        simp only [WindowDigit.index]
        omega
      rw [place, entry]
      rfl
    · rfl

theorem doubleStep?_value (first second : EntryRow F) (total : Projective F)
    (digits : WindowDigit × WindowDigit) :
    doubleStep? first.toList second.toList (projective total)
        (Prod.map WindowDigit.value WindowDigit.value digits) =
      some (projective (TabledPoint.doubleStep first second total digits)) := by
  have once := applyDigit?_value first total.double digits.1
  have twice := applyDigit?_value second (first.applyDigit total.double digits.1) digits.2
  simp only [doubleStep?, Prod.map, Point.double, Except.toOption, Option.bind_eq_bind,
    Option.bind_some, once, twice]
  rfl

theorem foldlM_doubleStep? (first second : EntryRow F) (places : List (WindowDigit × WindowDigit))
    (total : Projective F) :
    (places.map (Prod.map WindowDigit.value WindowDigit.value)).foldlM
        (doubleStep? first.toList second.toList) (projective total) =
      some (projective (places.foldl (TabledPoint.doubleStep first second) total)) := by
  induction places generalizing total with
  | nil => rfl
  | cons digits rest ih =>
      rw [List.map_cons, List.foldlM_cons, doubleStep?_value, List.foldl_cons]
      exact ih _

/-- Nothing that the types of the double multiplication rule out would come up without them. -/
theorem ladder?_recode (tabled other : TabledPoint F) (otherScalar scalar : Block 32) :
    ladder? other.odd.get.toList tabled.odd.get.toList
        ((SlidingWindow.recode otherScalar).map WindowDigit.value)
        ((SlidingWindow.recode scalar).map WindowDigit.value) =
      some (projective (tabled.multiplyDouble other otherScalar scalar)) := by
  have used := foldlM_doubleStep? other.odd.get tabled.odd.get
    ((((SlidingWindow.recode otherScalar).zip (SlidingWindow.recode scalar)).reverse).dropWhile
      fun digits => digits.1.value == 0 && digits.2.value == 0) Projective.neutral
  rw [ladder?, List.zip_map, ← List.map_reverse, List.dropWhile_map]
  exact used

end Point

end Ladder

section Multiples

theorem TabledPoint.multiply_eq_error_iff (tabled : TabledPoint F) (scalar : Block 32) :
    tabled.multiply scalar = .error .scalarTooWide ↔ 2 ^ 255 ≤ scalar.toNat := by
  rw [TabledPoint.multiply, Radix16.recode]
  split
  · rename_i narrow
    have below := (Radix16.top_le_iff scalar).mp narrow
    constructor
    · intro failed
      cases failed
    · intro wide
      omega
  · rename_i wide
    rw [Radix16.top_le_iff] at wide
    exact ⟨fun _ => Nat.not_lt.mp wide, fun _ => rfl⟩

variable [LawfulBaseField F]

theorem Extended.Names.multiplyNaive {curve : Curve F} (standard : curve.HasStandardConstants)
    {point : Extended F} {named : CurvePoint} (names : point.Names named) (scalar : Bytes) :
    ∃ product, (Point.extended point).multiplyNaive curve scalar = .ok product ∧
      product.Names (Bytes.toNat scalar • named) :=
  ⟨_, rfl, (names.toProjectiveNiels standard).multiplyNaive scalar⟩

namespace TabledPoint

variable {tabled other : TabledPoint F}

/-- Both multiplications lead to the same points from either, with any scalars. -/
structure MultipliesLike (left right : TabledPoint F) : Prop where
  multiply {scalar : Block 32} (narrow : scalar.toNat < 2 ^ 255) :
    ∃ product other, left.multiply scalar = .ok product ∧ right.multiply scalar = .ok other ∧
      product.Same other
  multiply_wide {scalar : Block 32} (wide : 2 ^ 255 ≤ scalar.toNat) :
    left.multiply scalar = .error .scalarTooWide ∧ right.multiply scalar = .error .scalarTooWide
  multiplyDouble (third : TabledPoint F) (standard : third.curve.HasStandardConstants)
    (valid : third.point.Valid) (thirdScalar scalar : Block 32) :
    (left.multiplyDouble third thirdScalar scalar).equal
      (right.multiplyDouble third thirdScalar scalar) = true
  multiplyDouble_other (third : TabledPoint F) (standard : third.curve.HasStandardConstants)
    (valid : third.point.Valid) (scalar thirdScalar : Block 32) :
    (third.multiplyDouble left scalar thirdScalar).equal
      (third.multiplyDouble right scalar thirdScalar) = true

theorem Names.multipliesLike {left right : TabledPoint F} {named : CurvePoint}
    (first : left.Names named) (second : right.Names named) : left.MultipliesLike right where
  multiply narrow := by
    obtain ⟨product, multiplied, product_names⟩ := first.multiply narrow
    obtain ⟨other, other_multiplied, other_names⟩ := second.multiply narrow
    exact ⟨product, other, multiplied, other_multiplied, product_names.same other_names⟩
  multiply_wide wide :=
    ⟨(left.multiply_eq_error_iff _).mpr wide, (right.multiply_eq_error_iff _).mpr wide⟩
  multiplyDouble third standard valid thirdScalar scalar := by
    have third_names : third.Names valid.curvePoint := ⟨standard, valid.names⟩
    have total := first.multiplyDouble_digits third_names thirdScalar scalar
    have other_total := second.multiplyDouble_digits third_names thirdScalar scalar
    exact (total.equal_iff other_total).mpr rfl
  multiplyDouble_other third standard valid scalar thirdScalar := by
    have third_names : third.Names valid.curvePoint := ⟨standard, valid.names⟩
    have total := third_names.multiplyDouble_digits first scalar thirdScalar
    have other_total := third_names.multiplyDouble_digits second scalar thirdScalar
    exact (total.equal_iff other_total).mpr rfl

/-- The fixed-base multiplication adds the point to itself as many times as the scalar says, as
double-and-add does, for every scalar that leaves bit 255 free and for no other. -/
theorem multiply_exact (standard : tabled.curve.HasStandardConstants)
    (valid : tabled.point.Valid) (scalar : Block 32) :
    (tabled.multiply scalar = .error .scalarTooWide ↔ 2 ^ 255 ≤ scalar.toNat) ∧
    (scalar.toNat < 2 ^ 255 →
      ∃ product naive, tabled.multiply scalar = .ok product ∧
        (Point.extended tabled.point).multiplyNaive tabled.curve scalar.toList = .ok naive ∧
        product.Valid ∧
        (Point.extended product).affine = (scalar.toNat • valid.curvePoint).pair ∧
        product.encode = (scalar.toNat • valid.curvePoint).encode ∧
        (Point.extended product).equal (.extended naive) = true ∧
        product.encode = naive.encode) := by
  refine ⟨tabled.multiply_eq_error_iff scalar, ?_⟩
  intro narrow
  have names : tabled.Names valid.curvePoint := ⟨standard, valid.names⟩
  obtain ⟨product, multiplied, product_names⟩ := names.multiply narrow
  obtain ⟨naive, naive_multiplied, naive_names⟩ :=
    valid.names.multiplyNaive standard scalar.toList
  exact ⟨product, naive, multiplied, naive_multiplied, product_names.valid,
    product_names.affine_eq, product_names.encode_eq,
    (product_names.toProjective.equal_iff naive_names.toProjective).mpr rfl,
    product_names.encode_eq.trans naive_names.encode_eq.symm⟩

/-- The widest scalar is odd, and one more is refused. -/
theorem multiply_exact_order_two :
    let tabled : TabledPoint LimbElement := .ofExtended .standard .orderTwo
    (∃ product, tabled.multiply (Block.ofNat 32 (2 ^ 255 - 1)) = .ok product ∧ product.Valid ∧
      (Point.extended product).affine = (0, -1)) ∧
    tabled.multiply (Block.ofNat 32 (2 ^ 255)) = .error .scalarTooWide := by
  intro tabled
  have standard : tabled.curve.HasStandardConstants := Curve.standard_hasStandardConstants
  have valid : tabled.point.Valid := Extended.orderTwo_valid
  have widest : (Block.ofNat 32 (2 ^ 255 - 1)).toNat = 2 * (2 ^ 254 - 1) + 1 :=
    Block.toNat_ofNat_of_lt (by decide)
  have wide : (Block.ofNat 32 (2 ^ 255)).toNat = 2 ^ 255 :=
    Block.toNat_ofNat_of_lt (by decide)
  have odd : (2 * (2 ^ 254 - 1) + 1) • valid.curvePoint = valid.curvePoint :=
    Extended.odd_nsmul_orderTwo _
  constructor
  · obtain ⟨_, multiplied⟩ := multiply_exact standard valid (Block.ofNat 32 (2 ^ 255 - 1))
    obtain ⟨product, _, answered, _, product_valid, affine_eq, _⟩ :=
      multiplied (by rw [widest]; decide)
    refine ⟨product, answered, product_valid, ?_⟩
    rw [affine_eq, widest, odd]
    simp [EdwardsPoint.pair, Extended.Valid.curvePoint, Extended.orderTwo, tabled, ofExtended]
  · obtain ⟨refused, _⟩ := multiply_exact standard valid (Block.ofNat 32 (2 ^ 255))
    exact refused.mpr wide.ge

/-- The double multiplication answers the sum of the multiples by the numbers that the digits
write, which are the scalars themselves when those leave bit 255 free. -/
theorem multiplyDouble_exact (standard : tabled.curve.HasStandardConstants)
    (other_standard : other.curve.HasStandardConstants) (valid : tabled.point.Valid)
    (other_valid : other.point.Valid) (otherScalar scalar : Block 32) :
    let total := tabled.multiplyDouble other otherScalar scalar
    let otherDigits := SlidingWindow.recode otherScalar
    let digits := SlidingWindow.recode scalar
    Point.ladder? other.odd.get.toList tabled.odd.get.toList
        (otherDigits.map WindowDigit.value) (digits.map WindowDigit.value) =
      some (.projective total) ∧
    total.Valid ∧
    (Point.projective total).affine =
      (SlidingWindow.digitsValue otherDigits • other_valid.curvePoint +
        SlidingWindow.digitsValue digits • valid.curvePoint).pair ∧
    (otherScalar.toNat < 2 ^ 255 → scalar.toNat < 2 ^ 255 →
      (Point.projective total).affine =
        (otherScalar.toNat • other_valid.curvePoint + scalar.toNat • valid.curvePoint).pair ∧
      ∃ first second,
        (Point.extended other.point).multiplyNaive other.curve otherScalar.toList = .ok first ∧
        (Point.extended tabled.point).multiplyNaive tabled.curve scalar.toList = .ok second ∧
        (Point.projective total).equal (.extended (first.plus tabled.curve second)) = true) := by
  intro total otherDigits digits
  have names : tabled.Names valid.curvePoint := ⟨standard, valid.names⟩
  have other_names : other.Names other_valid.curvePoint := ⟨other_standard, other_valid.names⟩
  have total_names := names.multiplyDouble_digits other_names otherScalar scalar
  refine ⟨Point.ladder?_recode tabled other otherScalar scalar, total_names.valid,
    total_names.affine_eq, ?_⟩
  intro other_narrow narrow
  have narrow_names := names.multiplyDouble other_names other_narrow narrow
  obtain ⟨first, first_multiplied, first_names⟩ :=
    other_valid.names.multiplyNaive other_standard otherScalar.toList
  obtain ⟨second, second_multiplied, second_names⟩ :=
    valid.names.multiplyNaive standard scalar.toList
  have sum_names := first_names.plus standard second_names
  exact ⟨narrow_names.affine_eq, first, second, first_multiplied, second_multiplied,
    (narrow_names.equal_iff sum_names.toProjective).mpr rfl⟩

/-- A point with itself: one and the widest scalar make an even multiple. -/
theorem multiplyDouble_exact_order_two :
    let tabled : TabledPoint LimbElement := .ofExtended .standard .orderTwo
    let total := tabled.multiplyDouble tabled (Block.ofNat 32 1) (Block.ofNat 32 (2 ^ 255 - 1))
    total.Valid ∧ (Point.projective total).affine = (0, 1) := by
  intro tabled total
  have standard : tabled.curve.HasStandardConstants := Curve.standard_hasStandardConstants
  have valid : tabled.point.Valid := Extended.orderTwo_valid
  have one : (Block.ofNat 32 1).toNat = 1 := Block.toNat_ofNat_of_lt (by decide)
  have widest : (Block.ofNat 32 (2 ^ 255 - 1)).toNat = 2 * (2 ^ 254 - 1) + 1 :=
    Block.toNat_ofNat_of_lt (by decide)
  have odd : (2 * (2 ^ 254 - 1) + 1) • valid.curvePoint = valid.curvePoint :=
    Extended.odd_nsmul_orderTwo _
  have twice : 2 • valid.curvePoint = 0 := Extended.two_nsmul_orderTwo
  obtain ⟨_, total_valid, _, combined⟩ := multiplyDouble_exact standard standard valid valid
    (Block.ofNat 32 1) (Block.ofNat 32 (2 ^ 255 - 1))
  obtain ⟨affine_eq, _⟩ := combined (by rw [one]; decide) (by rw [widest]; decide)
  refine ⟨total_valid, ?_⟩
  rw [affine_eq, one, widest, odd, one_nsmul, ← two_nsmul, twice]
  rfl

end TabledPoint

end Multiples

end EdwardsSignature
