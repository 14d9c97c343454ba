import EdwardsSignature.Limb.Word

/-! Words that follow exact arithmetic inside their range.

Machine words and checked words both satisfy `LawfulLimbWord`, so one bound computation
over an arbitrary lawful word shows that the machine's answer is exact and that no
intermediate value overflows. `Bounded` carries such a computation through an algorithm. -/
set_option autoImplicit false
namespace EdwardsSignature

/-! Powers are core's here, whatever other instances are in scope. -/
attribute [local instance (high)] instPowNat

/-- `Denotes word value` reads "the word stands for the integer". Every operation whose
exact result lies in range keeps it; nothing is said about other results. -/
class LawfulLimbWord (α : Type) (width : outParam Nat) [LimbWord α] where
  Denotes : α → Int → Prop
  literal {value : Int} : InRange width value → Denotes (LimbWord.literal value) value
  add {left right : α} {x y : Int} : Denotes left x → Denotes right y → InRange width (x + y) →
    Denotes (left + right) (x + y)
  sub {left right : α} {x y : Int} : Denotes left x → Denotes right y → InRange width (x - y) →
    Denotes (left - right) (x - y)
  mul {left right : α} {x y : Int} : Denotes left x → Denotes right y → InRange width (x * y) →
    Denotes (left * right) (x * y)
  shiftLeft {word : α} {x : Int} {amount : Nat} : Denotes word x → amount < width →
    InRange width (x * 2 ^ amount) → Denotes (LimbWord.shiftLeft word amount) (x * 2 ^ amount)
  shiftRight {word : α} {x : Int} {amount : Nat} : Denotes word x → amount < width →
    InRange width (x / 2 ^ amount) → Denotes (LimbWord.shiftRight word amount) (x / 2 ^ amount)

namespace LimbWord

private theorem shiftAmount64 (amount : Fin 64) :
    ((BitVec.ofInt 64 amount.val).smod 64#64).toNat = amount.val := by
  revert amount
  decide

private theorem shiftAmount8 (amount : Fin 8) :
    ((BitVec.ofInt 8 amount.val).smod 8#8).toNat = amount.val := by
  revert amount
  decide

private theorem toInt_shiftLeft_of_inRange {width : Nat} (word : BitVec width) (amount : Nat)
    (positive : 0 < width) (inside : InRange width (word.toInt * 2 ^ amount)) :
    (word <<< amount).toInt = word.toInt * 2 ^ amount := by
  have exact : ((word.toNat <<< amount : Nat) : Int) = word.toNat * 2 ^ amount := by
    rw [Nat.shiftLeft_eq, Int.natCast_mul, Int.natCast_pow]
    rfl
  rw [BitVec.toInt_shiftLeft, exact, ← Int.bmod_mul_bmod, ← BitVec.toInt_eq_toNat_bmod]
  obtain ⟨low, high⟩ := inside
  have double : ((2 ^ width : Nat) : Int) = 2 * 2 ^ (width - 1) := by
    obtain ⟨below, rfl⟩ : ∃ below, width = below + 1 := ⟨width - 1, by omega⟩
    rw [Int.natCast_pow, Int.pow_succ, Nat.add_sub_cancel, Int.mul_comm]
    rfl
  exact Int.bmod_eq_of_le (by omega) (by omega)

instance lawful64 : LawfulLimbWord Int64 64 where
  Denotes word value := word.toInt = value
  literal inside := Int64.toInt_ofInt_of_le inside.1 inside.2
  add := by
    rintro left right x y rfl rfl ⟨low, high⟩
    show (left + right).toInt = _
    rw [Int64.toInt_add]
    exact Int.bmod_eq_of_le (by omega) (by omega)
  sub := by
    rintro left right x y rfl rfl ⟨low, high⟩
    show (left - right).toInt = _
    rw [Int64.toInt_sub]
    exact Int.bmod_eq_of_le (by omega) (by omega)
  mul := by
    rintro left right x y rfl rfl ⟨low, high⟩
    show (left * right).toInt = _
    rw [Int64.toInt_mul]
    exact Int.bmod_eq_of_le (by omega) (by omega)
  shiftLeft := by
    rintro word x amount rfl small inside
    show (word.toBitVec <<< ((BitVec.ofInt 64 amount).smod 64#64).toNat).toInt = _
    rw [shiftAmount64 ⟨amount, small⟩]
    exact toInt_shiftLeft_of_inRange _ _ (by decide) inside
  shiftRight := by
    rintro word x amount rfl small _
    show (word.toBitVec.sshiftRight ((BitVec.ofInt 64 amount).smod 64#64).toNat).toInt = _
    rw [shiftAmount64 ⟨amount, small⟩, BitVec.toInt_sshiftRight, Int.shiftRight_eq_div_pow]
    simp

instance lawful8 : LawfulLimbWord Int8 8 where
  Denotes word value := word.toInt = value
  literal inside := Int8.toInt_ofInt_of_le inside.1 inside.2
  add := by
    rintro left right x y rfl rfl ⟨low, high⟩
    show (left + right).toInt = _
    rw [Int8.toInt_add]
    exact Int.bmod_eq_of_le (by omega) (by omega)
  sub := by
    rintro left right x y rfl rfl ⟨low, high⟩
    show (left - right).toInt = _
    rw [Int8.toInt_sub]
    exact Int.bmod_eq_of_le (by omega) (by omega)
  mul := by
    rintro left right x y rfl rfl ⟨low, high⟩
    show (left * right).toInt = _
    rw [Int8.toInt_mul]
    exact Int.bmod_eq_of_le (by omega) (by omega)
  shiftLeft := by
    rintro word x amount rfl small inside
    show (word.toBitVec <<< ((BitVec.ofInt 8 amount).smod 8#8).toNat).toInt = _
    rw [shiftAmount8 ⟨amount, small⟩]
    exact toInt_shiftLeft_of_inRange _ _ (by decide) inside
  shiftRight := by
    rintro word x amount rfl small _
    show (word.toBitVec.sshiftRight ((BitVec.ofInt 8 amount).smod 8#8).toNat).toInt = _
    rw [shiftAmount8 ⟨amount, small⟩, BitVec.toInt_sshiftRight, Int.shiftRight_eq_div_pow]
    simp

end LimbWord

namespace Checked

theorem ofInt_of_inRange {width : Nat} {value : Int} (inside : InRange width value) :
    (ofInt width value).value? = some value := by
  simp [ofInt, inside]

instance lawful (width : Nat) : LawfulLimbWord (Checked width) width where
  Denotes word value := word.value? = some value
  literal := ofInt_of_inRange
  add := by
    intro left right x y leftHas rightHas inside
    show (lift₂ (· + ·) left right).value? = _
    simp only [lift₂, leftHas, rightHas]
    exact ofInt_of_inRange inside
  sub := by
    intro left right x y leftHas rightHas inside
    show (lift₂ (· - ·) left right).value? = _
    simp only [lift₂, leftHas, rightHas]
    exact ofInt_of_inRange inside
  mul := by
    intro left right x y leftHas rightHas inside
    show (lift₂ (· * ·) left right).value? = _
    simp only [lift₂, leftHas, rightHas]
    exact ofInt_of_inRange inside
  shiftLeft := by
    intro word x amount has small inside
    show (shift (· * 2 ^ amount) amount word).value? = _
    simp only [shift, has, small, ↓reduceIte]
    exact ofInt_of_inRange inside
  shiftRight := by
    intro word x amount has small inside
    show (shift (· / 2 ^ amount) amount word).value? = _
    simp only [shift, has, small, ↓reduceIte]
    exact ofInt_of_inRange inside

end Checked

structure Bounded {α : Type} {width : Nat} [LimbWord α] [LawfulLimbWord α width]
    (word : α) (value : Int) (bound : Nat) : Prop where
  denotes : LawfulLimbWord.Denotes word value
  within : value.natAbs ≤ bound

namespace Bounded

variable {α : Type} [LimbWord α] [LawfulLimbWord α 64] {word left right : α} {x y : Int}
  {bound leftBound rightBound : Nat}

theorem inRange {value : Int} (small : value.natAbs < 2 ^ (63 : Nat)) : InRange 64 value := by
  unfold InRange
  omega

theorem weaken (known : Bounded word x bound) {larger : Nat} (le : bound ≤ larger := by decide) :
    Bounded word x larger :=
  ⟨known.denotes, Nat.le_trans known.within le⟩

theorem literal (value : Int) (fits : value.natAbs < 2 ^ (63 : Nat) := by decide) :
    Bounded (LimbWord.literal value : α) value value.natAbs :=
  ⟨LawfulLimbWord.literal (inRange fits), Nat.le_refl _⟩

theorem add (first : Bounded left x leftBound) (second : Bounded right y rightBound)
    (fits : leftBound + rightBound < 2 ^ (63 : Nat) := by decide) :
    Bounded (left + right) (x + y) (leftBound + rightBound) := by
  have within : (x + y).natAbs ≤ leftBound + rightBound := by
    have leftWithin := first.within
    have rightWithin := second.within
    omega
  exact ⟨LawfulLimbWord.add first.denotes second.denotes (inRange (by omega)), within⟩

theorem sub (first : Bounded left x leftBound) (second : Bounded right y rightBound)
    (fits : leftBound + rightBound < 2 ^ (63 : Nat) := by decide) :
    Bounded (left - right) (x - y) (leftBound + rightBound) := by
  have within : (x - y).natAbs ≤ leftBound + rightBound := by
    have leftWithin := first.within
    have rightWithin := second.within
    omega
  exact ⟨LawfulLimbWord.sub first.denotes second.denotes (inRange (by omega)), within⟩

theorem mul (first : Bounded left x leftBound) (second : Bounded right y rightBound)
    (fits : leftBound * rightBound < 2 ^ (63 : Nat) := by decide) :
    Bounded (left * right) (x * y) (leftBound * rightBound) := by
  have within : (x * y).natAbs ≤ leftBound * rightBound := by
    rw [Int.natAbs_mul]
    exact Nat.mul_le_mul first.within second.within
  exact ⟨LawfulLimbWord.mul first.denotes second.denotes (inRange (by omega)), within⟩

theorem shiftLeft (known : Bounded word x bound) (amount : Nat)
    (small : amount < 64 := by decide) (fits : bound * 2 ^ amount < 2 ^ (63 : Nat) := by decide) :
    Bounded (LimbWord.shiftLeft word amount) (x * 2 ^ amount) (bound * 2 ^ amount) := by
  have within : (x * 2 ^ amount).natAbs ≤ bound * 2 ^ amount := by
    rw [Int.natAbs_mul, Int.natAbs_pow]
    exact Nat.mul_le_mul known.within (Nat.le_refl _)
  exact ⟨LawfulLimbWord.shiftLeft known.denotes small (inRange (by omega)), within⟩

/-- How far a shift to the right shrinks the magnitude is for the caller to say. -/
theorem shiftRight (known : Bounded word x bound) (amount : Nat) {smaller : Nat}
    (within : (x / 2 ^ amount).natAbs ≤ smaller)
    (small : amount < 64 := by decide) (fits : smaller < 2 ^ (63 : Nat) := by decide) :
    Bounded (LimbWord.shiftRight word amount) (x / 2 ^ amount) smaller :=
  ⟨LawfulLimbWord.shiftRight known.denotes small (inRange (by omega)), within⟩

end Bounded

end EdwardsSignature
