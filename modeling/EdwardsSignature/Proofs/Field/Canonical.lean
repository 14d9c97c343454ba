import Mathlib
import EdwardsSignature.Proofs.BitField
import EdwardsSignature.Proofs.Field.LimbValue

/-! The canonical digits of limbs are those of the least residue.

The quotient is estimated from the top limb and then refined along all limbs; limbs within
their widths leave the estimate no room to be wrong. -/

set_option autoImplicit false

namespace EdwardsSignature

namespace Limbs

private theorem add_ediv_ediv (limb below weight : Int) (width : Nat) (positive : 0 < weight) :
    (limb + below / weight) / 2 ^ width = (below + weight * limb) / (weight * 2 ^ width) := by
  rw [← Int.ediv_ediv_of_nonneg (Int.le_of_lt positive),
    Int.add_mul_ediv_left _ _ (Int.ne_of_gt positive), Int.add_comm]

theorem quotient_eq (limbs : Limbs Int) :
    limbs.quotient = ((19 * limbs.l9 + 2 ^ 24) / 2 ^ 25 + limbs.value) / 2 ^ 255 := by
  simp only [quotient, shiftRight_exact, shiftLeft_exact, literal_exact, Int.one_mul]
  generalize (19 * limbs.l9 + 2 ^ 24) / 2 ^ 25 = top
  simp (disch := norm_num) only [add_ediv_ediv, value_eq]
  congr 1
  ring

/-- The top limb alone fixes the rounded estimate, up to what the limbs below can change. -/
private theorem estimate_bounds {value top tail estimate quotient rest : Int}
    (parts : value = top * 2 ^ 230 + tail) (topLow : -2 ^ 25 ≤ top) (topHigh : top ≤ 2 ^ 25)
    (tailLow : -2 ^ 231 ≤ tail) (tailHigh : tail ≤ 2 ^ 231)
    (estimateLow : estimate * 2 ^ 25 ≤ 19 * top + 2 ^ 24)
    (estimateHigh : 19 * top + 2 ^ 24 < estimate * 2 ^ 25 + 2 ^ 25)
    (division : value = (2 ^ 255 - 19) * quotient + rest) (nonneg : 0 ≤ rest)
    (below : rest < 2 ^ 255 - 19) :
    2 ^ 255 * quotient ≤ estimate + value ∧ estimate + value < 2 ^ 255 * quotient + 2 ^ 255 := by
  norm_num at *
  omega

def Within (limbs : Limbs Int) : Prop :=
  ∀ position, (limbs.get position).natAbs ≤ bound position

theorem Within.bounds {limbs : Limbs Int} (within : limbs.Within) (position : Position) :
    -2 ^ position.width ≤ limbs.get position ∧ limbs.get position ≤ 2 ^ position.width := by
  have magnitude := within position
  have cast : ((bound position : Nat) : Int) = 2 ^ position.width := by
    cases position <;> rfl
  constructor <;> omega

/-- The limbs below the top one weigh less than twice its unit. -/
theorem Within.exists_tail {limbs : Limbs Int} (within : limbs.Within) :
    ∃ tail, limbs.value = limbs.l9 * 2 ^ 230 + tail ∧ -2 ^ 231 ≤ tail ∧ tail ≤ 2 ^ 231 := by
  obtain ⟨low0, high0⟩ := within.bounds .p0
  obtain ⟨low1, high1⟩ := within.bounds .p1
  obtain ⟨low2, high2⟩ := within.bounds .p2
  obtain ⟨low3, high3⟩ := within.bounds .p3
  obtain ⟨low4, high4⟩ := within.bounds .p4
  obtain ⟨low5, high5⟩ := within.bounds .p5
  obtain ⟨low6, high6⟩ := within.bounds .p6
  obtain ⟨low7, high7⟩ := within.bounds .p7
  obtain ⟨low8, high8⟩ := within.bounds .p8
  simp only [get, Position.width] at *
  refine ⟨limbs.value - limbs.l9 * 2 ^ 230, by ring, ?_, ?_⟩
  all_goals
    rw [value_eq]
    linarith

theorem Within.quotient_eq {limbs : Limbs Int} (within : limbs.Within) :
    limbs.quotient = limbs.value / fieldPrime := by
  obtain ⟨tail, parts, tailLow, tailHigh⟩ := within.exists_tail
  obtain ⟨topLow, topHigh⟩ := within.bounds .p9
  have positive : (0 : Int) < fieldPrime := by rw [fieldPrime_eq]; norm_num
  have division := (Int.mul_ediv_add_emod limbs.value fieldPrime).symm
  have below := Int.emod_lt_of_pos limbs.value positive
  rw [← fieldPrime_eq.symm] at below
  have estimateHigh := Int.lt_ediv_add_one_mul_self (19 * limbs.l9 + 2 ^ 24)
    (b := 2 ^ 25) (by norm_num)
  rw [Int.add_mul, Int.one_mul] at estimateHigh
  obtain ⟨lower, upper⟩ := estimate_bounds parts topLow topHigh tailLow tailHigh
    (Int.ediv_mul_le _ (by norm_num)) estimateHigh (by rw [← fieldPrime_eq]; exact division)
    (Int.emod_nonneg _ (Int.ne_of_gt positive)) (by rw [← fieldPrime_eq]; exact below)
  rw [Limbs.quotient_eq, Int.ediv_eq_iff_of_pos (by norm_num)]
  constructor <;> linarith

/-- The positions whose limbs are digits of their width already. -/
def Settled (positions : List Position) (limbs : Limbs Int) : Prop :=
  ∀ position ∈ positions, 0 ≤ limbs.get position ∧ limbs.get position < 2 ^ position.width

theorem value_floorCarryAt {position : Position} (below : position ≠ .p9) (limbs : Limbs Int) :
    (limbs.floorCarryAt position).value = limbs.value := by
  unfold floorCarryAt
  generalize LimbWord.shiftRight (limbs.get position) position.width = carried
  cases position
  case p9 => contradiction
  all_goals
    simp only [modify, Position.next, Position.width, shiftLeft_exact, value_eq]
    ring

/-- One carry settles its position and disturbs the next one only. -/
theorem Settled.floorCarryAt {positions : List Position} {limbs : Limbs Int}
    (settled : Settled positions limbs) (position : Position)
    (later : position.next ∉ positions := by decide) :
    Settled (position :: positions) (limbs.floorCarryAt position) := by
  have apart := position.next_ne
  intro other member
  simp only [Limbs.floorCarryAt, get_modify, shiftRight_exact, shiftLeft_exact]
  by_cases same : other = position
  · subst same
    have remainder := Int.emod_add_ediv_mul (limbs.get other) (2 ^ other.width)
    have nonneg := Int.emod_nonneg (limbs.get other) (b := 2 ^ other.width) (by positivity)
    have below := Int.emod_lt_of_pos (limbs.get other) (b := 2 ^ other.width) (by positivity)
    simp only [apart.symm, ↓reduceIte]
    omega
  · have listed : other ∈ positions := (List.mem_cons.mp member).resolve_left same
    have elsewhere : other ≠ position.next := fun arrives => later (arrives ▸ listed)
    simp only [same, elsewhere, ↓reduceIte]
    exact settled other listed

theorem value_dropTop_emod (limbs : Limbs Int) :
    limbs.dropTop.value % 2 ^ 255 = limbs.value % 2 ^ 255 := by
  have dropped : limbs.dropTop.value = limbs.value + 2 ^ 255 * -(limbs.l9 / 2 ^ 25) := by
    simp only [dropTop, modify, shiftRight_exact, shiftLeft_exact, value_eq]
    ring
  rw [dropped, Int.add_mul_emod_self_left]

theorem Settled.dropTop {positions : List Position} {limbs : Limbs Int}
    (settled : Settled positions limbs) : Settled (.p9 :: positions) limbs.dropTop := by
  intro other member
  simp only [Limbs.dropTop, get_modify, shiftRight_exact, shiftLeft_exact]
  by_cases same : other = .p9
  · subst same
    have remainder := Int.emod_add_ediv_mul (limbs.get .p9) (2 ^ 25)
    have nonneg := Int.emod_nonneg (limbs.get .p9) (b := 2 ^ 25) (by norm_num)
    have below := Int.emod_lt_of_pos (limbs.get .p9) (b := 2 ^ 25) (by norm_num)
    simp only [↓reduceIte, Position.width]
    omega
  · simp only [same, ↓reduceIte]
    exact settled other ((List.mem_cons.mp member).resolve_left same)

theorem Settled.value_bounds {limbs : Limbs Int} (settled : Settled Position.all limbs) :
    0 ≤ limbs.value ∧ limbs.value < 2 ^ 255 := by
  have digit (position : Position) : 0 ≤ limbs.get position ∧
      limbs.get position < 2 ^ position.width := settled position (by cases position <;> decide)
  obtain ⟨low0, high0⟩ := digit .p0
  obtain ⟨low1, high1⟩ := digit .p1
  obtain ⟨low2, high2⟩ := digit .p2
  obtain ⟨low3, high3⟩ := digit .p3
  obtain ⟨low4, high4⟩ := digit .p4
  obtain ⟨low5, high5⟩ := digit .p5
  obtain ⟨low6, high6⟩ := digit .p6
  obtain ⟨low7, high7⟩ := digit .p7
  obtain ⟨low8, high8⟩ := digit .p8
  obtain ⟨low9, high9⟩ := digit .p9
  simp only [get, Position.width] at *
  rw [value_eq]
  constructor
  · positivity
  · linarith [Int.add_one_le_of_lt high0, Int.add_one_le_of_lt high1, Int.add_one_le_of_lt high2,
      Int.add_one_le_of_lt high3, Int.add_one_le_of_lt high4, Int.add_one_le_of_lt high5,
      Int.add_one_le_of_lt high6, Int.add_one_le_of_lt high7, Int.add_one_le_of_lt high8,
      Int.add_one_le_of_lt high9]

theorem settled_canonical (limbs : Limbs Int) : Settled Position.all limbs.canonical := by
  have none : Settled [] (limbs.modify .p0 (· + 19 * quotient limbs)) :=
    fun _ member => nomatch member
  have chain := none.floorCarryAt .p0 |>.floorCarryAt .p1 |>.floorCarryAt .p2 |>.floorCarryAt .p3
    |>.floorCarryAt .p4 |>.floorCarryAt .p5 |>.floorCarryAt .p6 |>.floorCarryAt .p7
    |>.floorCarryAt .p8 |>.dropTop
  intro position _
  exact chain position (by cases position <;> decide)

theorem Within.value_canonical {limbs : Limbs Int} (within : limbs.Within) :
    limbs.canonical.value = limbs.value % fieldPrime := by
  have bounds := (settled_canonical limbs).value_bounds
  have positive : (0 : Int) < fieldPrime := by rw [fieldPrime_eq]; norm_num
  have division := Int.mul_ediv_add_emod limbs.value fieldPrime
  have nonneg := Int.emod_nonneg limbs.value (Int.ne_of_gt positive)
  have below := Int.emod_lt_of_pos limbs.value positive
  have shifted : (limbs.modify .p0 (· + 19 * quotient limbs)).value =
      limbs.value + 19 * quotient limbs := by
    simp only [modify, value_eq]
    ring
  have congruent : limbs.canonical.value % 2 ^ 255 =
      (limbs.value + 19 * (limbs.value / fieldPrime)) % 2 ^ 255 := by
    rw [← within.quotient_eq, ← shifted, canonical, value_dropTop_emod]
    simp (disch := decide) only [value_floorCarryAt, literal_exact]
  rw [fieldPrime_eq] at *
  omega

end Limbs

end EdwardsSignature
