import EdwardsSignature.Bytes
import EdwardsSignature.Failure
import EdwardsSignature.Limb.Word

/-! Signed radix-16 digits of a scalar below `2 ^ 255`.

All digits but the last lie in `-8 … 7`; the last takes the final carry as it is. -/
set_option autoImplicit false
namespace EdwardsSignature.Radix16

open LimbWord

def nibbles (bytes : Bytes) : List UInt8 :=
  bytes.flatMap fun byte => [byte &&& 15, byte >>> 4]

section Arithmetic

variable {α : Type} [LimbWord α]

/-- Passes a carry up the digits. A digit of 8 or more becomes negative and carries one. -/
def balance (carried : α) : List α → List α
  | [] => []
  | [last] => [last + carried]
  | digit :: rest =>
      let raised := digit + carried
      let next := shiftRight (raised + literal 8) 4
      (raised - shiftLeft next 4) :: balance next rest

theorem length_balance (carried : α) (digits : List α) :
    (balance carried digits).length = digits.length := by
  induction digits generalizing carried with
  | nil => rfl
  | cons digit rest ih =>
      cases rest with
      | nil => rfl
      | cons second rest =>
          rw [balance, List.length_cons, ih, List.length_cons]
          · rfl
          · exact List.cons_ne_nil second rest

def digits (α : Type) [LimbWord α] (bytes : Bytes) : List α :=
  balance (literal 0) ((nibbles bytes).map fun nibble => literal (nibble.toNat : Int))

end Arithmetic

theorem length_nibbles (bytes : Bytes) : (nibbles bytes).length = 2 * bytes.length := by
  induction bytes with
  | nil => rfl
  | cons byte rest ih =>
      simp only [nibbles] at ih
      simp only [nibbles, List.flatMap_cons, List.length_append, List.length_cons,
        List.length_nil, ih]
      omega

def digitVector (scalar : Block 32) : Vector Int8 64 :=
  ⟨(digits Int8 scalar.toList).toArray, by
    simp [digits, length_balance, length_nibbles]⟩

/-- Recodes a scalar. A scalar with bit 255 set has no such digits. -/
def recode (scalar : Block 32) : Except Violation (Vector Int8 64) :=
  if scalar.top ≤ 127 then .ok (digitVector scalar) else .error .scalarTooWide

end EdwardsSignature.Radix16
