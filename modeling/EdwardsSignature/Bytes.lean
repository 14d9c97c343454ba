/-! Byte strings and fixed-length byte blocks as little-endian natural numbers.

`Bytes.ofNat` and `Bytes.toNat` are inverse on numbers that fit, so a block of
`count` bytes is the same thing as a number below `256 ^ count`. -/
set_option autoImplicit false
namespace EdwardsSignature

/-! Powers are core's here, whatever other instances are in scope. -/
attribute [local instance (high)] instPowNat

abbrev Bytes := List UInt8

/-- A byte string whose length is part of its type. -/
abbrev Block (count : Nat) := Vector UInt8 count

namespace Bytes

/-- The number that the bytes write, least significant byte first. -/
def toNat : Bytes → Nat
  | [] => 0
  | byte :: rest => byte.toNat + 256 * toNat rest

/-- The lowest `count` bytes of a number, least significant first. -/
def ofNat : Nat → Nat → Bytes
  | 0, _ => []
  | count + 1, value => UInt8.ofNat value :: ofNat count (value / 256)

@[simp] theorem length_ofNat (count value : Nat) : (ofNat count value).length = count := by
  induction count generalizing value with
  | zero => rfl
  | succ count ih => simp [ofNat, ih]

theorem toNat_ofNat (count value : Nat) : toNat (ofNat count value) = value % 256 ^ count := by
  induction count generalizing value with
  | zero => simp [ofNat, toNat, Nat.mod_one]
  | succ count ih =>
      rw [ofNat, toNat, ih, Nat.pow_succ, Nat.mul_comm _ 256, Nat.mod_mul, UInt8.toNat_ofNat']

theorem toNat_lt (bytes : Bytes) : toNat bytes < 256 ^ bytes.length := by
  induction bytes with
  | nil => simp [toNat]
  | cons byte rest ih =>
      have bound := byte.toNat_lt
      simp only [toNat, List.length_cons, Nat.pow_succ]
      omega

theorem ofNat_toNat (bytes : Bytes) : ofNat bytes.length (toNat bytes) = bytes := by
  induction bytes with
  | nil => rfl
  | cons byte rest ih =>
      have bound := byte.toNat_lt
      have low : UInt8.ofNat (byte.toNat + 256 * toNat rest) = byte := by
        apply UInt8.toNat_inj.mp
        rw [UInt8.toNat_ofNat']
        omega
      have high : (byte.toNat + 256 * toNat rest) / 256 = toNat rest := by omega
      simp only [toNat, List.length_cons, ofNat, low, high, ih]

theorem toNat_append (left right : Bytes) :
    toNat (left ++ right) = toNat left + 256 ^ left.length * toNat right := by
  induction left with
  | nil => simp [toNat]
  | cons byte rest ih =>
      simp only [List.cons_append, toNat, ih, List.length_cons, Nat.pow_succ, Nat.mul_add]
      rw [Nat.mul_comm (256 ^ rest.length) 256, Nat.mul_assoc]
      omega

def bits (bytes : Bytes) : List Bool :=
  bytes.flatMap fun byte => (List.range 8).map fun index => byte.toNat.testBit index

def hexDigit (value : Nat) : Char :=
  let digits := ['0', '1', '2', '3', '4', '5', '6', '7', '8', '9', 'a', 'b', 'c', 'd', 'e', 'f']
  digits[value]?.getD '0'

/-- Two lower-case hexadecimal digits a byte, in the order of the bytes. -/
def hex (bytes : Bytes) : String :=
  String.ofList (bytes.flatMap fun byte => [hexDigit (byte.toNat / 16), hexDigit (byte.toNat % 16)])

end Bytes

namespace Block

def ofBytes? (count : Nat) (bytes : Bytes) : Option (Block count) :=
  if exact : bytes.length = count then
    some ⟨bytes.toArray, by simpa using exact⟩
  else
    none

def ofNat (count value : Nat) : Block count :=
  ⟨(Bytes.ofNat count value).toArray, by simp⟩

def toNat {count : Nat} (block : Block count) : Nat :=
  Bytes.toNat block.toList

def low (block : Block 64) : Block 32 :=
  Vector.ofFn fun index : Fin 32 => block[index.val]

def high (block : Block 64) : Block 32 :=
  Vector.ofFn fun index : Fin 32 => block[32 + index.val]

def bottom (block : Block 32) : UInt8 := block[0]

def top (block : Block 32) : UInt8 := block[31]

def mapBottom (change : UInt8 → UInt8) (block : Block 32) : Block 32 :=
  block.set 0 (change block.bottom)

def mapTop (change : UInt8 → UInt8) (block : Block 32) : Block 32 :=
  block.set 31 (change block.top)

@[simp] theorem toList_ofNat (count value : Nat) :
    (ofNat count value).toList = Bytes.ofNat count value := by
  simp [ofNat, Vector.toList]

theorem toNat_ofNat (count value : Nat) : (ofNat count value).toNat = value % 256 ^ count := by
  rw [toNat, toList_ofNat, Bytes.toNat_ofNat]

theorem toNat_lt {count : Nat} (block : Block count) : block.toNat < 256 ^ count := by
  have bound := Bytes.toNat_lt block.toList
  rwa [Vector.length_toList] at bound

theorem ofNat_toNat {count : Nat} (block : Block count) : ofNat count block.toNat = block := by
  apply Vector.toList_inj.mp
  have restored := Bytes.ofNat_toNat block.toList
  rw [Vector.length_toList] at restored
  rw [toList_ofNat]
  exact restored

theorem ofBytes?_eq_none_iff {count : Nat} {bytes : Bytes} :
    ofBytes? count bytes = none ↔ bytes.length ≠ count := by
  simp [ofBytes?]

theorem toList_of_ofBytes? {count : Nat} {bytes : Bytes} {block : Block count}
    (accepted : ofBytes? count bytes = some block) : block.toList = bytes := by
  unfold ofBytes? at accepted
  split at accepted
  · simp only [Option.some.injEq] at accepted
    subst accepted
    simp [Vector.toList]
  · simp at accepted

theorem toList_low (block : Block 64) : block.low.toList = block.toList.take 32 := by
  apply List.ext_getElem
  · simp
  · intro index inside _
    simp [low]

theorem toList_high (block : Block 64) : block.high.toList = block.toList.drop 32 := by
  apply List.ext_getElem
  · simp
  · intro index inside _
    simp [high]

@[simp] theorem low_append (left right : Block 32) : low (left ++ right) = left := by
  apply Vector.toList_inj.mp
  rw [toList_low, Vector.toList_append, List.take_left' (by simp)]

@[simp] theorem high_append (left right : Block 32) : high (left ++ right) = right := by
  apply Vector.toList_inj.mp
  rw [toList_high, Vector.toList_append, List.drop_left' (by simp)]

end Block

end EdwardsSignature
