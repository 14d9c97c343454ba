import EdwardsSignature.Bytes

/-! Fixed-width fields of a little-endian integer: reading one through a 64-bit window,
and packing consecutive ones into bytes.

A window reaches 57 bits or more above the bit it starts at, so fields of up to 57 bits
are read whole; packing holds at most 7 bits between two fields. -/
set_option autoImplicit false
namespace EdwardsSignature.BitField

/-! Powers are core's here, whatever other instances are in scope. -/
attribute [local instance (high)] instPowNat

/-- Up to eight bytes as one word, least significant first. -/
def word : Nat → Bytes → UInt64
  | 0, _ => 0
  | _, [] => 0
  | count + 1, byte :: rest => byte.toUInt64 ||| (word count rest <<< 8)

/-- The bits from position `start` on, as far as a window of eight bytes reaches; bits
past the end of the bytes count as zero. -/
def window (bytes : Bytes) (start : Nat) : UInt64 :=
  word 8 (bytes.drop (start / 8)) >>> UInt64.ofNat (start % 8)

/-- The field of `width` bits from position `start` on. -/
def field (bytes : Bytes) (start width : Nat) : UInt64 :=
  window bytes start &&& ((1 <<< UInt64.ofNat width) - 1)

theorem toNat_shiftLeft_le (value amount : UInt64) :
    (value <<< amount).toNat ≤ value.toNat * 2 ^ (amount.toNat % 64) := by
  rw [UInt64.toNat_shiftLeft, Nat.shiftLeft_eq]
  exact Nat.mod_le _ _

theorem toNat_word_lt (count : Nat) (bytes : Bytes) :
    (word count bytes).toNat < 2 ^ (8 * count) := by
  induction count generalizing bytes with
  | zero => exact Nat.one_pos
  | succ count ih =>
      cases bytes with
      | nil => exact Nat.two_pow_pos _
      | cons byte rest =>
          have power : 2 ^ (8 * (count + 1)) = 2 ^ (8 * count) * 2 ^ 8 := by
            rw [Nat.mul_succ, Nat.pow_add]
          have positive := Nat.two_pow_pos (8 * count)
          rw [word, UInt64.toNat_or]
          apply Nat.or_lt_two_pow
          · have bound := byte.toNat_lt
            rw [UInt8.toNat_toUInt64]
            omega
          · have shifted := toNat_shiftLeft_le (word count rest) 8
            have above := ih rest
            have amount : (8 : UInt64).toNat % 64 = 8 := by decide
            rw [amount] at shifted
            omega

def wordBytes : Nat → UInt64 → Bytes
  | 0, _ => []
  | count + 1, value => value.toUInt8 :: wordBytes count (value >>> 8)

@[simp] theorem length_wordBytes (count : Nat) (value : UInt64) :
    (wordBytes count value).length = count := by
  induction count generalizing value with
  | zero => rfl
  | succ count ih => simp [wordBytes, ih]

/-- Writes consecutive fields, each with its width, behind `held` pending bits. Whole bytes
leave as soon as they are complete; bits that are left at the end fill one last byte. -/
def pack (pending : UInt64) (held : Nat) : List (Nat × UInt64) → Bytes
  | [] => if held = 0 then [] else [pending.toUInt8]
  | (width, value) :: rest =>
      let gathered := pending ||| (value <<< UInt64.ofNat held)
      let whole := (held + width) / 8
      wordBytes whole gathered ++
        pack (gathered >>> UInt64.ofNat (8 * whole)) ((held + width) % 8) rest

def totalWidth : List (Nat × UInt64) → Nat
  | [] => 0
  | field :: rest => field.1 + totalWidth rest

theorem totalWidth_map_const {α : Type} (width : Nat) (value : α → UInt64) (items : List α) :
    totalWidth (items.map fun item => (width, value item)) = items.length * width := by
  induction items with
  | nil => simp [totalWidth]
  | cons item rest ih =>
      rw [List.map_cons, totalWidth, ih, List.length_cons, Nat.succ_mul, Nat.add_comm]

theorem length_pack (pending : UInt64) (held : Nat) (fields : List (Nat × UInt64))
    (few : held < 8) : (pack pending held fields).length = (held + totalWidth fields + 7) / 8 := by
  induction fields generalizing pending held with
  | nil =>
      unfold pack totalWidth
      split
      · rename_i none
        subst none
        rfl
      · simp
        omega
  | cons field rest ih =>
      have tail := ih ((pending ||| (field.2 <<< UInt64.ofNat held)) >>>
        UInt64.ofNat (8 * ((held + field.1) / 8))) ((held + field.1) % 8) (Nat.mod_lt _ (by decide))
      simp only [pack, List.length_append, length_wordBytes, tail, totalWidth]
      omega

/-- Packs fields that fill a block, up to the last byte's unused bits. -/
def packBlock (count : Nat) (fields : List (Nat × UInt64))
    (exact : (totalWidth fields + 7) / 8 = count) : Block count :=
  ⟨(pack 0 0 fields).toArray, by
    rw [List.size_toArray, length_pack 0 0 fields (by decide), Nat.zero_add, exact]⟩

end EdwardsSignature.BitField
