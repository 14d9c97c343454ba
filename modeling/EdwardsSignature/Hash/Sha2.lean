import EdwardsSignature.Bytes
import EdwardsSignature.Hash.Algorithm

/-! The SHA-2 family.

One compression function serves both word sizes; a family fixes the rotations and the
round constants, and an algorithm adds its initial state and the length it keeps. -/
set_option autoImplicit false
namespace EdwardsSignature

class HashWord (α : Type) extends Add α, XorOp α, AndOp α, Complement α where
  /-- Bytes in a word. -/
  size : Nat
  rotateRight : α → Nat → α
  shiftRight : α → Nat → α
  /-- The word that big-endian bytes write. -/
  ofBytes : Bytes → α
  /-- The bytes of a word, most significant first. -/
  toBytes : α → Bytes
  length_toBytes (word : α) : (toBytes word).length = size

instance : HashWord UInt32 where
  size := 4
  rotateRight word amount :=
    (word >>> UInt32.ofNat amount) ||| (word <<< UInt32.ofNat (32 - amount))
  shiftRight word amount := word >>> UInt32.ofNat amount
  ofBytes bytes := bytes.foldl (fun word byte => (word <<< 8) ||| byte.toUInt32) 0
  toBytes word :=
    [(word >>> 24).toUInt8, (word >>> 16).toUInt8, (word >>> 8).toUInt8, word.toUInt8]
  length_toBytes _ := rfl

instance : HashWord UInt64 where
  size := 8
  rotateRight word amount :=
    (word >>> UInt64.ofNat amount) ||| (word <<< UInt64.ofNat (64 - amount))
  shiftRight word amount := word >>> UInt64.ofNat amount
  ofBytes bytes := bytes.foldl (fun word byte => (word <<< 8) ||| byte.toUInt64) 0
  toBytes word :=
    [(word >>> 56).toUInt8, (word >>> 48).toUInt8, (word >>> 40).toUInt8, (word >>> 32).toUInt8,
      (word >>> 24).toUInt8, (word >>> 16).toUInt8, (word >>> 8).toUInt8, word.toUInt8]
  length_toBytes _ := rfl

namespace Sha2

open HashWord

structure State (α : Type) where
  (a b c d e f g h : α)

/-- Three amounts: two rotations and a third one, or two rotations and a shift. -/
structure Mixing where
  (first second third : Nat)

/-- What the word size decides: how words are mixed, and one constant for each round. -/
structure Family (α : Type) where
  stateMixing0 : Mixing
  stateMixing1 : Mixing
  scheduleMixing0 : Mixing
  scheduleMixing1 : Mixing
  constants : List α

variable {α : Type} [HashWord α]

def Mixing.rotations (mixing : Mixing) (word : α) : α :=
  rotateRight word mixing.first ^^^ rotateRight word mixing.second ^^^
    rotateRight word mixing.third

def Mixing.withShift (mixing : Mixing) (word : α) : α :=
  rotateRight word mixing.first ^^^ rotateRight word mixing.second ^^^
    shiftRight word mixing.third

/-- The scheduled word that follows sixteen others, of which four decide it. -/
def Family.nextWord (family : Family α) (w0 w1 w9 w14 : α) : α :=
  family.scheduleMixing1.withShift w14 + w9 + family.scheduleMixing0.withShift w1 + w0

/-- The first `count` scheduled words, given the sixteen that come next. -/
def schedule (family : Family α) : Nat → List α → List α
  | 0, _ => []
  | _, [] => []
  | count + 1, w0 :: rest =>
      match rest[0]?, rest[8]?, rest[13]? with
      | some w1, some w9, some w14 =>
          w0 :: schedule family count (rest ++ [family.nextWord w0 w1 w9 w14])
      | _, _, _ => []

def State.round (family : Family α) (state : State α) (constant scheduled : α) : State α :=
  let choice := (state.e &&& state.f) ^^^ (~~~state.e &&& state.g)
  let majority := (state.a &&& state.b) ^^^ (state.a &&& state.c) ^^^ (state.b &&& state.c)
  let temporary1 :=
    state.h + family.stateMixing1.rotations state.e + choice + constant + scheduled
  let temporary2 := family.stateMixing0.rotations state.a + majority
  ⟨temporary1 + temporary2, state.a, state.b, state.c, state.d + temporary1, state.e, state.f,
    state.g⟩

def State.add (left right : State α) : State α :=
  ⟨left.a + right.a, left.b + right.b, left.c + right.c, left.d + right.d,
    left.e + right.e, left.f + right.f, left.g + right.g, left.h + right.h⟩

def State.words (state : State α) : List α :=
  [state.a, state.b, state.c, state.d, state.e, state.f, state.g, state.h]

def wordsOf (α : Type) [HashWord α] : Nat → Bytes → List α
  | 0, _ => []
  | count + 1, bytes => ofBytes (bytes.take (size α)) :: wordsOf α count (bytes.drop (size α))

def compress (family : Family α) (state : State α) (block : Bytes) : State α :=
  let scheduled := schedule family family.constants.length (wordsOf α 16 block)
  let mixed := (family.constants.zip scheduled).foldl
    (fun current pair => current.round family pair.1 pair.2) state
  state.add mixed

def absorb (family : Family α) : Nat → State α → Bytes → State α
  | 0, state, _ => state
  | count + 1, state, bytes =>
      absorb family count (compress family state (bytes.take (16 * size α)))
        (bytes.drop (16 * size α))

/-- A set bit, zeros up to the end of a block, and the message's length in bits. -/
def padding (wordSize messageLength : Nat) : Bytes :=
  let blockSize := 16 * wordSize
  let lengthSize := 2 * wordSize
  let used := (messageLength + 1 + lengthSize) % blockSize
  128 :: List.replicate ((blockSize - used) % blockSize) 0 ++
    (Bytes.ofNat lengthSize (8 * messageLength)).reverse

/-- The first `kept` bytes of the final state. -/
def digest (family : Family α) (start : State α) (kept : Nat) (message : Bytes) : Bytes :=
  let padded := message ++ padding (size α) message.length
  let final := absorb family (padded.length / (16 * size α)) start padded
  (final.words.flatMap toBytes).take kept

theorem length_digest (family : Family α) (start : State α) {kept : Nat}
    (fits : kept ≤ 8 * size α) (message : Bytes) :
    (digest family start kept message).length = kept := by
  simp only [digest, State.words, List.length_take, List.length_flatMap, List.map_cons,
    List.map_nil, length_toBytes, List.sum_cons, List.sum_nil]
  omega

/-- The fractions of the cube roots of the first 80 primes, to 64 bits. -/
def cubeRoots : List UInt64 := [
  0x428a2f98d728ae22, 0x7137449123ef65cd, 0xb5c0fbcfec4d3b2f, 0xe9b5dba58189dbbc,
  0x3956c25bf348b538, 0x59f111f1b605d019, 0x923f82a4af194f9b, 0xab1c5ed5da6d8118,
  0xd807aa98a3030242, 0x12835b0145706fbe, 0x243185be4ee4b28c, 0x550c7dc3d5ffb4e2,
  0x72be5d74f27b896f, 0x80deb1fe3b1696b1, 0x9bdc06a725c71235, 0xc19bf174cf692694,
  0xe49b69c19ef14ad2, 0xefbe4786384f25e3, 0x0fc19dc68b8cd5b5, 0x240ca1cc77ac9c65,
  0x2de92c6f592b0275, 0x4a7484aa6ea6e483, 0x5cb0a9dcbd41fbd4, 0x76f988da831153b5,
  0x983e5152ee66dfab, 0xa831c66d2db43210, 0xb00327c898fb213f, 0xbf597fc7beef0ee4,
  0xc6e00bf33da88fc2, 0xd5a79147930aa725, 0x06ca6351e003826f, 0x142929670a0e6e70,
  0x27b70a8546d22ffc, 0x2e1b21385c26c926, 0x4d2c6dfc5ac42aed, 0x53380d139d95b3df,
  0x650a73548baf63de, 0x766a0abb3c77b2a8, 0x81c2c92e47edaee6, 0x92722c851482353b,
  0xa2bfe8a14cf10364, 0xa81a664bbc423001, 0xc24b8b70d0f89791, 0xc76c51a30654be30,
  0xd192e819d6ef5218, 0xd69906245565a910, 0xf40e35855771202a, 0x106aa07032bbd1b8,
  0x19a4c116b8d2d0c8, 0x1e376c085141ab53, 0x2748774cdf8eeb99, 0x34b0bcb5e19b48a8,
  0x391c0cb3c5c95a63, 0x4ed8aa4ae3418acb, 0x5b9cca4f7763e373, 0x682e6ff3d6b2b8a3,
  0x748f82ee5defb2fc, 0x78a5636f43172f60, 0x84c87814a1f0ab72, 0x8cc702081a6439ec,
  0x90befffa23631e28, 0xa4506cebde82bde9, 0xbef9a3f7b2c67915, 0xc67178f2e372532b,
  0xca273eceea26619c, 0xd186b8c721c0c207, 0xeada7dd6cde0eb1e, 0xf57d4f7fee6ed178,
  0x06f067aa72176fba, 0x0a637dc5a2c898a6, 0x113f9804bef90dae, 0x1b710b35131c471b,
  0x28db77f523047d84, 0x32caab7b40c72493, 0x3c9ebe0a15c9bebc, 0x431d67c49c100d4c,
  0x4cc5d4becb3e42b6, 0x597f299cfc657e2a, 0x5fcb6fab3ad6faec, 0x6c44198c4a475817]

def wide : Family UInt64 where
  stateMixing0 := ⟨28, 34, 39⟩
  stateMixing1 := ⟨14, 18, 41⟩
  scheduleMixing0 := ⟨1, 8, 7⟩
  scheduleMixing1 := ⟨19, 61, 6⟩
  constants := cubeRoots

def upperHalf (word : UInt64) : UInt32 := (word >>> 32).toUInt32

/-- The family of 32-bit words. Its 64 constants are the same fractions, to 32 bits. -/
def narrow : Family UInt32 where
  stateMixing0 := ⟨2, 13, 22⟩
  stateMixing1 := ⟨6, 11, 25⟩
  scheduleMixing0 := ⟨7, 18, 3⟩
  scheduleMixing1 := ⟨17, 19, 10⟩
  constants := (cubeRoots.take 64).map upperHalf

/-- The fractions of the square roots of the first eight primes. -/
def start512 : State UInt64 :=
  ⟨0x6a09e667f3bcc908, 0xbb67ae8584caa73b, 0x3c6ef372fe94f82b, 0xa54ff53a5f1d36f1,
    0x510e527fade682d1, 0x9b05688c2b3e6c1f, 0x1f83d9abfb41bd6b, 0x5be0cd19137e2179⟩

/-- The fractions of the square roots of the next eight primes. -/
def start384 : State UInt64 :=
  ⟨0xcbbb9d5dc1059ed8, 0x629a292a367cd507, 0x9159015a3070dd17, 0x152fecd8f70e5939,
    0x67332667ffc00b31, 0x8eb44a8768581511, 0xdb0c2e0d64f98fa7, 0x47b5481dbefa4fa4⟩

/-- The fractions of the square roots of the first eight primes, to 32 bits. -/
def start256 : State UInt32 :=
  ⟨upperHalf start512.a, upperHalf start512.b, upperHalf start512.c, upperHalf start512.d,
    upperHalf start512.e, upperHalf start512.f, upperHalf start512.g, upperHalf start512.h⟩

end Sha2

def HashAlgorithm.digest : HashAlgorithm → Bytes → Bytes
  | sha256 => Sha2.digest Sha2.narrow Sha2.start256 32
  | sha384 => Sha2.digest Sha2.wide Sha2.start384 48
  | sha512 => Sha2.digest Sha2.wide Sha2.start512 64

theorem HashAlgorithm.length_digest (algorithm : HashAlgorithm) (message : Bytes) :
    (algorithm.digest message).length = algorithm.outputSize := by
  cases algorithm with
  | sha256 => exact Sha2.length_digest _ _ (by decide) message
  | sha384 => exact Sha2.length_digest _ _ (by decide) message
  | sha512 => exact Sha2.length_digest _ _ (by decide) message

end EdwardsSignature
