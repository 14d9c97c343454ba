import EdwardsSignature.Bytes

/-! Comparisons that touch every byte and decide without a branch.

Each answer is a mask: `1` for yes and `0` for no. `equal` and `lessThan` turn
the final mask into a truth value; the lengths of their operands are public. -/
set_option autoImplicit false
namespace EdwardsSignature.BranchFree

/-- `1` when the bytes agree and `0` otherwise: only a zero difference borrows. -/
def equalMask (left right : UInt8) : UInt8 :=
  (((left ^^^ right).toUInt32 - 1) >>> 31).toUInt8

/-- `1` for a negative digit and `0` otherwise: the sign bit of its 64-bit extension. -/
def signMask (digit : Int8) : UInt8 :=
  (digit.toInt64.toUInt64 >>> 63).toUInt8

/-- Digits are compared through their two's-complement bytes. -/
def equalDigits (left right : Int8) : Bool :=
  equalMask left.toUInt8 right.toUInt8 == 1

/-- All differences of two byte strings of one length, gathered in one byte. -/
def difference (left right : Bytes) : UInt8 :=
  (List.zipWith (· ^^^ ·) left right).foldl (· ||| ·) 0

def equal (left right : Bytes) : Bool :=
  left.length == right.length && difference left right == 0

/-- What a scan from the top has found: whether a byte has differed yet, and whether
the first that did was smaller on the left. -/
structure Scan where
  decided : UInt8
  less : UInt8

/-- One byte of the scan. A byte after the deciding one changes nothing. -/
def Scan.next (scan : Scan) (left right : UInt8) : Scan :=
  let smaller := ((left.toUInt16.toInt16 - right.toUInt16.toInt16) >>> 8).toUInt16.toUInt8 &&& 1
  let differs := 1 ^^^ equalMask left right
  { decided := scan.decided ||| differs
    less := scan.less ||| (smaller &&& ~~~scan.decided &&& 1) }

/-- Whether the little-endian number on the left is the smaller one. The operands have
one length; the scan runs from the most significant byte down. -/
def lessThan (left right : Bytes) : Bool :=
  let start : Scan := ⟨0, 0⟩
  ((left.zip right).reverse.foldl (fun scan pair => scan.next pair.1 pair.2) start).less == 1

end EdwardsSignature.BranchFree
