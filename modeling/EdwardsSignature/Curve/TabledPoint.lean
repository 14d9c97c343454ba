import EdwardsSignature.Curve.Encoding
import EdwardsSignature.Curve.Table
import EdwardsSignature.Scalar.Radix16
import EdwardsSignature.Scalar.SlidingWindow

/-! Points with their tables, and the two table-driven multiplications.

Each table is built when it is first needed and kept from then on; that it is the table
of the point is part of the type. -/
set_option autoImplicit false
namespace EdwardsSignature

structure TabledPoint (F : Type) [BaseField F] where
  curve : Curve F
  point : Extended F
  comb : Thunk (CombTable F)
  odd : Thunk (EntryRow F)
  comb_eq : comb.get = Table.comb curve point
  odd_eq : odd.get = Table.odd curve point

variable {F : Type} [BaseField F]

namespace EntryRow

/-- The multiple of the row's point by a digit from `-8` to `8`. Every entry is visited; the
one at the digit's magnitude is kept, and its negation for a negative digit. -/
def select (row : EntryRow F) (digit : Int8) : AffineNiels F :=
  let negative := BranchFree.signMask digit
  let magnitude := (digit - ((-negative.toInt8 &&& digit) <<< 1)).toUInt8
  let chosen := (List.finRange 8).foldl (fun kept column =>
    kept.select row[column] (BranchFree.equalMask magnitude (UInt8.ofNat (column.val + 1))))
    AffineNiels.neutral
  chosen.select chosen.negate negative

def applyDigit (row : EntryRow F) (total : Completed F) (digit : WindowDigit) : Completed F :=
  if 0 < digit.value then total.toExtended.addEntry row[digit.index]
  else if digit.value < 0 then total.toExtended.subEntry row[digit.index]
  else total

end EntryRow

namespace TabledPoint

def ofExtended (curve : Curve F) (point : Extended F) : TabledPoint F where
  curve := curve
  point := point
  comb := Thunk.mk fun _ => Table.comb curve point
  odd := Thunk.mk fun _ => Table.odd curve point
  comb_eq := rfl
  odd_eq := rfl

def decode (curve : Curve F) (bytes : Bytes) : Except Rejection (TabledPoint F) :=
  (ofExtended curve) <$> curve.decodePoint bytes

def encode (tabled : TabledPoint F) : Block 32 := tabled.point.encode

def negate (tabled : TabledPoint F) : TabledPoint F :=
  ofExtended tabled.curve (tabled.point.negate tabled.curve)

def addRows (tabled : TabledPoint F) (digits : Fin 32 → Int8) (start : Extended F) : Extended F :=
  let rows := tabled.comb.get
  (List.finRange 32).foldl (fun total row =>
    (total.addEntry (EntryRow.select rows[row] (digits row))).toExtended) start

def timesSixteen (point : Extended F) : Extended F :=
  point.double.toProjective.double.toProjective.double.toProjective.double.toExtended

/-- The multiple by 64 radix-16 digits: the digits at odd places, shifted up by one digit,
and then those at even places. -/
def multiplyDigits (tabled : TabledPoint F) (digits : Vector Int8 64) : Extended F :=
  let upper := tabled.addRows (fun row => digits[2 * row.val + 1]) Extended.neutral
  tabled.addRows (fun row => digits[2 * row.val]) (timesSixteen upper)

/-- The multiple by a scalar below `2 ^ 255`, with a fixed sequence of operations. -/
def multiply (tabled : TabledPoint F) (scalar : Block 32) : Except Violation (Extended F) :=
  tabled.multiplyDigits <$> Radix16.recode scalar

/-- One place of the double multiplication: doubles and applies both digits. -/
def doubleStep (first second : EntryRow F) (total : Projective F)
    (digits : WindowDigit × WindowDigit) : Projective F :=
  (second.applyDigit (first.applyDigit total.double digits.1) digits.2).toProjective

/-- The sum of a multiple of another point and a multiple of this one, from the highest
place down at which either has a digit. Takes a time that depends on the scalars. -/
def multiplyDouble (tabled other : TabledPoint F) (otherScalar scalar : Block 32) :
    Projective F :=
  let places := (SlidingWindow.recode otherScalar).zip (SlidingWindow.recode scalar)
  let used := places.reverse.dropWhile fun digits => digits.1.value == 0 && digits.2.value == 0
  used.foldl (doubleStep other.odd.get tabled.odd.get) Projective.neutral

end TabledPoint

end EdwardsSignature
