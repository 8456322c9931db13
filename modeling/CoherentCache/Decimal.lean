import CoherentCache.Bytes

/-!
# Decimal text

Integers are written in plain decimal, with a minus sign in front of a negative one and no leading
zeros.  The reader is as strict about what surrounds a number (no blanks, no plus sign, nothing
after it) and as lenient about leading zeros as every number field of the cache.

* `Decimal.ofNat`, `Decimal.ofInt` : write.
* `Decimal.value`, `Decimal.valueBelow?` : the number that a digit string denotes, without and with
  a limit; `Decimal.valueBelow?_eq` says how the two agree.
* `Decimal.readNatBelow?`, `Decimal.readWithin?` : read a whole text, and refuse a number outside
  the given bounds.
* `Decimal.padded` : write with zeros up to a width in which the sign counts.
-/

namespace CoherentCache

namespace Decimal

/-- The decimal digits of a natural number. -/
def ofNat (n : Nat) : Bytes := (Nat.toDigits 10 n).map fun c => c.toNat.toUInt8

/-- The decimal text of an integer. -/
def ofInt (i : Int) : Bytes := if i < 0 then 45 :: ofNat i.natAbs else ofNat i.natAbs

/-- The byte is one of the ten digits. -/
def isDigit (b : UInt8) : Bool := 48 ≤ b && b ≤ 57

/-- The number after one more digit. -/
def shift (n : Nat) (digit : UInt8) : Nat := 10 * n + (digit.toNat - 48)

/-- The number that a digit string denotes. -/
def value (digits : Bytes) : Nat := digits.foldl shift 0

/-- The number that a digit string denotes after digits that denote `n`, if it is below a limit.  No
number is ever made that reaches the limit, however long the digit string. -/
def valueBelow? (limit : Nat) : (n : Nat) → (digits : Bytes) → Option Nat
  | n, [] => if n < limit then some n else none
  | n, d :: digits => if n < limit then valueBelow? limit (shift n d) digits else none

theorem le_foldl_shift (n : Nat) (digits : Bytes) : n ≤ digits.foldl shift n := by
  induction digits generalizing n with
  | nil => exact Nat.le_refl n
  | cons d digits ih =>
    have step : n ≤ shift n d := by unfold shift; omega
    exact Nat.le_trans step (ih (shift n d))

/-- Stopping at the limit loses nothing, because further digits never make a number smaller. -/
theorem valueBelow?_eq (limit n : Nat) (digits : Bytes) :
    valueBelow? limit n digits =
      if digits.foldl shift n < limit then some (digits.foldl shift n) else none := by
  induction digits generalizing n with
  | nil => rfl
  | cons d digits ih =>
    have grows : n ≤ (d :: digits).foldl shift n := le_foldl_shift n (d :: digits)
    rw [valueBelow?]
    split
    · exact ih (shift n d)
    · rw [if_neg (by omega)]

/-- Reads one or more digits and nothing else; the number is below `limit`. -/
def readNatBelow? (limit : Nat) (text : Bytes) : Option Nat :=
  if text.isEmpty || !text.all isDigit then none else valueBelow? limit 0 text

/-- Reads one or more digits, with or without a minus sign in front, and nothing else; the number
without the sign is below `limit`. -/
def readIntBelow? (limit : Nat) (text : Bytes) : Option Int :=
  match text with
  | [] => none
  | b :: rest =>
    if b = 45 then (readNatBelow? limit rest).map fun n => -(n : Int)
    else (readNatBelow? limit text).map Int.ofNat

/-- Reads an integer between `low` and `high`, both included. -/
def readWithin? (low high : Int) (text : Bytes) : Option Int :=
  (readIntBelow? (max low.natAbs high.natAbs + 1) text).filter fun i => low ≤ i && i ≤ high

/-- Reads a signed 64-bit integer. -/
def readInt64? (text : Bytes) : Option Int64 :=
  (readWithin? Int64.minValue.toInt Int64.maxValue.toInt text).map Int64.ofInt

/-- Reads a signed 32-bit integer. -/
def readInt32? (text : Bytes) : Option Int32 :=
  (readWithin? Int32.minValue.toInt Int32.maxValue.toInt text).map Int32.ofInt

/-- Reads an unsigned 64-bit integer, which has no sign. -/
def readUInt64? (text : Bytes) : Option UInt64 :=
  (readNatBelow? UInt64.size text).map UInt64.ofNat

/-- The decimal text of an integer in at least `width` columns: zeros fill the columns between the
sign, which takes one of them, and the digits. -/
def padded (width : Nat) (i : Int) : Bytes :=
  if i < 0 then 45 :: (ofNat i.natAbs).leftpad (width - 1) 48
  else (ofNat i.natAbs).leftpad width 48

end Decimal

end CoherentCache
