import CoherentCache.Decimal

/-!
# Averages in six significant digits

An average is a quotient of two counts.  It is brought to 53 binary digits and from there to six
decimal ones, each time to the nearest value and on a tie to the even one.  Zeros at the end are
left out, and so is the point when nothing follows it.  Very large and very small averages are
written with an exponent of at least two digits.

* `Decimal.significand` : the leading digits of a quotient, in any base.
* `Decimal.average` : the text of an average.
-/

namespace CoherentCache

namespace Decimal

/-- The integer nearest to `n / d`, the even one on a tie. -/
def nearest (n d : Nat) : Nat :=
  let q := n / d
  let r := n % d
  if 2 * r < d then q else if d < 2 * r then q + 1 else q + q % 2

/-- A fraction with the value of `n / d` times `base ^ k`. -/
def scale (base : Nat) (k : Int) (n d : Nat) : Nat × Nat :=
  if 0 ≤ k then (n * Nat.pow base k.toNat, d) else (n, d * Nat.pow base (-k).toNat)

/-- The exponent of the first digit of `n / d`, that is the largest `k` for which `base ^ k` is not
above it. -/
def exponent (base n d : Nat) : Int :=
  let k : Int := (Nat.toDigits base n).length - (Nat.toDigits base d).length
  let (low, high) := scale base k d n
  if low ≤ high then k else k - 1

/-- The first `digits` digits of `n / d`, rounded, as one number, and the exponent of the first of
them. -/
def significand (base digits n d : Nat) : Nat × Int :=
  let e := exponent base n d
  let (n, d) := scale base (digits - 1 - e) n d
  let m := nearest n d
  if m = Nat.pow base digits then (Nat.pow base (digits - 1), e + 1) else (m, e)

/-- The digits without the zeros at their end. -/
def trimZeros (digits : Bytes) : Bytes := (digits.reverse.dropWhile (· == 48)).reverse

/-- Digits before and after the point; the point is left out when nothing follows it. -/
def withPoint (whole fraction : Bytes) : Bytes :=
  let fraction := trimZeros fraction
  if fraction.isEmpty then whole else whole ++ 46 :: fraction

/-- The text of a number with the given six digits, the first of which has the exponent `e`. -/
def positional (digits : Bytes) (e : Int) : Bytes :=
  if e < 0 then withPoint [48] (List.replicate ((-e).toNat - 1) 48 ++ digits)
  else withPoint (digits.take (e.toNat + 1)) (digits.drop (e.toNat + 1))

/-- The same with the exponent written out. -/
def scientific (digits : Bytes) (e : Int) : Bytes :=
  withPoint (digits.take 1) (digits.drop 1) ++
    101 :: (if e < 0 then 45 else 43) :: (ofNat e.natAbs).leftpad 2 48

/-- The text of the average `total / count`; with nothing counted it is zero. -/
def average (total count : Nat) : Bytes :=
  if total = 0 ∨ count = 0 then [48]
  else
    let (m, e) := significand 2 53 total count
    let (n, d) := scale 2 (e - 52) m 1
    let (m, e) := significand 10 6 n d
    if e < -4 ∨ 6 ≤ e then scientific (ofNat m) e else positional (ofNat m) e

end Decimal

end CoherentCache
