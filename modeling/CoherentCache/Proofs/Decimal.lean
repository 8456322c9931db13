import CoherentCache.Decimal
import Mathlib.Algebra.Group.Nat.Defs

/-!
# Decimal text reads back

The strict reader of decimal text undoes the writer, for every number within the reader's bounds.

* `Decimal.ofInt_eq_ofString` : an integer is written as Lean writes it.
* `Decimal.value_ofNat` : the digits of a number denote it.
* `Decimal.readWithin?_ofInt` : an integer within the bounds is read back.
* `Decimal.readInt64?_ofInt` : so is every signed 64-bit integer.
-/

namespace CoherentCache

namespace Decimal

/-- The byte of a character. -/
def byteOf (c : Char) : UInt8 := c.toNat.toUInt8

theorem ofNat_eq_map (n : Nat) : ofNat n = (Nat.toDigits 10 n).map byteOf := rfl

theorem ofNat_eq_ofString (n : Nat) : ofNat n = Bytes.ofString (toString n) := by
  rw [Bytes.ofString, Nat.toString_eq_repr, Nat.toList_repr]
  rfl

theorem ofInt_eq_ofString (i : Int) : ofInt i = Bytes.ofString (toString i) := by
  cases i with
  | ofNat n => exact ofNat_eq_ofString n
  | negSucc n =>
    have htext : toString (Int.negSucc n) = "-" ++ toString (n + 1) := rfl
    rw [htext, ofInt, if_pos (Int.negSucc_lt_zero n), Int.natAbs_negSucc, ofNat_eq_ofString]
    rw [Bytes.ofString, Bytes.ofString, String.toList_append]
    rfl

theorem isDigit_iff {c : Char} : c.isDigit = true ↔ 48 ≤ c.toNat ∧ c.toNat ≤ 57 := by
  simp only [Char.isDigit, Bool.and_eq_true, decide_eq_true_eq, ge_iff_le]
  exact Iff.rfl

theorem toNat_byteOf {c : Char} (h : c.isDigit = true) : (byteOf c).toNat = c.toNat := by
  have := isDigit_iff.1 h
  exact Nat.mod_eq_of_lt (by omega)

theorem isDigit_byteOf {c : Char} (h : c.isDigit = true) : isDigit (byteOf c) = true := by
  have hc := isDigit_iff.1 h
  simp only [isDigit, Bool.and_eq_true, decide_eq_true_eq, UInt8.le_iff_toNat_le, toNat_byteOf h]
  exact hc

theorem foldl_shift_map (cs : List Char) (h : ∀ c ∈ cs, c.isDigit = true) (n : Nat) :
    (cs.map byteOf).foldl shift n = Nat.ofDigitChars 10 cs n := by
  induction cs generalizing n with
  | nil => rfl
  | cons c cs ih =>
    have hc : shift n (byteOf c) = 10 * n + (c.toNat - '0'.toNat) := by
      rw [shift, toNat_byteOf (h c List.mem_cons_self)]; rfl
    rw [List.map_cons, List.foldl_cons, hc, Nat.ofDigitChars_cons]
    exact ih (fun c' hc' => h c' (List.mem_cons_of_mem _ hc')) _

theorem isDigit_of_mem {n : Nat} {c : Char} (h : c ∈ Nat.toDigits 10 n) : c.isDigit = true :=
  Nat.isDigit_of_mem_toDigits (by decide) (by decide) h

@[simp] theorem value_ofNat (n : Nat) : value (ofNat n) = n := by
  rw [value, ofNat_eq_map, foldl_shift_map _ fun _ => isDigit_of_mem]
  exact Nat.ofDigitChars_ten_toDigits

theorem ofNat_ne_nil (n : Nat) : ofNat n ≠ [] := by
  simp [ofNat_eq_map]

theorem length_ofNat_le {n k : Nat} (hk : 0 < k) (h : n < 10 ^ k) : (ofNat n).length ≤ k := by
  rw [ofNat_eq_map, List.length_map]
  exact (Nat.length_toDigits_le_iff (by decide) hk).2 h

theorem all_isDigit_ofNat (n : Nat) : (ofNat n).all isDigit = true := by
  simp only [ofNat_eq_map, List.all_map, List.all_eq_true]
  exact fun c hc => isDigit_byteOf (isDigit_of_mem hc)

theorem not_mem_ofNat {b : UInt8} (hb : isDigit b = false) (n : Nat) : b ∉ ofNat n := by
  intro hmem
  have hdigit := List.all_eq_true.1 (all_isDigit_ofNat n) b hmem
  rw [hb] at hdigit
  cases hdigit

/-- A minus sign is not a digit. -/
theorem head_ofNat_ne {n : Nat} {b : UInt8} {rest : Bytes} (h : ofNat n = b :: rest) : b ≠ 45 := by
  rintro rfl
  have := all_isDigit_ofNat n
  rw [h] at this
  simp [isDigit] at this

theorem readNatBelow?_ofNat {limit n : Nat} (h : n < limit) :
    readNatBelow? limit (ofNat n) = some n := by
  have hv : (ofNat n).foldl shift 0 = n := value_ofNat n
  simp [readNatBelow?, ofNat_ne_nil, all_isDigit_ofNat, valueBelow?_eq, hv, h]

theorem readIntBelow?_ofInt {limit : Nat} {i : Int} (h : i.natAbs < limit) :
    readIntBelow? limit (ofInt i) = some i := by
  by_cases hi : i < 0
  · have habs : -(i.natAbs : Int) = i := by omega
    simp only [ofInt, hi, if_true, readIntBelow?, readNatBelow?_ofNat h]
    exact congrArg some habs
  · -- The text starts with a digit, so the reader does not take it for a negative number.
    have habs : (i.natAbs : Int) = i := by omega
    rw [ofInt, if_neg hi]
    unfold readIntBelow?
    split
    · next hnil => exact absurd hnil (ofNat_ne_nil _)
    · next b rest hcons =>
      rw [if_neg (head_ofNat_ne hcons), readNatBelow?_ofNat h]
      simp [habs]

/-- **Reading undoes writing** between the reader's bounds. -/
theorem readWithin?_ofInt {low high i : Int} (hl : low ≤ i) (hh : i ≤ high) :
    readWithin? low high (ofInt i) = some i := by
  have hlimit : i.natAbs < max low.natAbs high.natAbs + 1 := by omega
  simp [readWithin?, readIntBelow?_ofInt hlimit, hl, hh]

theorem readInt64?_ofInt {i : Int} (hl : Int64.minValue.toInt ≤ i) (hh : i ≤ Int64.maxValue.toInt) :
    readInt64? (ofInt i) = some (Int64.ofInt i) := by
  rw [readInt64?, readWithin?_ofInt hl hh]; rfl

@[simp] theorem readInt64?_toInt (i : Int64) : readInt64? (ofInt i.toInt) = some i := by
  rw [readInt64?_ofInt i.minValue_le_toInt i.toInt_le, Int64.ofInt_toInt]

end Decimal

end CoherentCache
