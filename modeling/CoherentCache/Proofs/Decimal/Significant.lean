import CoherentCache.Decimal.Significant
import CoherentCache.Proofs.Decimal

/-!
# The text of an average

The text of an average has six digits, or as few as are left of them, and an exponent at most.  The
bound here is a generous one: it takes the rounded digits for as many as the numbers would have that
they are computed from.

* `Decimal.significand_bounds` : the leading digits of a quotient and their exponent.
* `Decimal.length_average_le` : **the text of an average of two words is short.**
* `Decimal.not_mem_average` : no byte stands in it but those of numbers.
-/

namespace CoherentCache

namespace Decimal

theorem nearest_le (n d : Nat) : nearest n d ≤ n + 1 := by
  have hq : n / d ≤ n := Nat.div_le_self n d
  have hodd : n / d % 2 ≤ 1 := Nat.le_of_lt_succ (Nat.mod_lt _ (by decide))
  have heven : n / d = 0 → n / d % 2 = 0 := fun h => by rw [h]
  unfold nearest
  dsimp only
  split
  · omega
  · split
    · omega
    · omega

variable {base n d k : Nat}

theorem natAbs_exponent_le (hbase : 1 < base) (hk : 0 < k) (hn : n < base ^ k)
    (hd : d < base ^ k) : (exponent base n d).natAbs ≤ k + 1 := by
  have hnDigits := (Nat.length_toDigits_le_iff hbase hk).2 hn
  have hdDigits := (Nat.length_toDigits_le_iff hbase hk).2 hd
  unfold exponent
  dsimp only
  split <;> omega

theorem scale_le (n d : Nat) {j : Int} {m : Nat} (hbase : 0 < base) (hj : j.natAbs ≤ m) :
    (scale base j n d).1 ≤ n * base ^ m ∧ (scale base j n d).2 ≤ d * base ^ m := by
  have hpow (i : Nat) (hi : i ≤ m) : base ^ i ≤ base ^ m := Nat.pow_le_pow_right hbase hi
  have hone : 0 < base ^ m := Nat.pow_pos hbase
  unfold scale
  split
  · exact ⟨Nat.mul_le_mul_left n (hpow _ (by omega)), Nat.le_mul_of_pos_right d hone⟩
  · exact ⟨Nat.le_mul_of_pos_right n hone, Nat.mul_le_mul_left d (hpow _ (by omega))⟩

/-- The digits are no larger than the fraction that they are the leading digits of, once it is
scaled. -/
theorem significand_bounds (digits : Nat) (hbase : 1 < base) (hk : 0 < k) (hn : n < base ^ k)
    (hd : d < base ^ k) :
    (significand base digits n d).1 ≤ n * base ^ (digits + k + 2) + base ^ digits ∧
      (significand base digits n d).2.natAbs ≤ k + 2 := by
  have hexponent := natAbs_exponent_le hbase hk hn hd
  have hscale : (scale base (digits - 1 - exponent base n d) n d).1 ≤
      n * base ^ (digits + k + 2) := (scale_le n d (by omega) (by omega)).1
  have hlast : base ^ (digits - 1) ≤ base ^ digits :=
    Nat.pow_le_pow_right (by omega) (Nat.sub_le ..)
  have hone : 0 < base ^ digits := Nat.pow_pos (by omega)
  unfold significand
  dsimp only
  have hnearest := nearest_le (scale base (digits - 1 - exponent base n d) n d).1
    (scale base (digits - 1 - exponent base n d) n d).2
  split
  · exact ⟨Nat.le_trans hlast (Nat.le_add_left ..), by omega⟩
  · exact ⟨by omega, by omega⟩

/-! ### Texts -/

theorem length_trimZeros_le (digits : Bytes) : (trimZeros digits).length ≤ digits.length := by
  have hdrop := (List.dropWhile_sublist (· == 48) (l := digits.reverse)).length_le
  rw [List.length_reverse] at hdrop
  rwa [trimZeros, List.length_reverse]

theorem length_withPoint_le (whole fraction : Bytes) :
    (withPoint whole fraction).length ≤ whole.length + fraction.length + 1 := by
  have htrim := length_trimZeros_le fraction
  unfold withPoint
  dsimp only
  split
  · omega
  · rw [List.length_append, List.length_cons]
    omega

theorem length_positional_le (digits : Bytes) {e : Int} (he : -4 ≤ e) :
    (positional digits e).length ≤ digits.length + 6 := by
  unfold positional
  split
  · have hpoint := length_withPoint_le [48] (List.replicate ((-e).toNat - 1) 48 ++ digits)
    rw [List.length_append, List.length_replicate, List.length_singleton] at hpoint
    omega
  · have hpoint := length_withPoint_le (digits.take (e.toNat + 1)) (digits.drop (e.toNat + 1))
    rw [← List.length_append, List.take_append_drop] at hpoint
    omega

theorem length_scientific_le (digits : Bytes) (e : Int) :
    (scientific digits e).length ≤ digits.length + (ofNat e.natAbs).length + 5 := by
  have hpoint := length_withPoint_le (digits.take 1) (digits.drop 1)
  rw [← List.length_append, List.take_append_drop] at hpoint
  unfold scientific
  rw [List.length_append, List.length_cons, List.length_cons, List.length_leftpad]
  omega

/-- **The text of an average of two words is short.** -/
theorem length_average_le {total count : Nat} (htotal : total < 2 ^ 64) (hcount : count < 2 ^ 64) :
    (average total count).length ≤ 200 := by
  unfold average
  split
  · decide
  · dsimp only
    obtain ⟨hm, he⟩ := significand_bounds 53 (by decide) (by decide) htotal hcount
    generalize significand 2 53 total count = binary at *
    have hmSize : binary.1 < 2 ^ 184 := by omega
    have hshift : (binary.2 - 52).natAbs ≤ 118 := by omega
    obtain ⟨hn, hd⟩ := scale_le binary.1 1 (by decide : 0 < 2) hshift
    generalize scale 2 (binary.2 - 52) binary.1 1 = scaled at *
    have hnSize : scaled.1 < 10 ^ 91 := by omega
    have hdSize : scaled.2 < 10 ^ 91 := by omega
    obtain ⟨hdigits, hexponent⟩ := significand_bounds 6 (by decide) (by decide) hnSize hdSize
    generalize significand 10 6 scaled.1 scaled.2 = decimal at *
    have hdigitsSize : decimal.1 < 10 ^ 191 := by omega
    have hdigitsLength := length_ofNat_le (by decide) hdigitsSize
    have hexponentLength : (ofNat decimal.2.natAbs).length ≤ 2 :=
      length_ofNat_le (by decide) (by omega)
    split
    · have hlength := length_scientific_le (ofNat decimal.1) decimal.2
      omega
    · have hlength := length_positional_le (ofNat decimal.1) (e := decimal.2) (by omega)
      omega

/-! ### The bytes of an average -/

/-- The byte stands in no number, neither as a digit nor as a point, a sign or the mark of an
exponent. -/
def Foreign (b : UInt8) : Prop := isDigit b = false ∧ b ∉ [43, 45, 46, 101]

variable {b : UInt8} {digits whole fraction : Bytes}

theorem Foreign.ne_zero (hb : Foreign b) : b ≠ 48 := by
  rintro rfl
  cases hb.1

theorem not_mem_trimZeros (h : b ∉ digits) : b ∉ trimZeros digits := by
  intro hmem
  rw [trimZeros, List.mem_reverse] at hmem
  exact h (List.mem_reverse.1 ((List.dropWhile_sublist _).mem hmem))

theorem not_mem_withPoint (hb : Foreign b) (hwhole : b ∉ whole) (hfraction : b ∉ fraction) :
    b ∉ withPoint whole fraction := by
  have hpoint : b ≠ 46 := by
    rintro rfl
    exact hb.2 (by decide)
  have htrim := not_mem_trimZeros hfraction
  unfold withPoint
  dsimp only
  split
  · exact hwhole
  · simp [hwhole, hpoint, htrim]

theorem not_mem_positional (hb : Foreign b) (hdigits : b ∉ digits) (e : Int) :
    b ∉ positional digits e := by
  have hzero := hb.ne_zero
  unfold positional
  split
  · refine not_mem_withPoint hb (by simpa using hzero) ?_
    simp [hzero, hdigits]
  · exact not_mem_withPoint hb (fun h => hdigits (List.mem_of_mem_take h))
      fun h => hdigits (List.mem_of_mem_drop h)

theorem not_mem_scientific (hb : Foreign b) (hdigits : b ∉ digits) (e : Int) :
    b ∉ scientific digits e := by
  have hpoint : b ∉ withPoint (digits.take 1) (digits.drop 1) :=
    not_mem_withPoint hb (fun h => hdigits (List.mem_of_mem_take h))
      fun h => hdigits (List.mem_of_mem_drop h)
  have hexponent : b ∉ (ofNat e.natAbs).leftpad 2 48 := by
    simp [List.leftpad, hb.ne_zero, not_mem_ofNat hb.1]
  obtain ⟨hplus, hminus, -, hmark⟩ : b ≠ 43 ∧ b ≠ 45 ∧ b ≠ 46 ∧ b ≠ 101 := by simpa using hb.2
  unfold scientific
  simp only [List.mem_append, List.mem_cons, not_or]
  refine ⟨hpoint, hmark, ?_, hexponent⟩
  split
  · exact hminus
  · exact hplus

/-- **The text of an average is a number** and nothing else. -/
theorem not_mem_average (hb : Foreign b) (total count : Nat) : b ∉ average total count := by
  unfold average
  split
  · simpa using hb.ne_zero
  · dsimp only
    split
    · exact not_mem_scientific hb (not_mem_ofNat hb.1 _) _
    · exact not_mem_positional hb (not_mem_ofNat hb.1 _) _

end Decimal

end CoherentCache
