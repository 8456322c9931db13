import CoherentCache.Instant

/-!
# Instants as integers

Arithmetic on clock readings wraps around.  Where a deadline lies within the clock's word nothing
wraps, and instants can be reasoned about as plain integers.

* `Instant.toInt` : the nanoseconds of a reading, as an integer.
* `Instant.Reaches` : a stretch of time, and the instant at its end, lie within the clock's word.
* `Instant.toInt_addMillis` : then the end of the stretch is where arithmetic without limits has it.
* `Instant.millisUntil_eq` : the milliseconds until a later instant, rounded down.
-/

namespace CoherentCache

namespace Instant

/-- Nanoseconds since the epoch, as an integer. -/
def toInt (t : Instant) : Int := t.nanos.toInt

/-- Nanoseconds in one millisecond. -/
def nanosPerMilli : Int := 1000000

/-- The largest count of nanoseconds that the clock's word holds. -/
def lastNanos : Int := 9223372036854775807

/-- A stretch of milliseconds in nanoseconds. -/
def stretch (ms : UInt64) : Int := ms.toNat * nanosPerMilli

/-- A stretch of time is no longer than the clock can count, and the clock has not run out by its
end. -/
def Reaches (t : Instant) (ms : UInt64) : Prop :=
  stretch ms ≤ lastNanos ∧ t.toInt + stretch ms ≤ lastNanos

instance (t : Instant) (ms : UInt64) : Decidable (t.Reaches ms) := by
  unfold Reaches; infer_instance

theorem le_iff {a b : Instant} : a ≤ b ↔ a.toInt ≤ b.toInt := Int64.le_iff_toInt_le

theorem lt_iff {a b : Instant} : a < b ↔ a.toInt < b.toInt := Int64.lt_iff_toInt_lt

theorem neg_lastNanos_le (t : Instant) : -lastNanos - 1 ≤ t.toInt := Int64.le_toInt _

theorem toInt_le_lastNanos (t : Instant) : t.toInt ≤ lastNanos := t.nanos.toInt_le

theorem le_refl (t : Instant) : t ≤ t := le_iff.2 (Int.le_refl _)

/-- The earliest reading of the clock. -/
def first : Instant := ⟨Int64.minValue⟩

theorem first_le (t : Instant) : first ≤ t := Int64.minValue_le _

theorem stretch_nonneg (ms : UInt64) : 0 ≤ stretch ms :=
  Int.mul_nonneg (Int.natCast_nonneg _) (by decide)

/-- An integer within the clock's word is not changed by wrapping around. -/
theorem bmod_eq_self {i : Int} (hlow : -lastNanos - 1 ≤ i) (hhigh : i ≤ lastNanos) :
    i.bmod Int64.size = i := by
  unfold lastNanos at *
  exact Int.bmod_eq_of_le hlow (by change i < 9223372036854775808; omega)

theorem toInt_addMillis_bmod (t : Instant) (ms : UInt64) :
    (t.addMillis ms).toInt = (t.toInt + stretch ms).bmod Int64.size := by
  have hms : ms.toInt64.toInt = (ms.toNat : Int).bmod Int64.size := BitVec.toInt_eq_toNat_bmod _
  calc (t.nanos + ms.toInt64 * 1000000).toInt
      = (t.toInt + (ms.toInt64.toInt * 1000000).bmod Int64.size).bmod Int64.size := by
        rw [Int64.toInt_add, Int64.toInt_mul]; rfl
    _ = (t.toInt + stretch ms).bmod Int64.size := by
        rw [hms, Int.bmod_mul_bmod, Int.add_bmod_bmod]; rfl

/-- **Deadlines are exact** as long as the clock does not run out. -/
theorem toInt_addMillis {t : Instant} {ms : UInt64} (h : t.Reaches ms) :
    (t.addMillis ms).toInt = t.toInt + stretch ms := by
  have hlow := t.neg_lastNanos_le
  have hnonneg := stretch_nonneg ms
  rw [toInt_addMillis_bmod]
  exact bmod_eq_self (by omega) h.2

theorem toInt_sub {t later : Instant} (h : t.toInt ≤ later.toInt)
    (hb : later.toInt - t.toInt ≤ lastNanos) :
    (later.nanos - t.nanos).toInt = later.toInt - t.toInt := by
  have hlow : -lastNanos - 1 ≤ later.toInt - t.toInt := by unfold lastNanos; omega
  rw [Int64.toInt_sub]
  exact bmod_eq_self hlow hb

/-- The milliseconds until a later instant, rounded down, as long as the clock can count the time in
between. -/
theorem millisUntil_eq {t later : Instant} (h : t.toInt ≤ later.toInt)
    (hb : later.toInt - t.toInt ≤ lastNanos) :
    t.millisUntil later = UInt64.ofNat ((later.toInt - t.toInt) / nanosPerMilli).toNat := by
  have hnonneg : 0 ≤ later.toInt - t.toInt := by omega
  have hq : ((later.nanos - t.nanos) / 1000000).toInt =
      (later.toInt - t.toInt) / nanosPerMilli := by
    rw [Int64.toInt_div_of_ne_right _ _ (by decide), toInt_sub h hb]
    exact Int.tdiv_eq_ediv_of_nonneg hnonneg
  -- The quotient is not negative, so that its word means the same without a sign.
  have hq0 : (0 : Int64) ≤ (later.nanos - t.nanos) / 1000000 := by
    rw [Int64.le_iff_toInt_le, hq]
    exact Int.ediv_nonneg hnonneg (by decide)
  have hval : ((later.nanos - t.nanos) / 1000000).toUInt64.toNat =
      ((later.toInt - t.toInt) / nanosPerMilli).toNat := by
    rw [Int64.toNat_toUInt64_of_le hq0, ← hq]; rfl
  have hsmall : (later.toInt - t.toInt) / nanosPerMilli ≤ lastNanos :=
    Int.le_trans (Int.ediv_le_self _ hnonneg) hb
  unfold lastNanos at hsmall
  apply UInt64.toNat.inj
  rw [millisUntil, hval, UInt64.toNat_ofNat']
  exact (Nat.mod_eq_of_lt (by change _ < 18446744073709551616; omega)).symm

end Instant

end CoherentCache
