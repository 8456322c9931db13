import CoherentCache.Proofs.Instant
import CoherentCache.Proofs.Record
import CoherentCache.Proofs.Timestamp

/-!
# Timestamps of clock readings

A clock reading counts nanoseconds since the epoch, and its timestamp is the second that it falls in
together with the nanoseconds into that second.  Words are divided toward zero, so that a reading
before the epoch leaves a negative remainder; a second is borrowed then, unless the reading lies at
a whole second.  No word overflows on the way, whatever the clock shows.

* `Timestamp.borrowed?` : the timestamp of a clock reading, computed that way in checked words.
* `Timestamp.borrowed?_eq` : it is the second and the nanoseconds by division toward the past.
* `Timestamp.toInt_seconds_ofInstant`, `Timestamp.toInt_nanoseconds_ofInstant` : the two parts.
* `Timestamp.ofInstant_lt_ofInstant` : timestamps are in the order of the readings.
* `Timestamp.ofInstant_embeds` : **clock readings embed into timestamps.**
-/

namespace CoherentCache

namespace Timestamp

/-! ### Checked words -/

/-- A number as a 64-bit word, if it fits. -/
def fit64? (i : Int) : Option Int64 :=
  if Int64.minValue.toInt ≤ i ∧ i ≤ Int64.maxValue.toInt then some (.ofInt i) else none

/-- A number as a 32-bit word, if it fits. -/
def fit32? (i : Int) : Option Int32 :=
  if Int32.minValue.toInt ≤ i ∧ i ≤ Int32.maxValue.toInt then some (.ofInt i) else none

/-- The timestamp of a clock reading, by division toward zero.  A negative remainder borrows a
second.  There is none if a result on the way does not fit into its word. -/
def borrowed? (t : Instant) : Option Timestamp := do
  let seconds ← fit64? (t.toInt.tdiv nanosPerSecond)
  let remainder ← fit64? (t.toInt.tmod nanosPerSecond)
  let nanoseconds ← fit32? remainder.toInt
  if nanoseconds < 0 then
    let nanoseconds ← fit32? (nanoseconds.toInt + nanosPerSecond)
    let seconds ← fit64? (seconds.toInt - 1)
    return ⟨seconds, nanoseconds⟩
  else
    return ⟨seconds, nanoseconds⟩

variable {i : Int} {t u : Instant}

theorem exists_fit64? (hlow : -Instant.lastNanos - 1 ≤ i) (hhigh : i ≤ Instant.lastNanos) :
    ∃ w, fit64? i = some w ∧ w.toInt = i := by
  refine ⟨.ofInt i, if_pos ⟨hlow, hhigh⟩, Int64.toInt_ofInt_of_le hlow ?_⟩
  exact Int.lt_of_le_of_lt hhigh (by decide)

theorem exists_fit32? (hlow : -nanosPerSecond ≤ i) (hhigh : i ≤ nanosPerSecond) :
    ∃ w, fit32? i = some w ∧ w.toInt = i := by
  have hlow' : Int32.minValue.toInt ≤ i := Int.le_trans (by decide) hlow
  have hhigh' : i ≤ Int32.maxValue.toInt := Int.le_trans hhigh (by decide)
  exact ⟨.ofInt i, if_pos ⟨hlow', hhigh'⟩,
    Int32.toInt_ofInt_of_le hlow' (Int.lt_of_le_of_lt hhigh' (by decide))⟩

/-! ### The parts of a timestamp -/

/-- A quotient toward zero, less one where the remainder is negative, is the quotient toward the
past, and the remainder follows. -/
theorem tdiv_borrow (n : Int) :
    n / nanosPerSecond =
        (if n.tmod nanosPerSecond < 0 then n.tdiv nanosPerSecond - 1 else n.tdiv nanosPerSecond) ∧
      n % nanosPerSecond =
        if n.tmod nanosPerSecond < 0 then n.tmod nanosPerSecond + nanosPerSecond
        else n.tmod nanosPerSecond := by
  have hparts := Int.mul_tdiv_add_tmod n nanosPerSecond
  have hlow := Int.lt_tmod_of_pos n (b := nanosPerSecond) (by decide)
  have hhigh := Int.tmod_lt_of_pos n (b := nanosPerSecond) (by decide)
  unfold nanosPerSecond at *
  split <;> omega

theorem toInt_seconds_ofInstant (t : Instant) :
    (ofInstant t).seconds.toInt = t.toInt / nanosPerSecond := by
  have hlow := t.neg_lastNanos_le
  have hhigh := t.toInt_le_lastNanos
  unfold Instant.lastNanos at hlow hhigh
  rw [← Int.fdiv_eq_ediv_of_nonneg _ (by decide)]
  refine Int64.toInt_ofInt_of_le ?_ ?_
  · show -9223372036854775808 ≤ t.toInt.fdiv nanosPerSecond
    rw [Int.fdiv_eq_ediv_of_nonneg _ (by decide), nanosPerSecond]
    omega
  · show t.toInt.fdiv nanosPerSecond < 9223372036854775808
    rw [Int.fdiv_eq_ediv_of_nonneg _ (by decide), nanosPerSecond]
    omega

theorem toInt_nanoseconds_ofInstant (t : Instant) :
    (ofInstant t).nanoseconds.toInt = t.toInt % nanosPerSecond := by
  rw [← Int.fmod_eq_emod_of_nonneg _ (by decide)]
  refine Int32.toInt_ofInt_of_le ?_ ?_
  · show -2147483648 ≤ t.toInt.fmod nanosPerSecond
    rw [Int.fmod_eq_emod_of_nonneg _ (by decide), nanosPerSecond]
    omega
  · show t.toInt.fmod nanosPerSecond < 2147483648
    rw [Int.fmod_eq_emod_of_nonneg _ (by decide), nanosPerSecond]
    omega

theorem eq_ofInstant {seconds : Int64} {nanoseconds : Int32}
    (hseconds : seconds.toInt = t.toInt / nanosPerSecond)
    (hnanoseconds : nanoseconds.toInt = t.toInt % nanosPerSecond) :
    ⟨seconds, nanoseconds⟩ = ofInstant t := by
  rw [← toInt_seconds_ofInstant, Int64.toInt_inj] at hseconds
  rw [← toInt_nanoseconds_ofInstant, Int32.toInt_inj] at hnanoseconds
  rw [hseconds, hnanoseconds]

/-- **Borrowing a second never overflows**, and gives the second that the reading falls in. -/
theorem borrowed?_eq (t : Instant) : borrowed? t = some (ofInstant t) := by
  have hlow := t.neg_lastNanos_le
  have hhigh := t.toInt_le_lastNanos
  obtain ⟨hquotient, hremainder⟩ := tdiv_borrow t.toInt
  have hparts := Int.mul_tdiv_add_tmod t.toInt nanosPerSecond
  have habove := Int.lt_tmod_of_pos t.toInt (b := nanosPerSecond) (by decide)
  have hbelow := Int.tmod_lt_of_pos t.toInt (b := nanosPerSecond) (by decide)
  obtain ⟨seconds, hfits, hseconds⟩ := exists_fit64? (i := t.toInt.tdiv nanosPerSecond)
    (by unfold Instant.lastNanos nanosPerSecond at *; omega)
    (by unfold Instant.lastNanos nanosPerSecond at *; omega)
  obtain ⟨remainder, hfits', hrest⟩ := exists_fit64? (i := t.toInt.tmod nanosPerSecond)
    (by unfold Instant.lastNanos nanosPerSecond at *; omega)
    (by unfold Instant.lastNanos nanosPerSecond at *; omega)
  obtain ⟨nanoseconds, hfits'', hnanoseconds⟩ := exists_fit32? (i := remainder.toInt)
    (by omega) (by omega)
  simp only [borrowed?, hfits, hfits', hfits'', Option.bind_eq_bind, Option.bind_some]
  rw [← hrest, ← hnanoseconds] at hquotient hremainder
  split
  · next hnegative =>
    replace hnegative : nanoseconds.toInt < 0 := Int32.lt_iff_toInt_lt.1 hnegative
    rw [if_pos hnegative] at hquotient hremainder
    -- A borrow is made where the remainder is negative, so that the quotient is far from its ends.
    obtain ⟨lifted, hfits, hlifted⟩ := exists_fit32? (i := nanoseconds.toInt + nanosPerSecond)
      (by omega) (by omega)
    obtain ⟨lowered, hfits', hlowered⟩ := exists_fit64? (i := seconds.toInt - 1)
      (by unfold Instant.lastNanos nanosPerSecond at *; omega)
      (by unfold Instant.lastNanos nanosPerSecond at *; omega)
    simp only [hfits, hfits', Option.bind_some]
    exact congrArg some (eq_ofInstant (by omega) (by omega))
  · next hnot =>
    replace hnot : ¬ nanoseconds.toInt < 0 := fun h => hnot (Int32.lt_iff_toInt_lt.2 h)
    rw [if_neg hnot] at hquotient hremainder
    exact congrArg some (eq_ofInstant (by omega) (by omega))

/-! ### Order -/

/-- Earlier readings have earlier timestamps. -/
theorem ofInstant_lt_ofInstant : ofInstant t < ofInstant u ↔ t < u := by
  have hinj : (ofInstant t).seconds = (ofInstant u).seconds ↔
      (ofInstant t).seconds.toInt = (ofInstant u).seconds.toInt := Int64.toInt_inj.symm
  rw [lt_iff, hinj, Int64.lt_iff_toInt_lt, Int32.lt_iff_toInt_lt, Instant.lt_iff]
  simp only [toInt_seconds_ofInstant, toInt_nanoseconds_ofInstant, nanosPerSecond]
  omega

theorem compare_ofInstant (t u : Instant) :
    (ofInstant t).compare (ofInstant u) = Ord.compare t.toInt u.toInt := by
  simp only [compare, ofInstant_lt_ofInstant, Instant.lt_iff]
  rcases Int.lt_trichotomy t.toInt u.toInt with hlt | heq | hgt
  · rw [if_pos hlt, Int.compare_eq_lt.2 hlt]
  · rw [heq, if_neg (Int.lt_irrefl _), if_neg (Int.lt_irrefl _), Int.compare_eq_eq.2 rfl]
  · rw [if_neg (Int.lt_asymm hgt), if_pos hgt, Int.compare_eq_gt.2 hgt]

theorem normal_ofInstant (t : Instant) : (ofInstant t).Normal := by
  rw [Normal, toInt_nanoseconds_ofInstant]
  exact ⟨Int.emod_nonneg _ (by decide), Int.emod_lt_of_pos _ (by decide)⟩

/-- **Clock readings embed into timestamps.**

* Every reading is the seconds and the nanoseconds of its timestamp together, the nanoseconds lie
  within one second, and no word overflows while a second is borrowed.
* Timestamps compare as the readings do.
* A clock that goes forward gives timestamps that go forward, each of which a record can be stored
  with as the time of its write and of its invalidation. -/
theorem ofInstant_embeds :
    (∀ t : Instant, borrowed? t = some (ofInstant t) ∧
      (ofInstant t).seconds.toInt * nanosPerSecond + (ofInstant t).nanoseconds.toInt = t.toInt ∧
      0 ≤ (ofInstant t).nanoseconds.toInt ∧ (ofInstant t).nanoseconds.toInt < nanosPerSecond) ∧
    (∀ t u : Instant, (ofInstant t).compare (ofInstant u) = Ord.compare t.toInt u.toInt) ∧
    ∀ readings : List Instant, readings.Pairwise (· < ·) →
      (readings.map ofInstant).Pairwise (· < ·) ∧
      ∀ written ∈ readings.map ofInstant, ∀ invalidated ∈ readings.map ofInstant, ∀ value,
        Record.ofFields (Record.toFields ⟨some value, written, invalidated⟩) =
          .ok ⟨some value, written, invalidated⟩ := by
  refine ⟨fun t => ⟨borrowed?_eq t, ?_, normal_ofInstant t⟩, compare_ofInstant,
    fun readings hreadings => ⟨?_, ?_⟩⟩
  · rw [toInt_seconds_ofInstant, toInt_nanoseconds_ofInstant]
    exact Int.ediv_mul_add_emod ..
  · exact List.pairwise_map.2 (hreadings.imp ofInstant_lt_ofInstant.2)
  · intro written hwritten invalidated hinvalidated value
    obtain ⟨t, -, rfl⟩ := List.mem_map.1 hwritten
    obtain ⟨u, -, rfl⟩ := List.mem_map.1 hinvalidated
    exact Record.ofFields_toFields ⟨normal_ofInstant t, normal_ofInstant u⟩

/-- Readings at both ends of the clock's word, and before, at and after whole seconds. -/
def acrossEpoch : List Instant :=
  [⟨Int64.minValue⟩, ⟨-1500000000⟩, ⟨-1000000000⟩, ⟨-1⟩, ⟨0⟩, ⟨5250000000⟩, ⟨Int64.maxValue⟩]

/-- A clock that passes the epoch: the first reading borrows a second, the third does not, and a
record written at the first and invalidated at the last one is read back. -/
theorem ofInstant_embeds_acrossEpoch :
    acrossEpoch.Pairwise (· < ·) ∧
      acrossEpoch.map ofInstant = [⟨-9223372037, 145224192⟩, ⟨-2, 500000000⟩, ⟨-1, 0⟩,
        ⟨-1, 999999999⟩, ⟨0, 0⟩, ⟨5, 250000000⟩, ⟨9223372036, 854775807⟩] ∧
      (acrossEpoch.map ofInstant).Pairwise (· < ·) ∧
      Record.ofFields
          (Record.toFields ⟨some [118], ⟨-9223372037, 145224192⟩, ⟨9223372036, 854775807⟩⟩) =
        .ok ⟨some [118], ⟨-9223372037, 145224192⟩, ⟨9223372036, 854775807⟩⟩ := by
  have hforward : acrossEpoch.Pairwise (· < ·) := by decide
  have hread : acrossEpoch.map ofInstant = [⟨-9223372037, 145224192⟩, ⟨-2, 500000000⟩, ⟨-1, 0⟩,
      ⟨-1, 999999999⟩, ⟨0, 0⟩, ⟨5, 250000000⟩, ⟨9223372036, 854775807⟩] := by decide
  obtain ⟨hstamps, hstored⟩ := ofInstant_embeds.2.2 acrossEpoch hforward
  exact ⟨hforward, hread, hstamps,
    hstored _ (by rw [hread]; decide) _ (by rw [hread]; decide) [118]⟩

end Timestamp

end CoherentCache
