import CoherentCache.Proofs.Decimal
import Mathlib.Data.List.Basic

/-!
# Which texts are numbers

The strict reader of decimal text takes digits with or without a minus sign in front, and refuses
everything else.  What it gives is the number that the digits denote, whatever their count.

* `Decimal.IsNumeral` : one or more digits and nothing else.
* `Decimal.readNatBelow?_eq_some_iff`, `Decimal.readIntBelow?_eq_some_iff` : the texts that are read
  as numbers below a limit.
* `Decimal.readWithin?_eq_some_iff` : **the texts that are read as integers within bounds.**
* `Decimal.IsCanonical` : the one text of a number that is written, among all that are read.
-/

namespace CoherentCache

namespace Decimal

/-- One or more digits and nothing else. -/
def IsNumeral (text : Bytes) : Prop := text ≠ [] ∧ text.all isDigit = true

instance (text : Bytes) : Decidable (IsNumeral text) :=
  inferInstanceAs (Decidable (text ≠ [] ∧ text.all isDigit = true))

variable {limit n : Nat} {low high i : Int} {text digits : Bytes} {b : UInt8}

theorem IsNumeral.not_minus (h : IsNumeral (45 :: digits)) : False := by
  have hall := h.2
  simp [isDigit] at hall

theorem IsNumeral.not_mem (h : IsNumeral text) (hb : isDigit b = false) : b ∉ text := by
  intro hmem
  have hdigit := List.all_eq_true.1 h.2 b hmem
  rw [hb] at hdigit
  cases hdigit

theorem IsNumeral.of_concat (h : IsNumeral (text ++ [b])) (hne : text ≠ []) : IsNumeral text := by
  refine ⟨hne, ?_⟩
  have hall := h.2
  rw [List.all_append, Bool.and_eq_true] at hall
  exact hall.1

/-- One more digit makes no number smaller. -/
theorem value_le_concat (text : Bytes) (b : UInt8) : value text ≤ value (text ++ [b]) := by
  unfold value
  rw [List.foldl_append]
  exact le_foldl_shift _ [b]

theorem readNatBelow?_eq_some_iff :
    readNatBelow? limit text = some n ↔ IsNumeral text ∧ value text = n ∧ n < limit := by
  have hvalue : text.foldl shift 0 = value text := rfl
  unfold readNatBelow?
  split
  · next hbad =>
    constructor
    · rintro ⟨⟩
    · rintro ⟨⟨hne, hall⟩, -⟩
      simp [hne, hall] at hbad
  · next hgood =>
    have hnumeral : IsNumeral text := by simpa [IsNumeral] using hgood
    rw [valueBelow?_eq, hvalue]
    split
    · next hlimit =>
      constructor
      · rintro ⟨⟩
        exact ⟨hnumeral, rfl, hlimit⟩
      · rintro ⟨-, rfl, -⟩
        rfl
    · next hlimit =>
      constructor
      · rintro ⟨⟩
      · rintro ⟨-, rfl, hlt⟩
        exact absurd hlt hlimit

/-- **A numeral is read as an unsigned 64-bit integer** if it denotes one, however long it is. -/
theorem toNat_readUInt64? (h : IsNumeral text) :
    (readUInt64? text).map UInt64.toNat =
      if value text < UInt64.size then some (value text) else none := by
  unfold readUInt64?
  cases hread : readNatBelow? UInt64.size text with
  | some n =>
    obtain ⟨-, rfl, hlimit⟩ := readNatBelow?_eq_some_iff.1 hread
    rw [if_pos hlimit]
    exact congrArg some (UInt64.toNat_ofNat_of_lt' hlimit)
  | none =>
    have hlimit : ¬value text < UInt64.size := fun hlimit => by
      rw [readNatBelow?_eq_some_iff.2 ⟨h, rfl, hlimit⟩] at hread
      cases hread
    rw [if_neg hlimit]
    rfl

/-- The text denotes the integer: digits, or a minus sign and digits. -/
def Denotes (text : Bytes) (i : Int) : Prop :=
  ∃ digits, IsNumeral digits ∧
    ((text = digits ∧ i = value digits) ∨ (text = 45 :: digits ∧ i = -(value digits : Int)))

theorem Denotes.not_mem (h : Denotes text i) (hb : isDigit b = false) (hminus : b ≠ 45) :
    b ∉ text := by
  obtain ⟨digits, hnumeral, hsize⟩ := h
  have hmem := hnumeral.not_mem hb
  rcases hsize with ⟨rfl, -⟩ | ⟨rfl, -⟩
  · exact hmem
  · exact fun hb => (List.mem_cons.1 hb).elim hminus hmem

theorem readIntBelow?_eq_some_iff :
    readIntBelow? limit text = some i ↔ Denotes text i ∧ i.natAbs < limit := by
  constructor
  · intro h
    unfold readIntBelow? at h
    split at h
    · cases h
    · next b rest =>
      split at h
      · next hb =>
        cases hread : readNatBelow? limit rest with
        | none =>
          rw [hread] at h
          cases h
        | some n =>
          rw [hread] at h
          cases h
          obtain ⟨hnumeral, hvalue, hlimit⟩ := readNatBelow?_eq_some_iff.1 hread
          exact ⟨⟨rest, hnumeral, .inr ⟨by rw [hb], by rw [hvalue]⟩⟩, by simpa using hlimit⟩
      · obtain ⟨n, hread, rfl⟩ := Option.map_eq_some_iff.1 h
        obtain ⟨hnumeral, hvalue, hlimit⟩ := readNatBelow?_eq_some_iff.1 hread
        exact ⟨⟨b :: rest, hnumeral, .inl ⟨rfl, by rw [hvalue]; rfl⟩⟩, hlimit⟩
  · rintro ⟨⟨digits, hnumeral, ⟨rfl, rfl⟩ | ⟨rfl, rfl⟩⟩, hlimit⟩
    · have hread : readNatBelow? limit text = some (value text) :=
        readNatBelow?_eq_some_iff.2 ⟨hnumeral, rfl, hlimit⟩
      unfold readIntBelow?
      split
      · exact absurd rfl hnumeral.1
      · next b rest =>
        -- A numeral has no minus sign in front.
        have hb : b ≠ 45 := by
          rintro rfl
          exact hnumeral.not_minus
        rw [if_neg hb, hread]
        rfl
    · have hread : readNatBelow? limit digits = some (value digits) :=
        readNatBelow?_eq_some_iff.2 ⟨hnumeral, rfl, by simpa using hlimit⟩
      simp [readIntBelow?, hread]

/-- **The texts that are read as integers within bounds** are those that denote such an integer. -/
theorem readWithin?_eq_some_iff :
    readWithin? low high text = some i ↔ Denotes text i ∧ low ≤ i ∧ i ≤ high := by
  unfold readWithin?
  rw [Option.filter_eq_some_iff, readIntBelow?_eq_some_iff]
  constructor
  · rintro ⟨⟨hdenotes, -⟩, hbounds⟩
    exact ⟨hdenotes, by simpa using hbounds⟩
  · rintro ⟨hdenotes, hbounds⟩
    exact ⟨⟨hdenotes, by omega⟩, by simpa using hbounds⟩

/-- A text denotes one integer at most. -/
theorem Denotes.unique {j : Int} (h : Denotes text i) (h' : Denotes text j) : i = j := by
  have hread : readWithin? (min i j) (max i j) text = some i :=
    readWithin?_eq_some_iff.2 ⟨h, by omega, by omega⟩
  have hread' : readWithin? (min i j) (max i j) text = some j :=
    readWithin?_eq_some_iff.2 ⟨h', by omega, by omega⟩
  exact Option.some.inj (hread.symm.trans hread')

/-- **The texts that are read as signed 64-bit integers.** -/
theorem readInt64?_eq_some_iff {w : Int64} : readInt64? text = some w ↔ Denotes text w.toInt := by
  unfold readInt64?
  rw [Option.map_eq_some_iff]
  constructor
  · rintro ⟨j, hread, rfl⟩
    obtain ⟨hdenotes, hlow, hhigh⟩ := readWithin?_eq_some_iff.1 hread
    rwa [Int64.toInt_ofInt_of_le hlow (Int.lt_of_le_of_lt hhigh (by decide))]
  · intro hdenotes
    exact ⟨w.toInt, readWithin?_eq_some_iff.2 ⟨hdenotes, w.minValue_le_toInt, w.toInt_le⟩,
      Int64.ofInt_toInt w⟩

/-! ### The text that is written -/

/-- The text is a number as it is written: zero, or digits that do not start with a zero, with or
without a minus sign in front. -/
def IsCanonical (text : Bytes) : Prop :=
  text = [48] ∨ ∃ digits, IsNumeral digits ∧ digits.head? ≠ some 48 ∧
    (text = digits ∨ text = 45 :: digits)

theorem head?_ofNat_ne {n : Nat} (h : 0 < n) : (ofNat n).head? ≠ some 48 := by
  induction n using Nat.strongRecOn with
  | ind n ih =>
    rw [ofNat_eq_map, Nat.toDigits_eq_if (by decide)]
    split
    · next hsmall =>
      have hdigit : ∀ d < 10, 0 < d → (List.map byteOf [Nat.digitChar d]).head? ≠ some 48 := by
        decide
      exact hdigit n hsmall h
    · -- The first digit is that of the number without its last one.
      rw [List.map_append, ← ofNat_eq_map, List.head?_append_of_ne_nil _ (ofNat_ne_nil _)]
      exact ih (n / 10) (by omega) (by omega)

theorem isNumeral_ofNat (n : Nat) : IsNumeral (ofNat n) := ⟨ofNat_ne_nil n, all_isDigit_ofNat n⟩

/-- **Every integer is written in canonical form.** -/
theorem isCanonical_ofInt (i : Int) : IsCanonical (ofInt i) := by
  by_cases hi : i = 0
  · exact .inl (by rw [hi]; rfl)
  · have hpos : 0 < i.natAbs := Int.natAbs_pos.2 hi
    refine .inr ⟨ofNat i.natAbs, isNumeral_ofNat _, head?_ofNat_ne hpos, ?_⟩
    unfold ofInt
    split
    · exact .inr rfl
    · exact .inl rfl

end Decimal

end CoherentCache
