import CoherentCache.Timestamp
import Mathlib.Order.Defs.LinearOrder

/-!
# The order of timestamps

The lexicographic order of timestamps is a linear order, so that the newest of several timestamps
exists and is unique.

* `Timestamp.instLinearOrder` : the order of `Timestamp.Before`, which `Timestamp.compare` decides.
* `Timestamp.normal_zero` : the timestamp that stands for "never" is normal.
-/

namespace CoherentCache

namespace Timestamp

theorem lt_iff {a b : Timestamp} :
    a < b ↔ a.seconds < b.seconds ∨ (a.seconds = b.seconds ∧ a.nanoseconds < b.nanoseconds) :=
  Iff.rfl

theorem le_iff_not_lt {a b : Timestamp} : a ≤ b ↔ ¬ b < a := Iff.rfl

theorem before_irrefl (a : Timestamp) : ¬ a < a := by
  rw [lt_iff]; grind

theorem before_trans {a b c : Timestamp} (hab : a < b) (hbc : b < c) : a < c := by
  rw [lt_iff] at *; grind

theorem before_trichotomy (a b : Timestamp) : a < b ∨ a = b ∨ b < a := by
  obtain ⟨s, n⟩ := a
  obtain ⟨s', n'⟩ := b
  simp only [lt_iff, mk.injEq]
  grind

theorem not_lt_trans {a b c : Timestamp} (hba : ¬ b < a) (hcb : ¬ c < b) : ¬ c < a := by
  intro hca
  rcases before_trichotomy b c with h | rfl | h
  · exact hba (before_trans h hca)
  · exact hba hca
  · exact hcb h

instance instLinearOrder : LinearOrder Timestamp where
  le_refl := before_irrefl
  le_trans _ _ _ hab hbc := not_lt_trans hab hbc
  le_antisymm a b hab hba := by
    rcases before_trichotomy a b with h | h | h
    · exact absurd h hba
    · exact h
    · exact absurd h hab
  le_total a b := by
    by_cases h : b < a
    · exact Or.inr fun h' => before_irrefl a (before_trans h' h)
    · exact Or.inl h
  lt_iff_le_not_ge a b :=
    ⟨fun h => ⟨fun h' => before_irrefl a (before_trans h h'), fun h' => h' h⟩,
      fun h => Decidable.not_not.1 h.2⟩
  toDecidableLE := inferInstance
  toDecidableEq := inferInstance
  toDecidableLT := inferInstance
  compare_eq_compareOfLessAndEq a b := by
    change Timestamp.compare a b = compareOfLessAndEq a b
    unfold Timestamp.compare compareOfLessAndEq
    rcases before_trichotomy a b with h | rfl | h
    · simp [h]
    · simp [before_irrefl]
    · have hab : ¬ a < b := fun h' => before_irrefl a (before_trans h' h)
      have hne : a ≠ b := by rintro rfl; exact hab h
      simp [h, hab, hne]

/-- "Never" is a normal timestamp. -/
@[simp] theorem normal_zero : zero.Normal := by decide

end Timestamp

end CoherentCache
