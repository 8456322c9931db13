import CoherentCache.MemoryStore.Shard

/-!
# What shard operations do to slots

A shard is seen through its slots, key by key.  Each operation changes the slot of its own key and
no other; the agenda and the generations only decide when lapsed slots are dropped.

* `Shard.getElem?_settle`, `Shard.getElem?_commit`, `Shard.getElem?_overwrite` : the slots after an
  operation on one key.
* `Shard.sweep_cases` : a sweep leaves a slot alone, or drops a lapsed one and counts it.
-/

namespace CoherentCache

/-- What becomes of a deadline. -/
def Retention.deadline (retention : Retention) (due : Instant) (current : Option Instant) :
    Option Instant :=
  match retention with
  | .keep => current
  | .arm => some due
  | .clear => none

namespace Shard

theorem getElem?_erase (s : Shard) (key k : Bytes) :
    (s.erase key).slots[k]? = if key = k then none else s.slots[k]? := by
  simp only [erase, Std.TreeMap.getElem?_erase, Std.compare_eq_iff_eq]

theorem getElem?_put (s : Shard) (key : Bytes) (slot : Slot) (k : Bytes) :
    (s.put key slot).slots[k]? = if key = k then some slot else s.slots[k]? := by
  simp only [put, Std.TreeMap.getElem?_insert, Std.compare_eq_iff_eq]

theorem isLapsed_eq (s : Shard) (now : Instant) (key : Bytes) :
    s.isLapsed now key = (s.slots[key]?).any (·.isLapsed now) := by
  unfold isLapsed
  cases s.slots[key]? <;> rfl

theorem getElem?_settle (s : Shard) (now : Instant) (key k : Bytes) :
    (s.settle now key).slots[k]? =
      if key = k then (s.slots[k]?).filter (!·.isLapsed now) else s.slots[k]? := by
  unfold settle
  rw [isLapsed_eq]
  by_cases hk : key = k
  · subst hk
    rw [if_pos rfl]
    cases hs : s.slots[key]? with
    | none => simp [hs]
    | some slot => by_cases hl : slot.isLapsed now = true <;> simp [hs, hl, getElem?_erase, Option.filter]
  · rw [if_neg hk]
    split
    · rw [getElem?_erase, if_neg hk]
    · rfl

theorem getElem?_commit (s : Shard) (key : Bytes) (record : Record) (retention : Retention)
    (due : Instant) (k : Bytes) :
    (s.commit key record retention due).slots[k]? =
      if key = k then some ⟨record.toFields, retention.deadline due (s.deadline key)⟩
      else s.slots[k]? := by
  cases retention with
  | keep => exact getElem?_put ..
  | arm => exact getElem?_put ..
  | clear =>
    simp only [commit]
    split <;> exact getElem?_put ..

theorem getElem?_overwrite (s : Shard) (key : Bytes) (fields : Fields) (k : Bytes) :
    (s.overwrite key fields).slots[k]? =
      if key = k then some ⟨fields, none⟩ else s.slots[k]? :=
  getElem?_put ..

/-! ### Sweeping -/

theorem dropped_le_sweepEntries (now : Instant) (entries : List Expiry) (budget : Nat) (s : Shard)
    (dropped : Nat) : dropped ≤ (sweepEntries now entries budget s dropped).2 := by
  induction entries generalizing budget s dropped with
  | nil => exact Nat.le_refl _
  | cons e rest ih =>
    rw [sweepEntries]
    split
    · exact Nat.le_refl _
    · split
      · exact ih ..
      · split
        · exact ih ..
        · split
          · exact Nat.le_trans (Nat.le_succ _) (ih ..)
          · exact ih ..

theorem sweepEntries_cases (now : Instant) (entries : List Expiry) (budget : Nat) (s : Shard)
    (dropped : Nat) (k : Bytes) :
    (sweepEntries now entries budget s dropped).1.slots[k]? = s.slots[k]? ∨
      (sweepEntries now entries budget s dropped).1.slots[k]? = none ∧ s.isLapsed now k = true ∧
        dropped < (sweepEntries now entries budget s dropped).2 := by
  -- The induction is on the agenda.  Only an entry of the right generation can drop a slot, and only
  -- a slot that has lapsed itself.
  induction entries generalizing budget s dropped with
  | nil => exact Or.inl rfl
  | cons e rest ih =>
    rw [sweepEntries]
    split
    · exact Or.inl rfl
    · split
      · exact ih ..
      · next slot hslot =>
        split
        · exact ih ..
        · split
          · next hlapsed =>
            have hcount := dropped_le_sweepEntries now rest (budget - 1) (s.erase e.key) (dropped + 1)
            by_cases hk : e.key = k
            · -- The slot of `k` itself is dropped here, and nothing later puts it back.
              subst hk
              have hgone : (s.erase e.key).slots[e.key]? = none := by
                rw [getElem?_erase, if_pos rfl]
              refine Or.inr ⟨?_, by rw [isLapsed_eq, hslot]; exact hlapsed, by omega⟩
              rcases ih (budget - 1) (s.erase e.key) (dropped + 1) with h | ⟨h, -⟩
              · rw [h, hgone]
              · exact h
            · have hsame : (s.erase e.key).slots[k]? = s.slots[k]? := by
                rw [getElem?_erase, if_neg hk]
              rcases ih (budget - 1) (s.erase e.key) (dropped + 1) with h | ⟨h, hl, hd⟩
              · exact Or.inl (h.trans hsame)
              · rw [isLapsed_eq, hsame, ← isLapsed_eq] at hl
                exact Or.inr ⟨h, hl, by omega⟩
          · exact ih ..

/-- **A sweep drops lapsed slots only**, and counts those that it drops. -/
theorem sweep_cases (s : Shard) (now : Instant) (budget : Nat) (k : Bytes) :
    (s.sweep now budget).1.slots[k]? = s.slots[k]? ∨
      (s.sweep now budget).1.slots[k]? = none ∧ s.isLapsed now k = true ∧
        0 < (s.sweep now budget).2 :=
  sweepEntries_cases now s.agenda budget s 0 k

end Shard

end CoherentCache
