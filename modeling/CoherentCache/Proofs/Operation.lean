import CoherentCache.Operation
import CoherentCache.Proofs.Record
import CoherentCache.Proofs.Timestamp

/-!
# The effects of operations

The coherence rule, taken apart: when a write is accepted, and what it leaves behind.

* `Operation.Normal` : the timestamp of a write is normal.
* `Operation.effect_set_of_stale`, `Operation.effect_set_of_not_stale` : refused and accepted sets.
* `Operation.effect_invalidate_of_lt`, `Operation.effect_invalidate_of_le` : the same for
  invalidations.
* `Operation.effect_cases` : all that an operation can do.
* `Operation.storable_of_effect` : normal operations leave storable records.
-/

namespace CoherentCache

namespace Operation

/-- The nanoseconds of the timestamp of a write lie within one second. -/
def Normal : Operation → Prop
  | set _ ts => ts.Normal
  | invalidate ts => ts.Normal
  | get => True

instance (op : Operation) : Decidable op.Normal := by
  cases op <;> unfold Normal <;> infer_instance

variable {current : Option Record} {value : Bytes} {ts : Timestamp}

theorem effect_set_of_stale (h : Stale (current.getD .blank) ts) :
    (set value ts).effect current = .reject := if_pos h

theorem effect_set_of_not_stale (h : ¬ Stale (current.getD .blank) ts) :
    (set value ts).effect current =
      .accept { current.getD .blank with value := some value, written := ts } .clear := if_neg h

theorem effect_invalidate_of_lt (h : ts < (current.getD .blank).invalidated) :
    (invalidate ts).effect current = .reject := if_pos h

theorem effect_invalidate_of_le (h : (current.getD .blank).invalidated ≤ ts) :
    (invalidate ts).effect current =
      .accept { current.getD .blank with invalidated := ts }
        (if (current.getD .blank).value.isSome then .keep else .arm) := if_neg h

theorem effect_get (current : Option Record) :
    get.effect current = ⟨none, .keep, ⟨.rejected, (current.getD .blank).visibleValue⟩⟩ := rfl

/-- **All that an operation can do**: leave the record alone, accept a set or accept an
invalidation. -/
theorem effect_cases (op : Operation) (current : Option Record) :
    ((op.effect current).next = none ∧ (op.effect current).answer.outcome = .rejected) ∨
    (∃ value ts, op = set value ts ∧ ¬ Stale (current.getD .blank) ts ∧
      op.effect current =
        .accept { current.getD .blank with value := some value, written := ts } .clear) ∨
    (∃ ts, op = invalidate ts ∧ (current.getD .blank).invalidated ≤ ts ∧
      op.effect current =
        .accept { current.getD .blank with invalidated := ts }
          (if (current.getD .blank).value.isSome then .keep else .arm)) := by
  cases op with
  | get => exact Or.inl ⟨rfl, rfl⟩
  | set value ts =>
    by_cases hs : Stale (current.getD .blank) ts
    · rw [effect_set_of_stale hs]
      exact Or.inl ⟨rfl, rfl⟩
    · exact Or.inr (Or.inl ⟨value, ts, rfl, hs, effect_set_of_not_stale hs⟩)
  | invalidate ts =>
    by_cases hs : ts < (current.getD .blank).invalidated
    · rw [effect_invalidate_of_lt hs]
      exact Or.inl ⟨rfl, rfl⟩
    · exact Or.inr (Or.inr ⟨ts, rfl, hs, effect_invalidate_of_le hs⟩)

theorem not_stale_iff {r : Record} :
    ¬ Stale r ts ↔ r.invalidated ≤ ts ∧ (r.value.isSome → r.written ≤ ts) := by
  simp only [Stale, not_or, not_and, Timestamp.le_iff_not_lt]

theorem storable_of_effect {op : Operation} {next : Record} (hop : op.Normal)
    (hc : (current.getD .blank).Storable) (h : (op.effect current).next = some next) :
    next.Storable := by
  obtain ⟨hw, hi⟩ := hc
  rcases effect_cases op current with ⟨hnone, -⟩ | ⟨value, ts, rfl, -, he⟩ | ⟨ts, rfl, -, he⟩
  · rw [hnone] at h; cases h
  · rw [he] at h
    cases h
    exact ⟨hop, hi⟩
  · rw [he] at h
    cases h
    exact ⟨hw, hop⟩

/-- Only an invalidation gives a key a deadline. -/
theorem eq_invalidate_of_arm {op : Operation} (h : (op.effect current).retention = .arm) :
    ∃ ts, op = invalidate ts := by
  cases op with
  | invalidate ts => exact ⟨ts, rfl⟩
  | get => cases h
  | set value ts =>
    by_cases hs : Stale (current.getD .blank) ts
    · rw [effect_set_of_stale hs] at h; cases h
    · rw [effect_set_of_not_stale hs] at h; cases h

end Operation

end CoherentCache
