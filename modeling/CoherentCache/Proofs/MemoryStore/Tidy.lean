import CoherentCache.Proofs.MemoryStore.Slot
import CoherentCache.Proofs.Operation

/-!
# Stores that are used by operations alone

Nobody but the store writes to its slots as long as nothing is done to it but to run operations.  If
their timestamps are normal, every slot persists a record that can be read back, so that no access
fails, and all values are values that an operation brought.

* `Operation.Carries`, `Record.Carries` : a property of the values of operations and records.
* `MemoryStore.Tidy` : every slot can be read back, and its value has the property.
* `MemoryStore.execute_of_tidy`, `MemoryStore.inspect_of_tidy`, `MemoryStore.tidy_sweep` : **nothing
  that is done to a tidy store fails, and the store stays tidy.**
-/

namespace CoherentCache

/-- The value that the operation would store has the property. -/
def Operation.Carries (P : Bytes → Prop) : Operation → Prop
  | .set value _ => P value
  | .invalidate _ | .get => True

/-- The value of the record has the property. -/
def Record.Carries (P : Bytes → Prop) (r : Record) : Prop := ∀ value ∈ r.value, P value

variable {P : Bytes → Prop} {op : Operation}

theorem Record.carries_blank : blank.Carries P := by simp [Carries, blank]

theorem Operation.carries_of_effect {current : Option Record} {next : Record}
    (hop : op.Carries P) (hc : (current.getD .blank).Carries P)
    (h : (op.effect current).next = some next) : next.Carries P := by
  rcases effect_cases op current with ⟨hnone, -⟩ | ⟨value, ts, rfl, -, he⟩ | ⟨ts, rfl, -, he⟩
  · rw [hnone] at h; cases h
  · rw [he] at h
    cases h
    intro v hv
    cases hv
    exact hop
  · rw [he] at h
    cases h
    exact hc

/-- An operation is served no value but that of the record. -/
theorem Operation.carries_answer {current : Option Record} (hc : (current.getD .blank).Carries P) :
    ∀ value ∈ (op.effect current).answer.value, P value := by
  intro value hvalue
  cases op with
  | set v ts =>
    by_cases hs : Stale (current.getD .blank) ts
    · rw [effect_set_of_stale hs] at hvalue; cases hvalue
    · rw [effect_set_of_not_stale hs] at hvalue; cases hvalue
  | invalidate ts =>
    by_cases hs : ts < (current.getD .blank).invalidated
    · rw [effect_invalidate_of_lt hs] at hvalue; cases hvalue
    · rw [effect_invalidate_of_le hs] at hvalue; cases hvalue
  | get =>
    rw [effect_get] at hvalue
    dsimp only at hvalue
    unfold Record.visibleValue at hvalue
    split at hvalue
    · exact hc value hvalue
    · cases hvalue

/-! ### One slot on its own -/

namespace Slot

/-- The slot persists a record that can be read back, and the value in it has the property. -/
def Tidy (P : Bytes → Prop) (slot : Option Slot) : Prop :=
  ∃ r, Keeps slot r ∧ (r.getD .blank).Carries P

variable {key : Bytes} {due now : Instant} {current : Option Slot}

theorem tidy_none : Tidy P none := ⟨none, keeps_none, Record.carries_blank⟩

theorem Tidy.live (h : Tidy P current) (now : Instant) : Tidy P (live now current) := by
  cases current with
  | none => exact tidy_none
  | some slot =>
    cases hl : slot.isLapsed now with
    | true => rw [live_of_lapsed hl]; exact tidy_none
    | false => rwa [live_of_not_lapsed hl]

theorem Tidy.operate (h : Tidy P current) (hnormal : op.Normal) (hcarries : op.Carries P)
    (key : Bytes) (due : Instant) :
    (∃ answer, (operate key due op current).1 = .ok answer ∧ ∀ value ∈ answer.value, P value) ∧
      Tidy P (operate key due op current).2 := by
  obtain ⟨r, hkeeps, hr⟩ := h
  rw [Slot.operate, record_of_keeps hkeeps]
  refine ⟨⟨_, rfl, Operation.carries_answer hr⟩, ?_⟩
  dsimp only
  cases hnext : (op.effect r).next with
  | none => exact ⟨r, hkeeps, hr⟩
  | some next =>
    have hstorable := Operation.storable_of_effect hnormal hkeeps.2 hnext
    exact ⟨some next, ⟨rfl, hstorable⟩, Operation.carries_of_effect hcarries hr hnext⟩

theorem Tidy.inspect (h : Tidy P current) (key : Bytes) (now : Instant) :
    ∃ shown, inspect key now current = .ok shown ∧
      ∀ snapshot ∈ shown, snapshot.record.Storable ∧ snapshot.record.Carries P := by
  obtain ⟨r, hkeeps, hr⟩ := h
  rw [Slot.inspect, record_of_keeps hkeeps]
  cases r with
  | none => exact ⟨none, rfl, by simp⟩
  | some r =>
    refine ⟨_, rfl, ?_⟩
    intro snapshot hsnapshot
    cases hsnapshot
    exact ⟨hkeeps.2, hr⟩

end Slot

/-! ### The store -/

namespace MemoryStore

/-- Every slot persists a record that can be read back, and the value in it has the property. -/
structure Tidy (P : Bytes → Prop) (m : MemoryStore) : Prop where
  /-- There are as many shards as there should be. -/
  wellFormed : m.WellFormed
  /-- The slots of all keys. -/
  slot : ∀ key, Slot.Tidy P (m.slot? key)

variable {m m' : MemoryStore} {key : Bytes} {slot : Option Slot}

theorem tidy_empty (config : Config) : (empty config).Tidy P := by
  refine ⟨wellFormed_empty config, fun key => ?_⟩
  rw [slot?_empty]
  exact Slot.tidy_none

theorem Tidy.updated (h : m.Tidy P) (hslot : Slot.Tidy P slot) (hm : Updated m key slot m') :
    m'.Tidy P := by
  refine ⟨hm.wellFormed, fun k => ?_⟩
  rw [hm.slot?_eq]
  split
  · exact hslot
  · exact h.slot k

/-- **No operation on a tidy store fails**, and the store stays tidy. -/
theorem execute_of_tidy (h : m.Tidy P) (hnormal : op.Normal) (hcarries : op.Carries P)
    (now : Instant) (key : Bytes) :
    (∃ answer, (m.execute now key op).1 = .ok answer ∧ ∀ value ∈ answer.value, P value) ∧
      (m.execute now key op).2.Tidy P := by
  obtain ⟨hanswer, hupdated⟩ := execute_eq h.wellFormed now key op
  obtain ⟨hok, hslot⟩ := ((h.slot key).live now).operate hnormal hcarries key
    (now.addMillis m.config.retention)
  rw [hanswer]
  exact ⟨hok, h.updated hslot hupdated⟩

/-- **An observer of a tidy store is shown a record**, and the store stays tidy. -/
theorem inspect_of_tidy (h : m.Tidy P) (now : Instant) (key : Bytes) :
    (∃ shown, (m.inspect now key).1 = .ok shown ∧
        ∀ snapshot ∈ shown, snapshot.record.Storable ∧ snapshot.record.Carries P) ∧
      (m.inspect now key).2.Tidy P := by
  obtain ⟨hshown, hupdated⟩ := inspect_eq h.wellFormed now key
  have hlive := (h.slot key).live now
  rw [hshown]
  exact ⟨hlive.inspect key now, h.updated hlive hupdated⟩

theorem tidy_sweep (h : m.Tidy P) (now : Instant) : (m.sweep now).Tidy P := by
  refine ⟨wellFormed_sweep h.wellFormed now, fun key => ?_⟩
  rcases slot?_sweep m now key with hsame | ⟨hgone, -⟩
  · rw [hsame]
    exact h.slot key
  · rw [hgone]
    exact Slot.tidy_none

end MemoryStore

end CoherentCache
