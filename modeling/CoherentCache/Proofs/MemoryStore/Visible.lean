import CoherentCache.Proofs.MemoryStore.Deadlines

/-!
# The values that keys show

What a read of a key is served is in the slot of the key.  A value never has a deadline, so it does
not matter when the key is read: a slot with a value is always there, and one that has lapsed had
none to show.

* `MemoryStore.visible` : the value that a key shows, whatever the time.
* `MemoryStore.Steady` : values have no deadlines; this holds in every store that is reached.
* `MemoryStore.Steady.visibleAt_eq`, `MemoryStore.Steady.get_eq` : observers are shown that value,
  and reads are served it.
* `MemoryStore.Steady.visible_get`, `MemoryStore.Steady.visible_set` : what becomes of the values
  when a key is read, and when one is set.
-/

namespace CoherentCache

namespace Slot

variable {slot : Option Slot} {key value : Bytes} {due : Instant} {ts : Timestamp}

/-- The visible value of a slot; there is none when its fields are no record. -/
def visible (slot : Option Slot) : Option Bytes :=
  match record slot with
  | .ok (some r) => r.visibleValue
  | _ => none

theorem value_of_visible {s : Slot} (h : visible (some s) = some value) :
    s.fields[Record.valueField]? = some value := by
  have hrecord : record (some s) = (Record.ofFields s.fields).map some := rfl
  rw [visible, hrecord] at h
  cases hfields : Record.ofFields s.fields with
  | error fault =>
    rw [hfields] at h
    cases h
  | ok r =>
    rw [hfields] at h
    rw [← Record.value_of_ofFields hfields]
    change r.visibleValue = some value at h
    unfold Record.visibleValue at h
    split at h
    · exact h
    · cases h

/-- A slot that lapses has no value to show. -/
theorem visible_live (h : ValueStays slot) (now : Instant) :
    visible (live now slot) = visible slot := by
  cases slot with
  | none => rfl
  | some s =>
    cases hvisible : visible (some s) with
    | some value =>
      have hfield : s.fields[Record.valueField]?.isSome := by
        rw [value_of_visible hvisible]
        rfl
      rw [live_of_deadline_eq_none (h s rfl hfield), hvisible]
    | none =>
      rcases live_eq_or now (some s) with hsame | hgone
      · rw [hsame, hvisible]
      · rw [hgone]
        rfl

theorem operate_get (slot : Option Slot) :
    (operate key due .get slot).1.toOption.bind Answer.value = visible slot ∧
      (operate key due .get slot).2 = slot := by
  unfold operate visible
  cases record slot with
  | error fault => exact ⟨rfl, rfl⟩
  | ok found =>
    cases found with
    | none => exact ⟨rfl, rfl⟩
    | some r => exact ⟨rfl, rfl⟩

/-- A set leaves the value as it is, or no value is shown but that of the set. -/
theorem visible_operate_set (slot : Option Slot) :
    visible (operate key due (.set value ts) slot).2 = visible slot ∨
      ∀ shown, visible (operate key due (.set value ts) slot).2 = some shown → shown = value := by
  unfold operate
  cases record slot with
  | error fault => exact .inl rfl
  | ok found =>
    by_cases hstale : Operation.Stale (found.getD .blank) ts
    · left
      simp only [Operation.effect_set_of_stale hstale]
      rfl
    · right
      intro shown hshown
      simp only [Operation.effect_set_of_not_stale hstale] at hshown
      have hfield := value_of_visible hshown
      rw [Record.getElem?_toFields_value] at hfield
      exact (Option.some.inj hfield).symm

end Slot

namespace MemoryStore

/-- The value that a key shows. -/
def visible (m : MemoryStore) (key : Bytes) : Option Bytes := Slot.visible (m.slot? key)

/-- The value of a key that an observer at a clock reading sees. -/
def visibleAt (m : MemoryStore) (now : Instant) (key : Bytes) : Option Bytes :=
  match (m.inspect now key).1 with
  | .ok (some shown) => shown.record.visibleValue
  | _ => none

/-- No slot with a value has a deadline. -/
structure Steady (m : MemoryStore) : Prop where
  /-- There are as many shards as there should be. -/
  wellFormed : m.WellFormed
  /-- A value has no deadline. -/
  valueStays : ∀ key, Slot.ValueStays (m.slot? key)

theorem steady_empty (config : Config) : (empty config).Steady where
  wellFormed := wellFormed_empty config
  valueStays key := by
    rw [slot?_empty]
    rintro _ ⟨⟩

namespace Steady

variable {m : MemoryStore} {now : Instant} {key : Bytes}

theorem respond (h : m.Steady) (e : Event) : (m.respond e).2.Steady where
  wellFormed := wellFormed_respond h.wellFormed e
  valueStays key := (leaves_respond h.wellFormed e key).valueStays (h.valueStays key)

/-- **Values have no deadlines in any store that is reached.** -/
theorem after (h : m.Steady) (events : List Event) : (m.after events).Steady where
  wellFormed := wellFormed_after h.wellFormed events
  valueStays key := valueStays_after h.wellFormed (h.valueStays key) events

theorem execute (h : m.Steady) (now : Instant) (key : Bytes) (op : Operation) :
    (m.execute now key op).2.Steady := h.respond ⟨now, .access key (.operate op)⟩

theorem visible_live? (h : m.Steady) (now : Instant) (key : Bytes) :
    Slot.visible (m.live? now key) = m.visible key := Slot.visible_live (h.valueStays key) now

/-- An observer sees the value that a key shows, at whatever time. -/
theorem visibleAt_eq (h : m.Steady) (now : Instant) (key : Bytes) :
    m.visibleAt now key = m.visible key := by
  rw [visibleAt, (inspect_eq h.wellFormed now key).1, ← h.visible_live? now key, Slot.inspect,
    Slot.visible]
  cases Slot.record (m.live? now key) with
  | error fault => rfl
  | ok found =>
    cases found with
    | none => rfl
    | some r => rfl

/-- A read is served the value that the key shows, if it is answered. -/
theorem get_eq (h : m.Steady) (now : Instant) (key : Bytes) :
    (m.execute now key .get).1.toOption.bind Answer.value = m.visible key := by
  rw [(execute_eq h.wellFormed now key .get).1, (Slot.operate_get _).1, h.visible_live?]

/-- A read changes no value that is shown. -/
theorem visible_get (h : m.Steady) (now : Instant) (key k : Bytes) :
    (m.execute now key .get).2.visible k = m.visible k := by
  have hupdated := (execute_eq h.wellFormed now key .get).2
  rw [(Slot.operate_get _).2] at hupdated
  rw [visible, hupdated.slot?_eq]
  split
  · next hk =>
    subst hk
    exact h.visible_live? now key
  · rfl

/-- A set changes at most the value of its key, and to its own value if to any. -/
theorem visible_set (h : m.Steady) (now : Instant) (key value : Bytes) (ts : Timestamp)
    (k : Bytes) :
    (m.execute now key (.set value ts)).2.visible k = m.visible k ∨
      k = key ∧ ∀ shown, (m.execute now key (.set value ts)).2.visible k = some shown →
        shown = value := by
  have hupdated := (execute_eq h.wellFormed now key (.set value ts)).2
  by_cases hk : key = k
  · subst hk
    rw [visible, hupdated.self, ← h.visible_live? now key]
    exact (Slot.visible_operate_set _).imp_right fun hset => ⟨rfl, hset⟩
  · left
    rw [visible, hupdated.other hk]
    rfl

end Steady

end MemoryStore

end CoherentCache
