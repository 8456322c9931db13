import CoherentCache.Proofs.Cache.Asks
import CoherentCache.Proofs.MemoryStore.Deadlines

/-!
# Fields that are no record

Fields can be put into the store behind its back, and they need not be those of a record.  Then no
access to the key is answered: each reports the fault, and none repairs the key or loses it.  The
slot of such a key has no deadline.  An earlier slot of the key may have left entries on the agenda
that a sweep takes for entries of this one, since generations are counted from the start again; but
a sweep that meets such an entry finds no deadline that has passed, and drops nothing.

* `MemoryStore.Unreadable` : the fields of a key are no record, and the key does not expire.
* `MemoryStore.Unreadable.execute`, `MemoryStore.Unreadable.inspect` : an access fails, and nothing
  but the counters changes.
* `MemoryStore.Unreadable.respond`, `MemoryStore.Unreadable.after` : nothing that happens to the
  store makes the key readable but to put other fields there.
* `MemoryStore.unreadable_until_overwritten` : **fields that are no record are reported on every
  access and kept as they are.**
-/

namespace CoherentCache

namespace MemoryStore

/-- The fields of the key are no record, for the reason given, and the key does not expire. -/
structure Unreadable (m : MemoryStore) (key : Bytes) (fields : Fields) (fault : Record.Fault) :
    Prop where
  /-- There are as many shards as there should be. -/
  wellFormed : m.WellFormed
  /-- The slot holds the fields and has no deadline. -/
  slot_eq : m.slot? key = some ⟨fields, none⟩
  /-- They are no record. -/
  fault_eq : Record.ofFields fields = .error fault

/-- `m'` is what `m` is after a corrupt record was met once, in so many operations.  One more is
counted of the first, so many more of the second, and everything else is as it was. -/
structure Reported (m m' : MemoryStore) (operations : Nat) : Prop where
  /-- One more corrupt record. -/
  corrupt : m'.counters.corrupt = m.counters.corrupt + 1
  /-- So many more operations. -/
  operations : m'.counters.operations = m.counters.operations + operations
  /-- No slot was dropped. -/
  expirations : m'.counters.expirations = m.counters.expirations
  /-- Every key has the slot that it had. -/
  slots : ∀ key, m'.slot? key = m.slot? key
  /-- The shards and the configuration are the same. -/
  rest : m' = { m with counters := m'.counters }

/-- The count that an access starts with, if any, and that of the corrupt record are all. -/
theorem reported_counters (m : MemoryStore) (operations : Nat) :
    m.Reported { m with counters := ⟨m.counters.operations + operations, m.counters.expirations,
      m.counters.corrupt + 1⟩ } operations :=
  ⟨rfl, rfl, rfl, fun _ => rfl, rfl⟩

namespace Unreadable

variable {m : MemoryStore} {key : Bytes} {fields : Fields} {fault : Record.Fault}

theorem overwrite (hm : m.WellFormed) (key : Bytes) (h : Record.ofFields fields = .error fault) :
    (m.overwrite key fields).Unreadable key fields fault := by
  have hupdated := updated_overwrite hm key fields
  exact ⟨hupdated.wellFormed, hupdated.self, h⟩

theorem counters (h : m.Unreadable key fields fault) (c : Counters) :
    ({ m with counters := c } : MemoryStore).Unreadable key fields fault :=
  ⟨h.wellFormed, h.slot_eq, h.fault_eq⟩

theorem live? (h : m.Unreadable key fields fault) (now : Instant) :
    m.live? now key = some ⟨fields, none⟩ := by
  rw [MemoryStore.live?, h.slot_eq]
  exact Slot.live_of_deadline_eq_none rfl now

/-- There is nothing to drop when the key is touched. -/
theorem settle (h : m.Unreadable key fields fault) (now : Instant) : m.settle now key = m := by
  have hlapsed : (m.shardOf key).isLapsed now key = false := by
    rw [Shard.isLapsed_eq, show (m.shardOf key).slots[key]? = _ from h.slot_eq]
    rfl
  simp only [MemoryStore.settle, hlapsed]
  rfl

theorem record (h : m.Unreadable key fields fault) : (m.shardOf key).record key = .error fault := by
  rw [record_shardOf, h.slot_eq, Slot.record, h.fault_eq]
  rfl

/-- **An operation on the key fails**, and it is counted. -/
theorem execute (h : m.Unreadable key fields fault) (now : Instant) (op : Operation) :
    (m.execute now key op).1 = .error (.corruptRecord key fault) ∧
      m.Reported (m.execute now key op).2 1 := by
  have hstarted : ({ m with counters.operations := m.counters.operations + 1 } :
      MemoryStore).Unreadable key fields fault := h.counters _
  have hexecute : m.execute now key op = (.error (.corruptRecord key fault), { m with
      counters :=
        ⟨m.counters.operations + 1, m.counters.expirations, m.counters.corrupt + 1⟩ }) := by
    simp only [MemoryStore.execute, hstarted.settle now, hstarted.record]
    rfl
  rw [hexecute]
  exact ⟨rfl, m.reported_counters 1⟩

/-- **An observer is shown no record**, and that is counted. -/
theorem inspect (h : m.Unreadable key fields fault) (now : Instant) :
    (m.inspect now key).1 = .error (.corruptRecord key fault) ∧
      m.Reported (m.inspect now key).2 0 := by
  have hinspect : m.inspect now key = (.error (.corruptRecord key fault), { m with
      counters := ⟨m.counters.operations, m.counters.expirations, m.counters.corrupt + 1⟩ }) := by
    simp only [MemoryStore.inspect, h.settle now, h.record]
    rfl
  rw [hinspect]
  exact ⟨rfl, m.reported_counters 0⟩

/-! ### Runs -/

/-- **Nothing that happens makes the key readable**, unless other fields are put there. -/
theorem respond (h : m.Unreadable key fields fault) {e : Event}
    (hkept : ∀ other, e.act ≠ .access key (.overwrite other)) :
    (m.respond e).2.Unreadable key fields fault := by
  refine ⟨wellFormed_respond h.wellFormed e, ?_, h.fault_eq⟩
  obtain ⟨now, act⟩ := e
  cases act with
  | sweep =>
    rcases slot?_sweep m now key with hsame | ⟨-, hdead⟩
    · exact hsame.trans h.slot_eq
    · rw [h.live? now] at hdead
      cases hdead
  | access k a =>
    by_cases hk : k = key
    · subst hk
      cases a with
      | operate op =>
        exact ((h.execute now op).2.slots k).trans h.slot_eq
      | inspect => exact ((h.inspect now).2.slots k).trans h.slot_eq
      | overwrite other => exact absurd rfl (hkept other)
    · rw [(respond_access h.wellFormed now k a).2.other hk]
      exact h.slot_eq

theorem after (h : m.Unreadable key fields fault) {events : List Event}
    (hkept : ∀ e ∈ events, ∀ other, e.act ≠ .access key (.overwrite other)) :
    (m.after events).Unreadable key fields fault := by
  induction events generalizing m with
  | nil => exact h
  | cons e rest ih =>
    obtain ⟨hfirst, hrest⟩ := List.forall_mem_cons.1 hkept
    exact ih (h.respond hfirst) hrest

end Unreadable

/-! ### The cache -/

open Cache (Ask)

namespace Unreadable

variable {m : MemoryStore} {key : Bytes} {fields : Fields} {fault : Record.Fault}
  {c : Cache Clocked}

/-- A call of the cache that runs an operation on the key fails as the operation does. -/
theorem perform {α : Type} (h : c.store.store.Unreadable key fields fault) (op : Operation)
    (pick : Answer → α) (count : Cache.Counters → α → Cache.Counters) :
    (c.perform key op pick count).1 = .error (.corruptRecord key fault) ∧
      c.store.store.Reported (c.perform key op pick count).2.store.store 1 := by
  obtain ⟨hfails, hreported⟩ := h.execute c.store.now op
  constructor
  · rw [Cache.perform_fst]
    show ((c.store.store.execute c.store.now key op).1).map pick = _
    rw [hfails]
    rfl
  · rw [Cache.store_perform]
    exact hreported

end Unreadable

/-- **Fields that are no record are reported on every access and kept as they are.**  They are put
into a store after any run, and then anything happens, at whatever clock readings, but that other
fields are put there.  The key still holds exactly these fields.  The next access fails, whichever
it is, on the store or through a cache: the error is of the kind for corrupt records, and its
message is the key, a colon and the fault that is found in the fields.  The count of corrupt records
goes up by one, that of operations by one if the access is an operation, and nothing else in the
store changes: no key has another slot than before. -/
theorem unreadable_until_overwritten (config : Config) (before : List Event) (key : Bytes)
    {fields : Fields} {fault : Record.Fault} (hfault : Record.ofFields fields = .error fault)
    {events : List Event}
    (hkept : ∀ e ∈ events, ∀ other, e.act ≠ .access key (.overwrite other)) :
    let m := (((empty config).after before).overwrite key fields).after events
    let e : StoreError := ⟨.corrupt, key ++ Bytes.ofString ": " ++ fault.message⟩
    m.slot? key = some ⟨fields, none⟩ ∧
    (∀ now op, (m.execute now key op).1 = .error e ∧ m.Reported (m.execute now key op).2 1) ∧
    (∀ now, (m.inspect now key).1 = .error e ∧ m.Reported (m.inspect now key).2 0) ∧
    ∀ c : Cache Clocked, c.store.store = m →
      (∀ value ts, (c.set key value ts).1 = .error e ∧
        m.Reported (c.set key value ts).2.store.store 1) ∧
      (∀ ts, (c.invalidate key ts).1 = .error e ∧
        m.Reported (c.invalidate key ts).2.store.store 1) ∧
      ((c.get key).1 = .error e ∧ m.Reported (c.get key).2.store.store 1) ∧
      ((c.inspect key).1 = .error e ∧ m.Reported (c.inspect key).2.store.store 0) := by
  intro m e
  have hbefore := wellFormed_after (wellFormed_empty config) before
  have hm : m.Unreadable key fields fault := (Unreadable.overwrite hbefore key hfault).after hkept
  refine ⟨hm.slot_eq, hm.execute, hm.inspect, ?_⟩
  intro c hc
  rw [← hc] at hm ⊢
  refine ⟨fun value ts => ?_, fun ts => ?_, ?_, ?_⟩
  · exact hm.perform (.set value ts) ..
  · exact hm.perform (.invalidate ts) ..
  · exact hm.perform .get ..
  · exact hm.inspect c.store.now

/-- A tombstone expires and is dropped when the key is looked up, but its entry stays on the agenda.
The next sweep meets that entry, which bears the generation of the fields that were put there in
the meantime, a value without a timestamp.  They are still there, and a newer value is no use.  It
is the second time that the record is found to be corrupt; an observer met it first. -/
theorem unreadable_until_overwritten_after_tombstone :
    let fields : Fields := (∅ : Fields).insert Record.valueField [9]
    let before : List Event :=
      [⟨⟨0⟩, .access [1] (.operate (.invalidate ⟨5, 0⟩))⟩,
        ⟨⟨6000000⟩, .access [1] (.operate .get)⟩]
    let events : List Event :=
      [⟨⟨6000000⟩, .access [1] .inspect⟩,
        ⟨⟨6000000⟩, .access [2] (.operate (.set [8] ⟨4, 0⟩))⟩,
        ⟨⟨7000000⟩, .sweep⟩]
    let m := (((empty { shards := 1, retention := 5 }).after before).overwrite [1] fields).after
      events
    let attempt := m.execute ⟨8000000⟩ [1] (.set [8] ⟨9, 0⟩)
    Record.ofFields fields = .error .unstampedValue ∧
      (∀ e ∈ events, ∀ other, e.act ≠ .access [1] (.overwrite other)) ∧
      m.slot? [1] = some ⟨fields, none⟩ ∧
      attempt.1 = .error ⟨.corrupt, [1] ++ Bytes.ofString ": value without write timestamp"⟩ ∧
      m.counters = ⟨3, 1, 1⟩ ∧ attempt.2.counters = ⟨4, 1, 2⟩ ∧
      attempt.2.slot? [1] = some ⟨fields, none⟩ ∧ attempt.2.slot? [2] = m.slot? [2] := by
  intro fields before events m attempt
  have hfault : Record.ofFields fields = .error .unstampedValue := by decide +kernel
  have hkept : ∀ e ∈ events, ∀ other, e.act ≠ .access [1] (.overwrite other) := by
    intro e he other hact
    simp only [events, List.mem_cons, List.not_mem_nil, or_false] at he
    rcases he with rfl | rfl | rfl <;> cases hact
  obtain ⟨hslot, hexecute, -⟩ :=
    unreadable_until_overwritten { shards := 1, retention := 5 } before [1] hfault hkept
  obtain ⟨hresult, hreported⟩ := hexecute ⟨8000000⟩ (.set [8] ⟨9, 0⟩)
  refine ⟨hfault, hkept, hslot, hresult, ?_, ?_, ?_, hreported.slots [2]⟩
  · decide +kernel
  · decide +kernel
  · exact (hreported.slots [1]).trans hslot

end MemoryStore

end CoherentCache
