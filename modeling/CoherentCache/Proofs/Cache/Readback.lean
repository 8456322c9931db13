import CoherentCache.Proofs.Cache.Asks
import CoherentCache.Proofs.Operation

/-!
# Reading back what was written

A write is accepted whatever its timestamp says, but a record is read back only if its timestamps
are normal.  So the next access to a key tells whether the timestamp of an accepted write was
normal: if it was not, the key answers that its record is corrupt.

* `MemoryStore.execute_get_of_accepted_set` : the read after an accepted set.
* `MemoryStore.execute_of_accepted_invalidate` : any operation after an accepted invalidation.
* `MemoryStore.readable_iff_normal` : the same for a cache after any run.
* `MemoryStore.not_readable_of_full_second` : a set that the next read cannot serve.
-/

namespace CoherentCache

/-! ### One slot on its own -/

namespace Slot

variable {key : Bytes} {due now : Instant} {value : Bytes} {ts : Timestamp} {current : Option Slot}

/-- What a reader says when a timestamp of the record is not normal. -/
def notNormal (key : Bytes) (stamp : Record.Stamp) : StoreError :=
  .corruptRecord key (.outOfRange stamp)

theorem record_toFields (r : Record) (deadline : Option Instant) :
    record (some ⟨r.toFields, deadline⟩) = (Record.ofFields r.toFields).map some := rfl

theorem storable_of_record {found : Option Record} (h : record current = .ok found) :
    (found.getD .blank).Storable := by
  unfold record at h
  split at h
  · cases h
    exact Record.storable_blank
  · next slot =>
    cases hr : Record.ofFields slot.fields with
    | error fault => rw [hr] at h; cases h
    | ok r =>
      rw [hr] at h
      cases h
      exact Record.storable_of_ofFields hr

/-- An accepted set leaves its value without a deadline. -/
theorem operate_of_accepted_set {answer : Answer}
    (h : (operate key due (.set value ts) current).1 = .ok answer)
    (ha : answer.outcome = .accepted) :
    ∃ r : Record, r.invalidated ≤ ts ∧ r.invalidated.Normal ∧
      (operate key due (.set value ts) current).2 =
        some ⟨({ r with value := some value, written := ts } : Record).toFields, none⟩ := by
  unfold operate at h ⊢
  cases hr : record current with
  | error fault => rw [hr] at h; cases h
  | ok found =>
    rw [hr] at h
    cases h
    have hstorable := storable_of_record hr
    by_cases hstale : Operation.Stale (found.getD .blank) ts
    · rw [Operation.effect_set_of_stale hstale] at ha
      cases ha
    · refine ⟨found.getD .blank, (Operation.not_stale_iff.1 hstale).1, hstorable.2, ?_⟩
      dsimp only
      rw [Operation.effect_set_of_not_stale hstale]
      rfl

/-- An accepted invalidation leaves a record with its timestamp, whose other timestamp can be read
back.  The deadline is that of before, or the new one. -/
theorem operate_of_accepted_invalidate {answer : Answer}
    (h : (operate key due (.invalidate ts) current).1 = .ok answer)
    (ha : answer.outcome = .accepted) :
    ∃ r : Record, r.invalidated = ts ∧
      (if r.value.isSome then r.written.Normal else r.written = .zero) ∧
      (operate key due (.invalidate ts) current).2 =
        some ⟨r.toFields,
          if r.value.isSome then current.bind (·.deadline) else some due⟩ := by
  unfold operate at h ⊢
  cases hr : record current with
  | error fault => rw [hr] at h; cases h
  | ok found =>
    rw [hr] at h
    cases h
    have hstorable := storable_of_record hr
    by_cases hold : ts < (found.getD .blank).invalidated
    · rw [Operation.effect_invalidate_of_lt hold] at ha
      cases ha
    · refine ⟨{ found.getD .blank with invalidated := ts }, rfl, hstorable.1, ?_⟩
      dsimp only
      rw [Operation.effect_invalidate_of_le hold]
      dsimp only [Effect.accept]
      by_cases hsome : (found.getD .blank).value.isSome
      · rw [if_pos hsome, if_pos hsome]
        rfl
      · rw [if_neg hsome, if_neg hsome]
        rfl

theorem operate_get_of_set {r : Record} (hts : r.invalidated ≤ ts) (hi : r.invalidated.Normal) :
    (operate key due .get
        (some ⟨({ r with value := some value, written := ts } : Record).toFields, none⟩)).1 =
      if ts.Normal then .ok ⟨.rejected, some value⟩ else .error (notNormal key .write) := by
  unfold operate
  rw [record_toFields, Record.ofFields_toFields_eq]
  by_cases hn : ts.Normal
  · have hvisible : ({ r with value := some value, written := ts } : Record).Visible := ⟨rfl, hts⟩
    simp only [hn, hi, Option.isSome_some, not_true_eq_false, and_false, if_false, if_true,
      Except.map, Operation.effect_get, Option.getD_some, Record.visibleValue, hvisible]
  · simp only [hn, Option.isSome_some, not_false_eq_true, and_self, if_true, if_false, Except.map]
    rfl

theorem operate_of_not_normal {r : Record} {deadline : Option Instant}
    (hw : if r.value.isSome then r.written.Normal else r.written = .zero)
    (hi : ¬ r.invalidated.Normal) (op : Operation) :
    (operate key due op (some ⟨r.toFields, deadline⟩)).1 = .error (notNormal key .invalidate) := by
  have hwritten : ¬ (r.value.isSome ∧ ¬ r.written.Normal) := by
    rintro ⟨hsome, hn⟩
    rw [if_pos hsome] at hw
    exact hn hw
  unfold operate
  rw [record_toFields, Record.ofFields_toFields_eq, if_neg hwritten, if_pos hi]
  rfl

theorem exists_operate_of_storable {slot : Option Slot}
    (h : ∀ s ∈ slot, ∃ r : Record, s.fields = r.toFields ∧ r.Storable) (op : Operation) :
    ∃ answer, (operate key due op slot).1 = .ok answer := by
  have hrecord : ∃ found, record slot = .ok found := by
    cases slot with
    | none => exact ⟨none, rfl⟩
    | some s =>
      obtain ⟨r, hf, hr⟩ := h s rfl
      exact ⟨some r, by rw [record, hf, Record.ofFields_toFields hr]; rfl⟩
  obtain ⟨found, hfound⟩ := hrecord
  exact ⟨(op.effect found).answer, by rw [operate, hfound]⟩

end Slot

/-! ### The store -/

namespace MemoryStore

variable {m : MemoryStore} {now : Instant} {key value : Bytes} {ts : Timestamp} {answer : Answer}

/-- What an operation on a key meets that comes right after another one on it. -/
theorem execute_execute (hm : m.WellFormed) (now : Instant) (key : Bytes) (first op : Operation) :
    ((m.execute now key first).2.execute now key op).1 =
      (Slot.operate key (now.addMillis m.config.retention) op (Slot.live now
        (Slot.operate key (now.addMillis m.config.retention) first (m.live? now key)).2)).1 := by
  obtain ⟨-, hupdated⟩ := execute_eq hm now key first
  rw [(execute_eq hupdated.wellFormed now key op).1, hupdated.config_eq, live?, hupdated.self]

/-- **The read after an accepted set** serves the value if its timestamp is normal. -/
theorem execute_get_of_accepted_set (hm : m.WellFormed)
    (h : (m.execute now key (.set value ts)).1 = .ok answer) (ha : answer.outcome = .accepted) :
    ((m.execute now key (.set value ts)).2.execute now key .get).1 =
      if ts.Normal then .ok ⟨.rejected, some value⟩ else .error (Slot.notNormal key .write) := by
  rw [(execute_eq hm now key _).1] at h
  obtain ⟨r, hts, hi, hleft⟩ := Slot.operate_of_accepted_set h ha
  rw [execute_execute hm, hleft, Slot.live_of_not_lapsed rfl]
  exact Slot.operate_get_of_set hts hi

/-- **After an accepted invalidation** every operation is answered if its timestamp is normal.  If
it is not, no operation is, until the deadline of the key. -/
theorem execute_of_accepted_invalidate (hm : m.WellFormed)
    (h : (m.execute now key (.invalidate ts)).1 = .ok answer) (ha : answer.outcome = .accepted)
    (op : Operation) :
    (ts.Normal → ∃ answer, ((m.execute now key (.invalidate ts)).2.execute now key op).1 =
      .ok answer) ∧
    (¬ ts.Normal → now < now.addMillis m.config.retention →
      ((m.execute now key (.invalidate ts)).2.execute now key op).1 =
        .error (Slot.notNormal key .invalidate)) := by
  rw [(execute_eq hm now key _).1] at h
  obtain ⟨r, rfl, hw, hleft⟩ := Slot.operate_of_accepted_invalidate h ha
  rw [execute_execute hm, hleft]
  constructor
  · intro hnormal
    refine Slot.exists_operate_of_storable (fun s hs => ?_) op
    obtain ⟨hs, -⟩ := Option.mem_filter_iff.1 hs
    cases hs
    exact ⟨r, rfl, hw, hnormal⟩
  · intro hnormal hlater
    -- The deadline that was there has not passed, and neither has the one that was set.
    have hlive : Slot.isLapsed ⟨r.toFields,
        if r.value.isSome then (m.live? now key).bind (·.deadline)
        else some (now.addMillis m.config.retention)⟩ now = false := by
      unfold Slot.isLapsed
      split
      · rfl
      · next d hd =>
        have hnow : now < d := by
          split at hd
          · exact Slot.lt_of_mem_live hd
          · cases hd
            exact hlater
        exact decide_eq_false (Int64.not_le.2 hnow)
    rw [Slot.live_of_not_lapsed hlive]
    exact Slot.operate_of_not_normal hw hnormal op

/-! ### The cache -/

theorem execute_clocked (c : Clocked) (key : Bytes) (op : Operation) :
    (RecordStore.execute c key op).1 = (c.store.execute c.now key op).1 := rfl

theorem run_execute_clocked (c : Clocked) (key : Bytes) (op : Operation) :
    Cache.Ask.run c (.execute key op) = ⟨(c.store.execute c.now key op).2, c.now⟩ := rfl

/-- What a cache answers to an operation on a key that comes right after another one on it. -/
theorem perform_of_store {α : Type} {c c' : Cache Clocked} {first : Operation}
    (h : c'.store = Cache.Ask.run c.store (.execute key first)) (op : Operation)
    (pick : Answer → α) (count : Cache.Counters → α → Cache.Counters) :
    (c'.perform key op pick count).1 =
      ((c.store.store.execute c.store.now key first).2.execute c.store.now key op).1.map pick := by
  rw [Cache.perform_fst, h, execute_clocked, run_execute_clocked]

theorem exists_of_perform {α : Type} {c : Cache Clocked} {op : Operation} {pick : Answer → α}
    {count : Cache.Counters → α → Cache.Counters} {a : α}
    (h : (c.perform key op pick count).1 = .ok a) :
    ∃ answer, (c.store.store.execute c.store.now key op).1 = .ok answer ∧ pick answer = a := by
  rw [Cache.perform_fst, execute_clocked] at h
  cases hr : (c.store.store.execute c.store.now key op).1 with
  | error e => rw [hr] at h; cases h
  | ok answer =>
    rw [hr] at h
    exact ⟨answer, rfl, Except.ok.inj h⟩

/-- **An accepted write can be read back exactly if its timestamp is normal.**  After any run of a
cache, and with the clock standing still: a read after an accepted set serves its value, and a read
or a set after an accepted invalidation is answered, if the timestamp is normal.  If it is not, they
all fail because the record is corrupt, after an invalidation at least as long as the retention time
counts for anything. -/
theorem readable_iff_normal (config : Config) (start : Instant) (steps : List Step)
    (key : Bytes) (ts : Timestamp) :
    let c := afterSteps (.ofStore ⟨empty config, start⟩) steps
    (∀ value, (c.set key value ts).1 = .ok .accepted →
      ((c.set key value ts).2.get key).1 =
        if ts.Normal then .ok (some value) else .error (Slot.notNormal key .write)) ∧
    ((c.invalidate key ts).1 = .ok .accepted →
      (ts.Normal →
        (∃ found, ((c.invalidate key ts).2.get key).1 = .ok found) ∧
        ∀ value, ∃ outcome, ((c.invalidate key ts).2.set key value ts).1 = .ok outcome) ∧
      (¬ ts.Normal → c.store.now < c.store.now.addMillis config.retention →
        ((c.invalidate key ts).2.get key).1 = .error (Slot.notNormal key .invalidate) ∧
        ∀ value, ((c.invalidate key ts).2.set key value ts).1 =
          .error (Slot.notNormal key .invalidate))) := by
  intro c
  have hstore : c.store.store =
      (empty config).after (timeline start steps) := by
    rw [show c.store = _ from store_afterSteps _ steps]
    rfl
  have hm : c.store.store.WellFormed := by
    rw [hstore]
    exact wellFormed_after (wellFormed_empty config) _
  have hconfig : c.store.store.config = config := by
    rw [hstore]
    exact config_after (wellFormed_empty config) _
  constructor
  · intro value haccepted
    obtain ⟨answer, hanswer, ha⟩ := exists_of_perform haccepted
    have hget : ((c.set key value ts).2.get key).1 = _ :=
      perform_of_store (Cache.store_set c key value ts) .get Answer.value Cache.Counters.countGet
    rw [hget, execute_get_of_accepted_set hm hanswer ha]
    split <;> rfl
  · intro haccepted
    obtain ⟨answer, hanswer, ha⟩ := exists_of_perform haccepted
    have hnext := execute_of_accepted_invalidate hm hanswer ha
    rw [hconfig] at hnext
    have hget : ((c.invalidate key ts).2.get key).1 = _ :=
      perform_of_store (Cache.store_invalidate c key ts) .get Answer.value Cache.Counters.countGet
    have hset : ∀ value, ((c.invalidate key ts).2.set key value ts).1 = _ := fun value =>
      perform_of_store (Cache.store_invalidate c key ts) (.set value ts) Answer.outcome
        Cache.Counters.countSet
    constructor
    · intro hnormal
      constructor
      · obtain ⟨found, hfound⟩ := (hnext .get).1 hnormal
        exact ⟨found.value, by rw [hget, hfound]; rfl⟩
      · intro value
        obtain ⟨found, hfound⟩ := (hnext (.set value ts)).1 hnormal
        exact ⟨found.outcome, by rw [hset, hfound]; rfl⟩
    · intro hnormal hlater
      constructor
      · rw [hget, (hnext .get).2 hnormal hlater]
        rfl
      · intro value
        rw [hset, (hnext _).2 hnormal hlater]
        rfl

/-- A key with a value is invalidated at a negative number of nanoseconds, and cannot be read any
more. -/
theorem readable_iff_normal_negative :
    let c : Cache Clocked := afterSteps (.ofStore ⟨empty {}, ⟨0⟩⟩) [.call (.set [1] [7] ⟨3, 0⟩)]
    (c.invalidate [1] ⟨5, -1⟩).1 = .ok .accepted ∧
      ((c.invalidate [1] ⟨5, -1⟩).2.get [1]).1 = .error (Slot.notNormal [1] .invalidate) := by
  intro c
  have haccepted : (c.invalidate [1] ⟨5, -1⟩).1 = .ok .accepted := by decide +kernel
  have hlater : c.store.now < c.store.now.addMillis 120000 := by decide +kernel
  refine ⟨haccepted, ?_⟩
  exact (((readable_iff_normal {} ⟨0⟩ _ [1] ⟨5, -1⟩).2 haccepted).2 (by decide) hlater).1

/-- A set whose nanoseconds make a full second is accepted, and the next read fails. -/
theorem not_readable_of_full_second :
    let c : Cache Clocked := .ofStore ⟨empty {}, ⟨0⟩⟩
    (c.set [107] [118] ⟨1, 1000000000⟩).1 = .ok .accepted ∧
      ((c.set [107] [118] ⟨1, 1000000000⟩).2.get [107]).1 =
        .error (Slot.notNormal [107] .write) := by
  intro c
  have haccepted : (c.set [107] [118] ⟨1, 1000000000⟩).1 = .ok .accepted := by decide +kernel
  refine ⟨haccepted, ?_⟩
  decide +kernel

end MemoryStore

end CoherentCache
