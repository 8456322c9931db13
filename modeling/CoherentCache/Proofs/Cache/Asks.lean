import CoherentCache.Cache.Call
import CoherentCache.MemoryStore.Run
import CoherentCache.Proofs.MemoryStore.Timeline

/-!
# What calls of the cache ask of the store

A call of the cache comes down to a list of operations and looks at records, and what it does to the
store is what these do one after another.  So a run of a cache on the in-memory store is a run of
that store.

* `Cache.Call.asks` : what a call asks of the store.
* `Cache.store_call` : the store after a call.
* `MemoryStore.timeline` : the events of a run of a cache on the in-memory store.
* `MemoryStore.store_afterSteps` : the store after such a run.
-/

namespace CoherentCache

namespace Cache

/-- Something that the cache asks of its store. -/
inductive Ask where
  /-- Run an operation on a key. -/
  | execute (key : Bytes) (op : Operation)
  /-- Show the record of a key. -/
  | inspect (key : Bytes)

/-- What a call asks of the store, in order. -/
def Call.asks : Call → List Ask
  | .set key value ts => [.execute key (.set value ts)]
  | .invalidate key ts => [.execute key (.invalidate ts)]
  | .get key => [.execute key .get]
  | .setAll items ts => items.map fun item => .execute item.1 (.set item.2 ts)
  | .invalidateAll keys ts => keys.map fun key => .execute key (.invalidate ts)
  | .getAll keys => keys.map fun key => .execute key .get
  | .inspect key => [.inspect key]
  | .counters | .info | .name => []

variable {σ : Type} [RecordStore σ]

/-- The store after one thing that was asked of it. -/
def Ask.run (store : σ) : Ask → σ
  | .execute key op => (RecordStore.execute store key op).2
  | .inspect key => (RecordStore.inspect store key).2

theorem store_perform {α : Type} (c : Cache σ) (key : Bytes) (op : Operation) (pick : Answer → α)
    (count : Counters → α → Counters) :
    (c.perform key op pick count).2.store = Ask.run c.store (.execute key op) := by
  show _ = (RecordStore.execute c.store key op).2
  unfold perform
  rcases RecordStore.execute c.store key op with ⟨e | answer, store⟩ <;> rfl

theorem perform_fst {α : Type} (c : Cache σ) (key : Bytes) (op : Operation) (pick : Answer → α)
    (count : Counters → α → Counters) :
    (c.perform key op pick count).1 = (RecordStore.execute c.store key op).1.map pick := by
  unfold perform
  rcases RecordStore.execute c.store key op with ⟨e | answer, store⟩ <;> rfl

theorem store_set (c : Cache σ) (key value : Bytes) (ts : Timestamp) :
    (c.set key value ts).2.store = Ask.run c.store (.execute key (.set value ts)) :=
  store_perform ..

theorem store_invalidate (c : Cache σ) (key : Bytes) (ts : Timestamp) :
    (c.invalidate key ts).2.store = Ask.run c.store (.execute key (.invalidate ts)) :=
  store_perform ..

theorem store_get (c : Cache σ) (key : Bytes) :
    (c.get key).2.store = Ask.run c.store (.execute key .get) :=
  store_perform ..

theorem store_forEach {α β : Type} {step : Cache σ → α → β × Cache σ} {ask : α → Ask}
    (h : ∀ c item, (step c item).2.store = Ask.run c.store (ask item)) (c : Cache σ)
    (items : List α) :
    (c.forEach step items).2.store = (items.map ask).foldl Ask.run c.store := by
  induction items generalizing c with
  | nil => rfl
  | cons item rest ih =>
    show ((step c item).2.forEach step rest).2.store = _
    rw [ih, h]
    rfl

/-- **A call does to the store what it asks of it**, one thing after another. -/
theorem store_call (c : Cache σ) (q : Call) : (c.call q).2.store = q.asks.foldl Ask.run c.store := by
  cases q with
  | set key value ts => exact store_set c key value ts
  | invalidate key ts => exact store_invalidate c key ts
  | get key => exact store_get c key
  | setAll items ts => exact store_forEach (fun c item => store_set c item.1 item.2 ts) c items
  | invalidateAll keys ts => exact store_forEach (fun c key => store_invalidate c key ts) c keys
  | getAll keys => exact store_forEach store_get c keys
  | inspect key => rfl
  | counters => rfl
  | info => rfl
  | name => rfl

/-! ### On the in-memory store -/

open MemoryStore (Clocked Event Step)

/-- What is asked of the store, as an event at a clock reading. -/
def Ask.event (now : Instant) : Ask → Event
  | .execute key op => ⟨now, .access key (.operate op)⟩
  | .inspect key => ⟨now, .access key .inspect⟩

theorem run_ask (store : Clocked) (ask : Ask) :
    Ask.run store ask = ⟨(store.store.respond (ask.event store.now)).2, store.now⟩ := by
  cases ask <;> rfl

theorem foldl_run_ask (store : Clocked) (asks : List Ask) :
    asks.foldl Ask.run store =
      ⟨store.store.after (asks.map (Ask.event store.now)), store.now⟩ := by
  induction asks generalizing store with
  | nil => rfl
  | cons ask rest ih =>
    rw [List.foldl_cons, ih, run_ask]
    rfl

end Cache

namespace MemoryStore

/-- The events of a step of a run, at the clock reading at which it is made. -/
def Step.events (now : Instant) : Step → List Event
  | .call q => q.asks.map (Cache.Ask.event now)
  | .overwrite key fields => [⟨now, .access key (.overwrite fields)⟩]
  | .sweep => [⟨now, .sweep⟩]
  | .advance _ | .counters => []

/-- What the clock shows after a step. -/
def Step.clock (now : Instant) : Step → Instant
  | .advance nanos => now.addNanos nanos
  | _ => now

/-- The events of a run that starts when the clock shows `now`. -/
def timeline (now : Instant) : List Step → List Event
  | [] => []
  | q :: rest => q.events now ++ timeline (q.clock now) rest

/-- The cache after the steps of a run. -/
def afterSteps (c : Cache Clocked) (steps : List Step) : Cache Clocked :=
  steps.foldl (fun c q => (step c q).2) c

theorem store_step (c : Cache Clocked) (q : Step) :
    (step c q).2.store =
      ⟨c.store.store.after (q.events c.store.now), q.clock c.store.now⟩ := by
  cases q with
  | call q => exact (Cache.store_call c q).trans (Cache.foldl_run_ask c.store q.asks)
  | overwrite key fields => rfl
  | sweep => rfl
  | advance nanos => rfl
  | counters => rfl

/-- **A run of a cache is a run of its store.** -/
theorem store_afterSteps (c : Cache Clocked) (steps : List Step) :
    (afterSteps c steps).store =
      ⟨c.store.store.after (timeline c.store.now steps), steps.foldl Step.clock c.store.now⟩ := by
  induction steps generalizing c with
  | nil => rfl
  | cons q rest ih =>
    show (afterSteps (step c q).2 rest).store = _
    rw [ih, store_step, timeline, after_append]
    rfl

theorem timeline_append (now : Instant) (steps rest : List Step) :
    timeline now (steps ++ rest) =
      timeline now steps ++ timeline (steps.foldl Step.clock now) rest := by
  induction steps generalizing now with
  | nil => rfl
  | cons q steps ih =>
    rw [List.cons_append, timeline, timeline, ih, List.append_assoc]
    rfl

theorem exists_of_mem_timeline {now : Instant} {steps : List Step} {e : Event}
    (h : e ∈ timeline now steps) : ∃ q ∈ steps, ∃ t, e ∈ q.events t := by
  induction steps generalizing now with
  | nil => cases h
  | cons q rest ih =>
    rcases List.mem_append.1 h with h | h
    · exact ⟨q, List.mem_cons_self .., now, h⟩
    · obtain ⟨q', hq', ht⟩ := ih h
      exact ⟨q', List.mem_cons_of_mem _ hq', ht⟩

theorem events_subset_timeline {steps : List Step} {q : Step} (h : q ∈ steps) (now : Instant) :
    ∃ t, q.events t ⊆ timeline now steps := by
  induction steps generalizing now with
  | nil => cases h
  | cons q' rest ih =>
    rcases List.mem_cons.1 h with rfl | h
    · exact ⟨now, List.subset_append_left ..⟩
    · obtain ⟨t, ht⟩ := ih h (q'.clock now)
      exact ⟨t, fun e he => List.mem_append_right _ (ht he)⟩

end MemoryStore

end CoherentCache
