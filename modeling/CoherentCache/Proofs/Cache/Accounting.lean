import CoherentCache.Proofs.Cache.Asks
import CoherentCache.Proofs.MemoryStore.Conservation

/-!
# What a cache counts

A cache counts every operation that it runs in one of seven counters: an answered one by what became
of it, a failed one as a store error.  The in-memory store counts the operations that reach it.  So
the seven counters add up to the number of calls on single keys, where each item of a batch is a
call of its own, and that is what the store has counted, too.  Looks at records, sweeps, fields that
are put and the passing of time count for nothing.

* `Cache.Counters.total` : the seven counters together.
* `Cache.Call.operations`, `Cache.Told.failures` : the calls on single keys, and those among their
  answers that are errors.
* `Cache.Counts` : what the cache has counted from one state to another.
* `Cache.counts_call`, `MemoryStore.counts_step` : **what one call, and one step of a run, counts.**
* `MemoryStore.accounts_balance` : **the slots and the calls of whole runs.**
-/

namespace CoherentCache

namespace Cache

/-! ### Calls and their answers -/

/-- All that was counted: the seven counters together. -/
def Counters.total (c : Counters) : Nat :=
  c.setsAccepted + c.setsRejected + c.invalidationsAccepted + c.invalidationsRejected + c.hits +
    c.misses + c.storeErrors

/-- How many calls on single keys a call comes down to.  Each item of a batch is one. -/
def Call.operations : Call → Nat
  | .set .. | .invalidate .. | .get _ => 1
  | .setAll items _ => items.length
  | .invalidateAll keys _ | .getAll keys => keys.length
  | .inspect _ | .counters | .info | .name => 0

/-- How many of these answers are errors. -/
def failures {α : Type} (answers : List (Except StoreError α)) : Nat :=
  answers.countP fun answer => !answer.isOk

/-- How many calls on single keys were answered with an error. -/
def Told.failures : Told → Nat
  | .outcome result => Cache.failures [result]
  | .lookup result => Cache.failures [result]
  | .sets results | .invalidations results => Cache.failures results
  | .lookups results => Cache.failures results
  | .snapshot _ | .counters _ | .info _ | .name _ => 0

theorem failures_cons {α : Type} (answer : Except StoreError α)
    (rest : List (Except StoreError α)) :
    failures (answer :: rest) = failures [answer] + failures rest := by
  simp only [failures, List.countP_cons, List.countP_nil]
  omega

variable {σ : Type}

/-- From the one cache to the other, so many operations were counted, and so many of them as
errors. -/
structure Counts (c : Cache σ) (operations failed : Nat) (c' : Cache σ) : Prop where
  /-- Each operation is counted once. -/
  total_eq : c'.counters.total = c.counters.total + operations
  /-- Each that failed is counted as an error. -/
  storeErrors_eq : c'.counters.storeErrors = c.counters.storeErrors + failed

theorem Counts.none {c c' : Cache σ} (h : c'.counters = c.counters) : c.Counts 0 0 c' := by
  constructor <;> rw [h] <;> rfl

theorem Counts.trans {c c' c'' : Cache σ} {n n' failed failed' : Nat} (h : c.Counts n failed c')
    (h' : c'.Counts n' failed' c'') : c.Counts (n + n') (failed + failed') c'' := by
  constructor
  · rw [h'.total_eq, h.total_eq, Nat.add_assoc]
  · rw [h'.storeErrors_eq, h.storeErrors_eq, Nat.add_assoc]

/-- Counting an answer adds one, and not to the errors. -/
def CountsOne {α : Type} (count : Counters → α → Counters) : Prop :=
  ∀ c result, (count c result).total = c.total + 1 ∧ (count c result).storeErrors = c.storeErrors

theorem countsOne_set : CountsOne Counters.countSet := by
  rintro c (_ | _) <;> refine ⟨?_, rfl⟩ <;> simp only [Counters.countSet, Counters.total] <;> omega

theorem countsOne_invalidation : CountsOne Counters.countInvalidation := by
  rintro c (_ | _) <;> refine ⟨?_, rfl⟩ <;>
    simp only [Counters.countInvalidation, Counters.total] <;> omega

theorem countsOne_get : CountsOne Counters.countGet := by
  rintro c (_ | _) <;> refine ⟨?_, rfl⟩ <;> simp only [Counters.countGet, Counters.total] <;> omega

/-- A batch counts what its single calls count. -/
theorem counts_forEach {α β : Type} {step : Cache σ → α → Except StoreError β × Cache σ}
    (h : ∀ (c : Cache σ) (item : α), c.Counts 1 (failures [(step c item).1]) (step c item).2)
    (c : Cache σ) (items : List α) :
    c.Counts items.length (failures (c.forEach step items).1) (c.forEach step items).2 := by
  induction items generalizing c with
  | nil => exact .none rfl
  | cons item rest ih =>
    have hboth := (h c item).trans (ih (step c item).2)
    rw [Nat.add_comm] at hboth
    simp only [forEach]
    rw [failures_cons]
    exact hboth

variable [RecordStore σ]

/-- **An operation is counted once**, and as an error if it failed. -/
theorem counts_perform {α : Type} (c : Cache σ) (key : Bytes) (op : Operation) (pick : Answer → α)
    {count : Counters → α → Counters} (hcount : CountsOne count) :
    c.Counts 1 (failures [(c.perform key op pick count).1]) (c.perform key op pick count).2 := by
  unfold perform
  rcases RecordStore.execute c.store key op with ⟨e | answer, store⟩
  · refine ⟨?_, rfl⟩
    simp only [Counters.countError, Counters.total]
    omega
  · obtain ⟨htotal, herrors⟩ := hcount c.counters (pick answer)
    exact ⟨htotal, herrors⟩

/-- **What a call counts.** -/
theorem counts_call (c : Cache σ) (q : Call) :
    c.Counts q.operations (c.call q).1.failures (c.call q).2 := by
  cases q with
  | set key value ts => exact c.counts_perform key _ _ countsOne_set
  | invalidate key ts => exact c.counts_perform key _ _ countsOne_invalidation
  | get key => exact c.counts_perform key _ _ countsOne_get
  | setAll items ts =>
    exact counts_forEach (fun c item => c.counts_perform item.1 _ _ countsOne_set) c items
  | invalidateAll keys ts =>
    exact counts_forEach (fun c key => c.counts_perform key _ _ countsOne_invalidation) c keys
  | getAll keys => exact counts_forEach (fun c key => c.counts_perform key _ _ countsOne_get) c keys
  | inspect key => exact .none rfl
  | counters => exact .none rfl
  | info => exact .none rfl
  | name => exact .none rfl

/-! ### On the in-memory store -/

/-- What is asked of the store is an operation. -/
def Ask.isOperation : Ask → Bool
  | .execute .. => true
  | .inspect _ => false

/-- The calls on single keys are the operations that the store is asked for. -/
theorem countP_asks (q : Call) : q.asks.countP Ask.isOperation = q.operations := by
  cases q with
  | setAll items ts =>
    rw [Call.asks, List.countP_map]
    exact List.countP_eq_length.2 fun _ _ => rfl
  | invalidateAll keys ts =>
    rw [Call.asks, List.countP_map]
    exact List.countP_eq_length.2 fun _ _ => rfl
  | getAll keys =>
    rw [Call.asks, List.countP_map]
    exact List.countP_eq_length.2 fun _ _ => rfl
  | _ => rfl

end Cache

namespace MemoryStore

open Cache (Ask)

theorem operations_execute (m : MemoryStore) (now : Instant) (key : Bytes) (op : Operation) :
    (m.execute now key op).2.counters.operations = m.counters.operations + 1 := by
  have hsettle (m : MemoryStore) :
      (m.settle now key).counters.operations = m.counters.operations := by
    simp only [settle]
    split <;> rfl
  simp only [execute]
  split
  · exact hsettle _
  · split <;> exact hsettle _

theorem operations_inspect (m : MemoryStore) (now : Instant) (key : Bytes) :
    (m.inspect now key).2.counters.operations = m.counters.operations := by
  simp only [inspect, settle]
  split <;> split <;> rfl

/-- The store counts each operation once. -/
theorem operations_foldl (store : Clocked) (asks : List Ask) :
    (asks.foldl Ask.run store).store.counters.operations =
      store.store.counters.operations + asks.countP Ask.isOperation := by
  induction asks generalizing store with
  | nil => rfl
  | cons ask rest ih =>
    rw [List.foldl_cons, ih, List.countP_cons]
    cases ask with
    | execute key op =>
      have hone := store.store.operations_execute store.now key op
      show (store.store.execute store.now key op).2.counters.operations + _ = _
      rw [hone, Nat.add_assoc, Nat.add_comm 1]
      rfl
    | inspect key =>
      show (store.store.inspect store.now key).2.counters.operations + _ = _
      rw [operations_inspect]
      rfl

/-! ### Runs -/

/-- How many calls on single keys a step makes. -/
def Step.operations : Step → Nat
  | .call q => q.operations
  | .overwrite .. | .sweep | .advance _ | .counters => 0

/-- How many calls on single keys were answered with an error. -/
def Told.failures : Told → Nat
  | .call told => told.failures
  | .done | .counters _ => 0

/-- How many calls on single keys the steps of a run make. -/
def operationsIn (steps : List Step) : Nat := (steps.map Step.operations).foldr (· + ·) 0

/-- How many calls on single keys are answered with an error in the course of a run. -/
def failuresIn (c : Cache Clocked) : List Step → Nat
  | [] => 0
  | q :: rest => (step c q).1.failures + failuresIn (step c q).2 rest

/-- **What a step of a run counts.** -/
theorem counts_step (c : Cache Clocked) (q : Step) :
    c.Counts q.operations (step c q).1.failures (step c q).2 := by
  cases q with
  | call q => exact c.counts_call q
  | overwrite key fields => exact .none rfl
  | sweep => exact .none rfl
  | advance nanos => exact .none rfl
  | counters => exact .none rfl

theorem operations_step (c : Cache Clocked) (q : Step) :
    (step c q).2.store.store.counters.operations =
      c.store.store.counters.operations + q.operations := by
  cases q with
  | call q =>
    show (c.call q).2.store.store.counters.operations = _
    rw [Cache.store_call, operations_foldl, Cache.countP_asks]
    rfl
  | overwrite key fields => rfl
  | sweep => rfl
  | advance nanos => rfl
  | counters => rfl

theorem counts_afterSteps (c : Cache Clocked) (steps : List Step) :
    c.Counts (operationsIn steps) (failuresIn c steps) (afterSteps c steps) := by
  induction steps generalizing c with
  | nil => exact .none rfl
  | cons q rest ih => exact (counts_step c q).trans (ih (step c q).2)

theorem operations_afterSteps (c : Cache Clocked) (steps : List Step) :
    (afterSteps c steps).store.store.counters.operations =
      c.store.store.counters.operations + operationsIn steps := by
  induction steps generalizing c with
  | nil => rfl
  | cons q rest ih =>
    show (afterSteps (step c q).2 rest).store.store.counters.operations = _
    rw [ih, operations_step, Nat.add_assoc]
    rfl

theorem nodup_drops {m : MemoryStore} (hp : m.Placed) (e : Event) : (m.drops e).Nodup := by
  obtain ⟨now, act⟩ := e
  have honly (key : Bytes) : (if m.hasLapsed now key then [key] else []).Nodup := by
    split
    · exact List.nodup_singleton key
    · exact List.nodup_nil
  cases act with
  | sweep => exact (nodup_keys_of_placed hp).filter _
  | access key a =>
    cases a with
    | operate op => exact honly key
    | inspect => exact honly key
    | overwrite fields => exact List.nodup_nil

/-- **The slots and the calls of whole runs.**  After any run of a store, at whatever clock readings,
the keys for which slots were made are those whose slots were dropped together with those that have
one, up to the order; so the size and the expirations together are the slots made.  The next event
drops only slots that have lapsed, each once, and counts just those.  After any run of a cache, the
seven counters together are the calls on single keys, which is also the number of operations that
the store counted, and the store errors are the calls that were answered with an error. -/
theorem accounts_balance (config : Config) :
    (∀ events : List Event,
      let m := (empty config).after events
      let made := (empty config).created events
      let gone := (empty config).dropped events
      made.Perm (gone ++ m.keys) ∧ m.size = m.keys.length ∧
        m.counters.expirations = gone.length ∧
        m.size + m.counters.expirations = made.length ∧
        ∀ e, (m.respond e).2.counters.expirations =
            m.counters.expirations + (m.drops e).length ∧
          (m.drops e).Nodup ∧ ∀ key ∈ m.drops e, m.hasLapsed e.now key = true) ∧
    ∀ (now : Instant) (steps : List Step),
      let start : Cache Clocked := .ofStore ⟨empty config, now⟩
      let c := afterSteps start steps
      c.counters.total = operationsIn steps ∧
        c.store.store.counters.operations = operationsIn steps ∧
        c.counters.storeErrors = failuresIn start steps := by
  refine ⟨fun events => ?_, fun now steps => ?_⟩
  · intro m made gone
    have hstart := wellFormed_empty config
    have hplaced := placed_empty config
    have hempty (i : Nat) : ((empty config).shardAt i).Indexed :=
      shardAt_empty config i ▸ Shard.indexed_empty
    have hm : m.WellFormed := wellFormed_after hstart events
    have hp : m.Placed := placed_after hstart hplaced events
    have hshards : ∀ s ∈ m.shards, s.Indexed := indexed_shards (indexed_reached config events)
    have hperm : (made ++ (empty config).keys).Perm (gone ++ m.keys) :=
      perm_after hstart hplaced events
    rw [keys_empty, List.append_nil] at hperm
    have hgone : m.counters.expirations = gone.length :=
      (expirations_after hstart hplaced hempty events).trans (Nat.zero_add _)
    have hlength := hperm.length_eq
    rw [List.length_append, length_keys] at hlength
    refine ⟨hperm, (length_keys m).symm, hgone, by omega, fun e => ?_⟩
    exact ⟨expirations_respond hm hp hshards e, nodup_drops hp e,
      fun key hkey => hasLapsed_of_mem_drops hm hp hkey⟩
  · intro start c
    have hcounts := counts_afterSteps start steps
    have hoperations := operations_afterSteps start steps
    exact ⟨hcounts.total_eq.trans (Nat.zero_add _), hoperations.trans (Nat.zero_add _),
      hcounts.storeErrors_eq.trans (Nat.zero_add _)⟩

end MemoryStore

end CoherentCache
