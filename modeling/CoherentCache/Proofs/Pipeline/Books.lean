import CoherentCache.Proofs.Pipeline.Populate
import CoherentCache.Proofs.Pipeline.ReadThrough

/-!
# The books of a pipeline

All that a pipeline counts and logs follows from what it asked of the cache and was answered.  Every
read, set and invalidation is counted once when it is answered, and it is logged if it failed.  So
the books can be made up from the history of the store, and each half of each call keeps them in
agreement with it.

* `Stats.count`, `entryOf` : what one thing that happened adds to the counters and to the log.
* `Stats.Balance`, `Stats.balance_count` : **what each kind of happening moves**, by cases.
* `refused` : how many lookups failed a read.
* `Booked` : the counters, the log and the reads that failed are those of the history.
* `Booked.lookup`, `Booked.storeRows`, `Booked.invalidateKey` : each thing that is asked is booked.
* `Booked.beginRead`, `Booked.beginReadMany`, `Booked.endPopulate`, `Booked.endRead`,
  `Booked.endReadMany`, `Booked.endUpdate` : **the halves of calls keep the books.**
-/

namespace CoherentCache

/-! ### Kinds of happenings -/

namespace Happening

/-- A read of a key. -/
@[simp] def isGet : Happening → Bool
  | .executed _ .get _ => true
  | _ => false

/-- A set. -/
@[simp] def isSet : Happening → Bool
  | .executed _ (.set ..) _ => true
  | _ => false

/-- An invalidation. -/
@[simp] def isInvalidate : Happening → Bool
  | .executed _ (.invalidate _) _ => true
  | _ => false

/-- A read that failed in the store. -/
@[simp] def isFailedGet : Happening → Bool
  | .executed _ .get (.error _) => true
  | _ => false

end Happening

namespace Pipeline

variable {σ ρ : Type}

/-- A read that was served a value, but one that is no row. -/
@[simp] def Policy.undecodable (policy : Policy σ ρ) : Happening → Bool
  | .executed _ .get (.ok answer) => answer.value.any fun value => !(policy.decode value).isOk
  | _ => false

/-- A read that fails the call it is made for. -/
@[simp] def Policy.refuses (policy : Policy σ ρ) (e : Happening) : Bool :=
  !policy.bypass && (e.isFailedGet || policy.undecodable e)

/-- With the bypass no read fails its call, and without it every failed lookup does. -/
theorem countP_refuses (policy : Policy σ ρ) (history : List Happening) :
    history.countP policy.refuses =
      if policy.bypass then 0
      else history.countP Happening.isFailedGet + history.countP policy.undecodable := by
  cases hbypass : policy.bypass with
  | true => simp [hbypass]
  | false =>
    induction history with
    | nil => rfl
    | cons e rest ih =>
      -- A read that failed in the store was served no value.
      have hnot : (e.isFailedGet && policy.undecodable e) = false := by
        rcases e with ts | ⟨key, _ | _ | _, _ | answer⟩ | m <;> rfl
      simp only [List.countP_cons, ih, Policy.refuses, hbypass]
      cases hfailed : e.isFailedGet <;> cases hundecodable : policy.undecodable e <;>
        simp_all <;> omega

/-! ### What is counted and logged -/

namespace Stats

/-- A lookup failed: it is passed on to the source, or the read fails. -/
@[simp] def countFailure (policy : Policy σ ρ) (s : Stats) : Stats :=
  if policy.bypass then { s with bypasses := s.bypasses + 1 } else s

/-- Counts the answer to a read. -/
@[simp] def countGet (policy : Policy σ ρ) (s : Stats) : Except StoreError (Option Bytes) → Stats
  | .error _ => s.countFailure policy
  | .ok none => { s with misses := s.misses + 1 }
  | .ok (some value) =>
    match policy.decode value with
    | .error _ => countFailure policy { s with decodeFailures := s.decodeFailures + 1 }
    | .ok _ => { s with hits := s.hits + 1 }

/-- Counts the answer to a set. -/
@[simp] def countSet (s : Stats) : Except StoreError Outcome → Stats
  | .error _ => { s with populateFailures := s.populateFailures + 1 }
  | .ok .accepted => { s with populated := s.populated + 1 }
  | .ok .rejected => { s with populateRejected := s.populateRejected + 1 }

/-- Counts the answer to an invalidation. -/
@[simp] def countInvalidation (s : Stats) : Except StoreError Answer → Stats
  | .error _ => { s with invalidateFailures := s.invalidateFailures + 1 }
  | .ok _ => { s with invalidations := s.invalidations + 1 }

/-- Counts what happened. -/
@[simp] def count (policy : Policy σ ρ) (s : Stats) : Happening → Stats
  | .reading _ | .marked _ => s
  | .executed _ .get result => s.countGet policy (result.map Answer.value)
  | .executed _ (.set ..) result => s.countSet (result.map Answer.outcome)
  | .executed _ (.invalidate _) result => s.countInvalidation result

end Stats

/-- What is logged of a happening. -/
@[simp] def entryOf (policy : Policy σ ρ) : Happening → Option LogEntry
  | .reading _ | .marked _ => none
  | .executed key .get result =>
    match policy.shown (result.map Answer.value) with
    | .error e => some (.getFailed key e policy.bypass)
    | .ok _ => none
  | .executed key (.set ..) result =>
    match result with
    | .error e => some (.setFailed key e)
    | .ok _ => none
  | .executed key (.invalidate ts) result =>
    match result with
    | .error e => some (.invalidateFailed key ts e)
    | .ok _ => none

/-- The counters that a happening moves, and the entry that it makes. -/
structure Stats.Balance (policy : Policy σ ρ) (e : Happening) (s s' : Stats) : Prop where
  /-- A read is a hit, a miss, or passed on to the source, unless it fails its call. -/
  gets : s'.hits + s'.misses + s'.bypasses + (policy.refuses e).toNat =
    s.hits + s.misses + s.bypasses + e.isGet.toNat
  /-- A set is accepted or rejected, or it fails. -/
  sets : s'.populated + s'.populateRejected + s'.populateFailures =
    s.populated + s.populateRejected + s.populateFailures + e.isSet.toNat
  /-- An invalidation is answered, or it fails. -/
  invalidates : s'.invalidations + s'.invalidateFailures =
    s.invalidations + s.invalidateFailures + e.isInvalidate.toNat
  /-- A value that is no row is counted as such. -/
  undecodable : s'.decodeFailures = s.decodeFailures + (policy.undecodable e).toNat
  /-- Whatever failed is logged. -/
  entries : (entryOf policy e).toList.length + (s.populateFailures + s.invalidateFailures) =
    e.isFailedGet.toNat + (policy.undecodable e).toNat +
      (s'.populateFailures + s'.invalidateFailures)

/-- **What each kind of happening moves.** -/
theorem Stats.balance_count (policy : Policy σ ρ) (s : Stats) (e : Happening) :
    Balance policy e s (s.count policy e) := by
  rcases e with ts | ⟨key, op, result⟩ | m
  case reading | marked => constructor <;> simp
  case executed =>
    cases op with
    | set value ts =>
      rcases result with e | ⟨_ | _, value⟩ <;> constructor <;> simp [Except.map] <;> omega
    | invalidate ts =>
      rcases result with e | answer <;> constructor <;> simp <;> omega
    | get =>
      -- A failed lookup is passed on to the source exactly if it does not fail its call.
      cases hbypass : policy.bypass <;> rcases result with e | ⟨outcome, _ | value⟩
      case get.true.ok.some | get.false.ok.some =>
        cases hdecode : policy.decode value <;> constructor <;>
          simp [hbypass, hdecode, Except.map, Except.isOk, Except.toBool, Policy.shown] <;> omega
      all_goals constructor <;> simp [hbypass, Except.map, Policy.shown] <;> omega

/-! ### The books of a history -/

/-- The counters of a history, newest first. -/
def tally (policy : Policy σ ρ) (history : List Happening) : Stats :=
  history.foldr (fun e s => s.count policy e) {}

/-- The log of a history. -/
def logged (policy : Policy σ ρ) (history : List Happening) : List LogEntry :=
  if policy.logging then history.filterMap (entryOf policy) else []

theorem tally_cons (policy : Policy σ ρ) (e : Happening) (rest : List Happening) :
    tally policy (e :: rest) = (tally policy rest).count policy e := rfl

/-- **The counters of a history add up to what happened in it.** -/
theorem tally_balances (policy : Policy σ ρ) (history : List Happening) :
    let s := tally policy history
    s.hits + s.misses + s.bypasses + history.countP policy.refuses =
        history.countP Happening.isGet ∧
      s.populated + s.populateRejected + s.populateFailures = history.countP Happening.isSet ∧
      s.invalidations + s.invalidateFailures = history.countP Happening.isInvalidate ∧
      s.decodeFailures = history.countP policy.undecodable ∧
      (history.filterMap (entryOf policy)).length =
        history.countP Happening.isFailedGet + history.countP policy.undecodable +
          (s.populateFailures + s.invalidateFailures) := by
  induction history with
  | nil => exact ⟨rfl, rfl, rfl, rfl, rfl⟩
  | cons e rest ih =>
    obtain ⟨hgets, hsets, hinvalidates, hundecodable, hentries⟩ := ih
    have hcount := Stats.balance_count policy (tally policy rest) e
    have hone (f : Happening → Bool) : (e :: rest).countP f = rest.countP f + (f e).toNat := by
      rw [List.countP_cons]
      cases f e <;> rfl
    have hlog : ((e :: rest).filterMap (entryOf policy)).length =
        (entryOf policy e).toList.length + (rest.filterMap (entryOf policy)).length := by
      rw [List.filterMap_cons]
      cases entryOf policy e with
      | none => exact (Nat.zero_add _).symm
      | some entry => exact Nat.add_comm ..
    have := hcount.gets
    have := hcount.sets
    have := hcount.invalidates
    have := hcount.undecodable
    have := hcount.entries
    simp only [tally_cons, hone, hlog]
    refine ⟨?_, ?_, ?_, ?_, ?_⟩ <;> omega

/-- The books of a pipeline agree with the history of its store, and `refused` of its reads failed
for want of an answer of the cache. -/
structure Booked (policy : Policy σ ρ) (refused : Nat) (p : Pipeline (Recorded σ)) : Prop where
  /-- The counters are those of the history. -/
  stats_eq : p.stats = tally policy p.store.history
  /-- The log is that of the history. -/
  log_eq : p.log = logged policy p.store.history
  /-- The reads that failed are those that a lookup failed. -/
  refused_eq : refused = p.store.history.countP policy.refuses

variable {policy : Policy σ ρ} {n : Nat} {p q : Pipeline (Recorded σ)}

theorem booked_ofStore (policy : Policy σ ρ) (inner : σ) :
    Booked policy 0 (.ofStore (⟨inner, []⟩ : Recorded σ)) where
  stats_eq := rfl
  log_eq := (ite_self _).symm
  refused_eq := rfl

/-- **What is asked is booked**: when everything that happened since is counted and logged, oldest
first, the books agree again. -/
theorem Booked.append (h : Booked policy n p) (happened : List Happening)
    (hhistory : q.store.history = happened.reverse ++ p.store.history)
    (hstats : q.stats = happened.foldl (Stats.count policy) p.stats)
    (hlog : q.log = noted policy (happened.filterMap (entryOf policy)) ++ p.log) :
    Booked policy (n + happened.countP policy.refuses) q where
  stats_eq := by
    rw [hstats, hhistory, tally, List.foldr_append, List.foldr_reverse, h.stats_eq]
    rfl
  log_eq := by
    rw [hlog, hhistory, h.log_eq, noted, logged, logged, List.filterMap_append,
      List.filterMap_reverse]
    split <;> rfl
  refused_eq := by
    rw [hhistory, List.countP_append, List.countP_reverse, h.refused_eq, Nat.add_comm]

/-- One thing happened, and it is booked. -/
theorem Booked.cons (h : Booked policy n p) (e : Happening)
    (hhistory : q.store.history = e :: p.store.history) (hstats : q.stats = p.stats.count policy e)
    (hlog : q.log = noted policy (entryOf policy e).toList ++ p.log) :
    Booked policy (n + (policy.refuses e).toNat) q := by
  have hone : [e].countP policy.refuses = (policy.refuses e).toNat := by
    rw [List.countP_singleton]
    cases policy.refuses e <;> rfl
  have hentry : [e].filterMap (entryOf policy) = (entryOf policy e).toList := by
    rw [List.filterMap_cons]
    cases entryOf policy e <;> rfl
  rw [← hone]
  exact h.append [e] hhistory hstats (hentry ▸ hlog)

/-- What concerns the store alone leaves the books as they are. -/
theorem Booked.of_history_eq (h : Booked policy n p) {cache : Cache (Recorded σ)}
    (hhistory : cache.store.history = p.store.history) : Booked policy n { p with cache } where
  stats_eq := h.stats_eq.trans (congrArg (tally policy) hhistory.symm)
  log_eq := h.log_eq.trans (congrArg (logged policy) hhistory.symm)
  refused_eq := h.refused_eq.trans (congrArg (List.countP policy.refuses) hhistory.symm)

theorem Booked.readClock (h : Booked policy n p) :
    Booked policy n (p.readClock policy.recorded).2 := by
  have hreading := h.cons (q := (p.readClock policy.recorded).2)
    (.reading (p.store.read policy.clock).1) rfl rfl
    (congrArg (· ++ p.log) (noted_nil policy).symm)
  simpa using hreading

/-! ### Lookups -/

section Lookup

theorem stats_note (policy : Policy σ ρ) (p : Pipeline σ) (entry : LogEntry) :
    (p.note policy entry).stats = p.stats := by
  unfold note
  split <;> rfl

theorem stats_degrade (policy : Policy σ ρ) (p : Pipeline σ) (key : Bytes) (e : StoreError)
    (cacheable : Bool) :
    (p.degrade policy key e cacheable).2.stats = p.stats.countFailure policy := by
  unfold degrade Stats.countFailure
  split
  · exact congrArg (fun s : Stats => { s with bypasses := s.bypasses + 1 }) (stats_note ..)
  · exact stats_note ..

theorem log_degrade (policy : Policy σ ρ) (p : Pipeline σ) (key : Bytes) (e : StoreError)
    (cacheable : Bool) :
    (p.degrade policy key e cacheable).2.log =
      noted policy [.getFailed key e policy.bypass] ++ p.log := by
  unfold degrade
  split
  · exact log_note ..
  · exact log_note ..

variable [RecordStore σ] (policy : Policy σ ρ) (p : Pipeline σ) (key : Bytes)

/-- The read that a lookup makes. -/
def reading : Happening := .executed key .get (RecordStore.execute p.store key .get).1

theorem stats_lookup :
    (p.lookup policy key).2.stats = p.stats.count policy (p.reading key) := by
  show _ = p.stats.countGet policy ((RecordStore.execute p.cache.store key .get).1.map _)
  rw [← Cache.perform_fst p.cache key .get Answer.value Cache.Counters.countGet, ← Cache.get]
  unfold lookup
  rcases p.cache.get key with ⟨e | _ | value, cache⟩
  · exact stats_degrade ..
  · rfl
  · simp only [Stats.countGet]
    cases policy.decode value with
    | error why => exact stats_degrade ..
    | ok row => rfl

theorem log_lookup :
    (p.lookup policy key).2.log = noted policy (entryOf policy (p.reading key)).toList ++ p.log := by
  have hnone : p.log = noted policy [] ++ p.log := congrArg (· ++ p.log) (noted_nil policy).symm
  simp only [reading, store, entryOf]
  rw [← Cache.perform_fst p.cache key .get Answer.value Cache.Counters.countGet, ← Cache.get]
  unfold lookup
  rcases p.cache.get key with ⟨e | _ | value, cache⟩
  · exact log_degrade ..
  · exact hnone
  · simp only [Policy.shown]
    cases policy.decode value with
    | error why => exact log_degrade ..
    | ok row => exact hnone

/-- How many lookups a failure stands for. -/
def Failure.lookups : Failure → Nat
  | .lookup _ => 1
  | .source _ | .notCached .. | .notInvalidated .. => 0

/-- How many lookups failed the call: one, if that is why it failed. -/
def refused {α : Type} : Except Failure α → Nat
  | .error f => f.lookups
  | .ok _ => 0

/-- A lookup fails the call exactly if the read that it makes is one that does. -/
theorem refused_lookup :
    refused (p.lookup policy key).1 = (policy.refuses (p.reading key)).toNat := by
  rw [fst_lookup, show (p.cache.get key).1 = _ from Cache.perform_fst ..]
  simp only [reading, store]
  rcases (RecordStore.execute p.cache.store key .get).1 with e | ⟨outcome, _ | value⟩
  · cases hbypass : policy.bypass <;>
      simp [hbypass, Except.map, Policy.shown, refused, Failure.lookups]
  · simp [Except.map, Policy.shown, refused]
  · cases hbypass : policy.bypass <;> cases hdecode : policy.decode value <;>
      simp [hbypass, hdecode, Except.map, Policy.shown, Except.isOk, Except.toBool, refused,
        Failure.lookups]

end Lookup

variable [RecordStore σ]

/-- **A lookup is booked.** -/
theorem Booked.lookup (h : Booked policy n p) (key : Bytes) :
    Booked policy (n + refused (p.lookup policy.recorded key).1)
      (p.lookup policy.recorded key).2 := by
  rw [refused_lookup]
  refine h.cons (p.reading key) ?_ (stats_lookup ..) (log_lookup ..)
  rw [store_lookup]
  rfl

theorem Booked.lookupAll (h : Booked policy n p) (keep : Bool) (keys : List Bytes) :
    Booked policy (n + refused (p.lookupAll policy.recorded keep keys).1)
      (p.lookupAll policy.recorded keep keys).2 := by
  induction keys generalizing n p with
  | nil => exact h
  | cons key rest ih =>
    have hfirst := h.lookup key
    unfold Pipeline.lookupAll
    rcases hrun : p.lookup policy.recorded key with ⟨f | found, q⟩
    · rw [hrun] at hfirst
      exact hfirst
    · -- This lookup did not fail the call, so what counts is what becomes of the rest.
      rw [hrun] at hfirst
      have hrest := ih hfirst
      rcases hrun' : q.lookupAll policy.recorded keep rest with ⟨f | wanted, q'⟩
      · rw [hrun'] at hrest
        simp only [hrun']
        exact hrest
      · rw [hrun'] at hrest
        simp only [hrun']
        exact hrest

/-! ### Rows and keys -/

/-- The answers to sets are counted one by one. -/
theorem stats_countSets (policy : Policy σ ρ) (p : Pipeline σ) (s : σ)
    (items : List (Bytes × Bytes)) (ts : Timestamp) :
    let sets := executions s (items.map (caching ts))
    (p.countSets policy (items.zip (sets.map outcomeOf))).stats =
      (sets.map Execution.happening).foldl (Stats.count policy) p.stats := by
  induction items generalizing p s with
  | nil => rfl
  | cons item rest ih =>
    have hfirst (c : Execution σ) (hop : c.op = .set item.2 ts) :
        (p.countSet policy item.1 (outcomeOf c)).stats = p.stats.count policy c.happening := by
      obtain ⟨key, op, result, before, after⟩ := c
      obtain rfl : op = .set item.2 ts := hop
      rcases result with e | ⟨_ | _, value⟩
      · exact stats_note ..
      · rfl
      · rfl
    simp only [List.map_cons, executions, List.zip_cons_cons, countSets, List.foldl_cons]
    rw [← hfirst _ rfl]
    exact ih ..

/-- Of sets, what is logged is what failed. -/
theorem filterMap_entryOf_sets (policy : Policy σ ρ) (s : σ) (items : List (Bytes × Bytes))
    (ts : Timestamp) :
    let sets := executions s (items.map (caching ts))
    (sets.map Execution.happening).filterMap (entryOf policy) =
      (sets.filterMap Execution.failure?).map fun f => .setFailed f.1 f.2 := by
  induction items generalizing s with
  | nil => rfl
  | cons item rest ih =>
    simp only [List.map_cons, executions, List.filterMap_cons]
    rw [ih]
    simp only [caching, Execution.of, Execution.happening, Execution.failure?]
    rcases RecordStore.execute s item.1 (.set item.2 ts) with ⟨_ | _, _⟩ <;> rfl

/-- **Rows that are cached are booked**, whatever becomes of them. -/
theorem Booked.storeRows (h : Booked policy n p) (items : List (Bytes × Bytes)) (ts : Timestamp) :
    Booked policy n (p.storeRows policy.recorded items ts).2 := by
  let sets := executions p.store (items.map (caching ts))
  have hstore : (p.storeRows policy.recorded items ts).2.store =
      executed p.store (items.map (caching ts)) := by
    rw [store_storeRows, executed, List.map_map]
    rfl
  have hnone : (sets.map Execution.happening).countP policy.refuses = 0 := by
    refine List.countP_eq_zero.2 fun e he => ?_
    obtain ⟨c, hc, rfl⟩ := List.mem_map.1 he
    have hask : (c.key, c.op) ∈ items.map (caching ts) :=
      map_executions p.store (items.map (caching ts)) ▸ List.mem_map_of_mem hc
    obtain ⟨item, -, hitem⟩ := List.mem_map.1 hask
    have hop : c.op = .set item.2 ts := (congrArg Prod.snd hitem).symm
    simp [Execution.happening, hop]
  have hbooked := h.append (q := (p.storeRows policy.recorded items ts).2)
    (sets.map Execution.happening)
  rw [hnone] at hbooked
  refine hbooked ?_ ?_ ?_
  · rw [hstore, history_executed]
  · have hanswers : (p.cache.setAll items ts).1 = _ := fst_setAll ts p.cache items
    simp only [Pipeline.storeRows]
    rw [hanswers]
    exact stats_countSets policy.recorded _ p.store items ts
  · have hentries : (sets.map Execution.happening).filterMap (entryOf policy) = _ :=
      filterMap_entryOf_sets policy.recorded p.store items ts
    rw [hentries]
    exact log_storeRows ts policy.recorded p items

/-- **A key that is invalidated is booked**, whatever becomes of it. -/
theorem Booked.invalidateKey (h : Booked policy n p) (ts : Timestamp) (key : Bytes) :
    Booked policy n (p.invalidateKey policy.recorded ts key).2 := by
  have hstore := store_invalidateKey policy.recorded p ts key
  have hbooked := h.cons (q := (p.invalidateKey policy.recorded ts key).2)
    (.executed key (.invalidate ts) (RecordStore.execute p.store key (.invalidate ts)).1)
  have hnone : policy.refuses
      (.executed key (.invalidate ts) (RecordStore.execute p.store key (.invalidate ts)).1) =
        false := by simp
  rw [hnone] at hbooked
  refine hbooked ?_ ?_ ?_
  · rw [hstore]
    rfl
  · simp only [Pipeline.invalidateKey, Cache.invalidate, Cache.perform, store]
    rcases RecordStore.execute p.cache.store key (.invalidate ts) with ⟨e | answer, after⟩
    · exact stats_note ..
    · rfl
  · simp only [Pipeline.invalidateKey, Cache.invalidate, Cache.perform, store]
    rcases RecordStore.execute p.cache.store key (.invalidate ts) with ⟨e | answer, after⟩
    · exact log_note ..
    · exact congrArg (· ++ p.log) (noted_nil policy).symm

theorem Booked.invalidateKeys (h : Booked policy n p) (ts : Timestamp) (keys : List Bytes) :
    Booked policy n (p.invalidateKeys policy.recorded ts keys).2 := by
  induction keys generalizing p with
  | nil => exact h
  | cons key rest ih => exact ih (h.invalidateKey ts key)

/-! ### The halves of calls -/

/-- How many lookups failed a call in its first half. -/
def Half.refused {τ α : Type} : Half τ α → Nat
  | .finished result => Pipeline.refused result
  | .waiting _ => 0

theorem Booked.beginRead (h : Booked policy n p) (key : Bytes) (keep : Bool) :
    Booked policy (n + (p.beginRead policy.recorded key keep).1.refused)
      (p.beginRead policy.recorded key keep).2 := by
  have hlookup := h.readClock.lookup key
  simp only [Pipeline.beginRead]
  rcases hrun : (p.readClock policy.recorded).2.lookup policy.recorded key with
    ⟨f | ⟨_ | row, _⟩, q⟩ <;>
  · rw [hrun] at hlookup
    exact hlookup

theorem Booked.beginReadMany (h : Booked policy n p) (keys : List Bytes) (keep : Bool) :
    Booked policy (n + (p.beginReadMany policy.recorded keys keep).1.refused)
      (p.beginReadMany policy.recorded keys keep).2 := by
  have hlookups := h.readClock.lookupAll keep keys
  simp only [Pipeline.beginReadMany]
  rcases hrun : (p.readClock policy.recorded).2.lookupAll policy.recorded keep keys with
    ⟨f | wanted, q⟩
  · rw [hrun] at hlookups
    exact hlookups
  · rw [hrun] at hlookups
    simp only
    split
    · exact hlookups
    · exact hlookups

theorem Booked.endPopulate (h : Booked policy n p) (ts : Timestamp)
    (fetched : Except Bytes (List ρ)) :
    Booked policy (n + refused (p.endPopulate policy.recorded ts fetched).1)
      (p.endPopulate policy.recorded ts fetched).2 := by
  cases fetched with
  | error text => exact h
  | ok rows => exact h.storeRows _ ts

theorem Booked.endRead (h : Booked policy n p) (ticket : ReadTicket)
    (fetched : Except Bytes (List ρ)) :
    Booked policy (n + refused (p.endRead policy.recorded ticket fetched).1)
      (p.endRead policy.recorded ticket fetched).2 := by
  rcases fetched with text | _ | ⟨row, rest⟩
  · exact h
  · exact h
  · simp only [Pipeline.endRead]
    split
    · exact h.storeRows [(ticket.key, policy.encode row)] ticket.ts
    · exact h

theorem Booked.endReadMany (h : Booked policy n p) (ticket : ManyTicket ρ)
    (fetched : Except Bytes (List ρ)) :
    Booked policy (n + refused (p.endReadMany policy.recorded ticket fetched).1)
      (p.endReadMany policy.recorded ticket fetched).2 := by
  cases fetched with
  | error text => exact h
  | ok rows => exact h.storeRows _ ticket.ts

theorem Booked.endUpdate (h : Booked policy n p) (keys : List Bytes) (mutated : Except Bytes Unit) :
    Booked policy (n + refused (p.endUpdate policy.recorded keys mutated).1)
      (p.endUpdate policy.recorded keys mutated).2 := by
  cases mutated with
  | error text => exact h
  | ok =>
    have hkeys := h.readClock.invalidateKeys (p.readClock policy.recorded).1 keys
    simp only [Pipeline.endUpdate]
    rcases hrun : (p.readClock policy.recorded).2.invalidateKeys policy.recorded _ keys with
      ⟨_ | ⟨⟨key, e⟩, rest⟩, q⟩ <;>
    · rw [hrun] at hkeys
      exact hkeys

end Pipeline

end CoherentCache
