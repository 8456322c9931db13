import CoherentCache.Pipeline
import CoherentCache.Proofs.Cache.Asks

/-!
# What calls of a pipeline ask of the store

Each half of a call comes down to a reading of the clock and operations of one kind: lookups are
reads, rows are sets with one timestamp, and updates end in invalidations with one timestamp.

* `Pipeline.cache_lookup`, `Pipeline.cache_storeRows` : what lookups and rows that are cached do to
  the cache, and nothing but that.
* `Pipeline.store_lookup`, `Pipeline.store_storeRows`, `Pipeline.store_invalidateKeys` : lookups,
  rows that are cached and keys that are invalidated, as operations of the store.
* `Pipeline.store_beginRead`, `Pipeline.store_beginReadMany` : the first halves of reads, which read
  the clock.
* `Pipeline.store_endPopulate`, `Pipeline.store_endRead`, `Pipeline.store_endReadMany` : the second
  halves of calls that ask the source for rows, which cache nothing but forms of what it answered.
* `Pipeline.store_endUpdate` : the second half of an update, which reads the clock.
-/

namespace CoherentCache

namespace Pipeline

open Cache (Ask)

variable {σ ρ : Type} (policy : Policy σ ρ) (p : Pipeline σ)

/-- The store of a pipeline. -/
def store (p : Pipeline σ) : σ := p.cache.store

/-- The cached forms of what the source answered.  When it fails there are none. -/
def Policy.forms (policy : Policy σ ρ) : Except Bytes (List ρ) → List Bytes
  | .error _ => []
  | .ok rows => rows.map policy.encode

@[simp] theorem cache_note (entry : LogEntry) : (p.note policy entry).cache = p.cache := by
  unfold note
  split <;> rfl

theorem cache_degrade (key : Bytes) (e : StoreError) (cacheable : Bool) :
    (p.degrade policy key e cacheable).2.cache = p.cache := by
  unfold degrade
  split
  · exact cache_note ..
  · exact cache_note ..

theorem cache_countSet (key : Bytes) (result : Except StoreError Outcome) :
    (p.countSet policy key result).cache = p.cache := by
  unfold countSet
  split
  · exact cache_note ..
  · rfl
  · rfl

theorem cache_countSets (results : List ((Bytes × Bytes) × Except StoreError Outcome)) :
    (p.countSets policy results).cache = p.cache := by
  induction results generalizing p with
  | nil => rfl
  | cons result rest ih =>
    rw [countSets, ih, cache_countSet]

variable [RecordStore σ]

/-- A lookup asks the cache for the key and for nothing else. -/
theorem cache_lookup (key : Bytes) : (p.lookup policy key).2.cache = (p.cache.get key).2 := by
  unfold lookup
  rcases p.cache.get key with ⟨e | _ | value, cache⟩
  · exact cache_degrade ..
  · rfl
  · simp only
    cases policy.decode value with
    | error why => exact cache_degrade ..
    | ok row => rfl

theorem store_lookup (key : Bytes) :
    (p.lookup policy key).2.store = Ask.run p.store (.execute key .get) := by
  rw [store, cache_lookup]
  exact Cache.store_get p.cache key

/-- Lookups read their keys in turn, and those that follow a failed one are not made. -/
theorem store_lookupAll (store : Bool) (keys : List Bytes) :
    ∃ asked, asked <+: keys ∧ (p.lookupAll policy store keys).2.store =
      (asked.map fun key => Ask.execute key .get).foldl Ask.run p.store := by
  induction keys generalizing p with
  | nil => exact ⟨[], List.prefix_refl _, rfl⟩
  | cons key rest ih =>
    have hlookup := store_lookup policy p key
    unfold lookupAll
    rcases h : p.lookup policy key with ⟨f | found, q⟩
    · rw [h] at hlookup
      exact ⟨[key], by simp, hlookup⟩
    · rw [h] at hlookup
      obtain ⟨asked, hasked, hq⟩ := ih q
      refine ⟨key :: asked, by simpa using hasked, ?_⟩
      rw [show q.store = _ from hlookup] at hq
      simp only
      rcases hrest : q.lookupAll policy store rest with ⟨f | wanted, q'⟩
      · rw [hrest] at hq
        exact hq
      · rw [hrest] at hq
        exact hq

/-- Rows are cached by sets that are made in turn. -/
theorem cache_storeRows (items : List (Bytes × Bytes)) (ts : Timestamp) :
    (p.storeRows policy items ts).2.cache = (p.cache.setAll items ts).2 := cache_countSets ..

theorem store_storeRows (items : List (Bytes × Bytes)) (ts : Timestamp) :
    (p.storeRows policy items ts).2.store =
      (items.map fun item => Ask.execute item.1 (.set item.2 ts)).foldl Ask.run p.store := by
  rw [store, cache_storeRows]
  exact Cache.store_forEach (fun c item => Cache.store_set c item.1 item.2 ts) p.cache items

theorem store_invalidateKey (ts : Timestamp) (key : Bytes) :
    (p.invalidateKey policy ts key).2.store = Ask.run p.store (.execute key (.invalidate ts)) := by
  have hinvalidate := Cache.store_invalidate p.cache key ts
  unfold invalidateKey
  rcases h : p.cache.invalidate key ts with ⟨e | outcome, cache⟩
  · rw [h] at hinvalidate
    exact (congrArg Cache.store (cache_note policy _ _)).trans hinvalidate
  · rw [h] at hinvalidate
    exact hinvalidate

/-- Keys are invalidated with one timestamp, past failures. -/
theorem store_invalidateKeys (ts : Timestamp) (keys : List Bytes) :
    (p.invalidateKeys policy ts keys).2.store =
      (keys.map fun key => Ask.execute key (.invalidate ts)).foldl Ask.run p.store := by
  induction keys generalizing p with
  | nil => rfl
  | cons key rest ih =>
    simp only [invalidateKeys]
    rw [ih, store_invalidateKey]
    rfl

/-! ### The halves of calls -/

/-- The first half of a read reads the clock, and its ticket carries what it read. -/
theorem store_beginRead (key : Bytes) (keep : Bool) :
    (p.beginRead policy key keep).2.store =
        Ask.run (policy.clock p.store).2 (.execute key .get) ∧
      ∀ ticket, (p.beginRead policy key keep).1 = .waiting ticket →
        ticket.ts = (policy.clock p.store).1 := by
  have hlookup := store_lookup policy (p.readClock policy).2 key
  simp only [beginRead]
  rcases hrun : (p.readClock policy).2.lookup policy key with ⟨f | ⟨row, cacheable⟩, q⟩
  · rw [hrun] at hlookup
    exact ⟨hlookup, fun ticket hticket => by cases hticket⟩
  · rw [hrun] at hlookup
    cases row with
    | none =>
      refine ⟨hlookup, fun ticket hticket => ?_⟩
      cases hticket
      rfl
    | some row => exact ⟨hlookup, fun ticket hticket => by cases hticket⟩

/-- The first half of a batched read reads the clock, and its ticket carries what it read. -/
theorem store_beginReadMany (keys : List Bytes) (keep : Bool) :
    (∃ asked, asked <+: keys ∧ (p.beginReadMany policy keys keep).2.store =
        (asked.map fun key => Ask.execute key .get).foldl Ask.run (policy.clock p.store).2) ∧
      ∀ ticket, (p.beginReadMany policy keys keep).1 = .waiting ticket →
        ticket.ts = (policy.clock p.store).1 := by
  obtain ⟨asked, hasked, hlookup⟩ := store_lookupAll policy (p.readClock policy).2 keep keys
  simp only [beginReadMany]
  rcases hrun : (p.readClock policy).2.lookupAll policy keep keys with ⟨f | wanted, q⟩
  · rw [hrun] at hlookup
    exact ⟨⟨asked, hasked, hlookup⟩, fun ticket hticket => by cases hticket⟩
  · rw [hrun] at hlookup
    simp only
    split
    · exact ⟨⟨asked, hasked, hlookup⟩, fun ticket hticket => by cases hticket⟩
    · refine ⟨⟨asked, hasked, hlookup⟩, fun ticket hticket => ?_⟩
      cases hticket
      rfl

theorem store_endPopulate (ts : Timestamp) (fetched : Except Bytes (List ρ)) :
    ∃ items : List (Bytes × Bytes), (∀ item ∈ items, item.2 ∈ policy.forms fetched) ∧
      (p.endPopulate policy ts fetched).2.store =
        (items.map fun item => Ask.execute item.1 (.set item.2 ts)).foldl Ask.run p.store := by
  cases fetched with
  | error text => exact ⟨[], fun item h => (by cases h), rfl⟩
  | ok rows =>
    refine ⟨_, fun item hitem => ?_, store_storeRows policy p _ ts⟩
    obtain ⟨row, hrow, rfl⟩ := List.mem_map.1 hitem
    exact List.mem_map_of_mem hrow

theorem store_endRead (ticket : ReadTicket) (fetched : Except Bytes (List ρ)) :
    ∃ items : List (Bytes × Bytes), (∀ item ∈ items, item.2 ∈ policy.forms fetched) ∧
      (p.endRead policy ticket fetched).2.store =
        (items.map fun item => Ask.execute item.1 (.set item.2 ticket.ts)).foldl Ask.run
          p.store := by
  rcases fetched with text | (_ | ⟨row, rest⟩)
  · exact ⟨[], fun item h => (by cases h), rfl⟩
  · exact ⟨[], fun item h => (by cases h), rfl⟩
  · simp only [endRead]
    split
    · refine ⟨[(ticket.key, policy.encode row)], fun item hitem => ?_,
        store_storeRows policy p [(ticket.key, policy.encode row)] ticket.ts⟩
      obtain rfl := List.mem_singleton.1 hitem
      exact List.mem_cons_self ..
    · exact ⟨[], fun item h => (by cases h), rfl⟩

omit [RecordStore σ] in
/-- What is cached for a key that was wanted is the form of a row that the source answered. -/
theorem item?_mem_forms {rows : List ρ} {w : Wanted ρ} {item : Bytes × Bytes}
    (h : w.item? policy rows = some item) : item.2 ∈ policy.forms (.ok rows) := by
  unfold Wanted.item? at h
  split at h
  · next hwanted =>
    obtain ⟨row, hrow, rfl⟩ := Option.map_eq_some_iff.1 h
    -- The cache served no row for this key.
    have hnone : w.row = none := by
      simpa using (Bool.and_eq_true_iff.1 hwanted).1
    rw [Wanted.resolve, hnone] at hrow
    exact List.mem_map_of_mem (List.mem_of_find?_eq_some hrow)
  · cases h

theorem store_endReadMany (ticket : ManyTicket ρ) (fetched : Except Bytes (List ρ)) :
    ∃ items : List (Bytes × Bytes), (∀ item ∈ items, item.2 ∈ policy.forms fetched) ∧
      (p.endReadMany policy ticket fetched).2.store =
        (items.map fun item => Ask.execute item.1 (.set item.2 ticket.ts)).foldl Ask.run
          p.store := by
  cases fetched with
  | error text => exact ⟨[], fun item h => (by cases h), rfl⟩
  | ok rows =>
    refine ⟨_, fun item hitem => ?_, store_storeRows policy p _ ticket.ts⟩
    obtain ⟨w, -, hw⟩ := List.mem_filterMap.1 hitem
    exact item?_mem_forms policy hw

/-- The second half of an update reads the clock and invalidates with what it read. -/
theorem store_endUpdate (keys : List Bytes) :
    (p.endUpdate policy keys (.ok ())).2.store =
      (keys.map fun key => Ask.execute key (.invalidate (policy.clock p.store).1)).foldl Ask.run
        (policy.clock p.store).2 := by
  have hkeys := store_invalidateKeys policy (p.readClock policy).2 (p.readClock policy).1 keys
  simp only [endUpdate]
  rcases hrun : (p.readClock policy).2.invalidateKeys policy (p.readClock policy).1 keys with
    ⟨_ | ⟨⟨key, e⟩, rest⟩, q⟩
  · rw [hrun] at hkeys
    exact hkeys
  · rw [hrun] at hkeys
    exact hkeys

end Pipeline

end CoherentCache
