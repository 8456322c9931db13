import CoherentCache.Store

/-!
# The cache

The cache is what callers use: it runs single operations and batches on a record store and counts
how they came out.  It keeps no records of its own.

* `Cache.set`, `Cache.invalidate`, `Cache.get` : single operations.
* `Cache.setAll`, `Cache.invalidateAll`, `Cache.getAll` : batches, one operation after another.
* `Cache.firstError` : the failure that a batch reports for itself.
-/

namespace CoherentCache

namespace Cache

/-- What the cache counts. -/
structure Counters where
  /-- Sets that were accepted. -/
  setsAccepted : Nat := 0
  /-- Sets that were rejected. -/
  setsRejected : Nat := 0
  /-- Invalidations that were accepted. -/
  invalidationsAccepted : Nat := 0
  /-- Invalidations that were rejected. -/
  invalidationsRejected : Nat := 0
  /-- Reads that were served a value. -/
  hits : Nat := 0
  /-- Reads that found no visible value. -/
  misses : Nat := 0
  /-- Operations that failed in the store. -/
  storeErrors : Nat := 0
deriving DecidableEq

namespace Counters

/-- Counts the outcome of a set. -/
def countSet (c : Counters) : Outcome → Counters
  | .accepted => { c with setsAccepted := c.setsAccepted + 1 }
  | .rejected => { c with setsRejected := c.setsRejected + 1 }

/-- Counts the outcome of an invalidation. -/
def countInvalidation (c : Counters) : Outcome → Counters
  | .accepted => { c with invalidationsAccepted := c.invalidationsAccepted + 1 }
  | .rejected => { c with invalidationsRejected := c.invalidationsRejected + 1 }

/-- Counts a read. -/
def countGet (c : Counters) : Option Bytes → Counters
  | some _ => { c with hits := c.hits + 1 }
  | none => { c with misses := c.misses + 1 }

/-- Counts an operation that failed in the store. -/
def countError (c : Counters) : Counters := { c with storeErrors := c.storeErrors + 1 }

end Counters

end Cache

/-- A record store with counters in front of it. -/
structure Cache (σ : Type) where
  /-- The store. -/
  store : σ
  /-- What the cache counted. -/
  counters : Cache.Counters

namespace Cache

variable {σ : Type}

/-- A cache that has counted nothing yet. -/
def ofStore (store : σ) : Cache σ := ⟨store, {}⟩

/-- Changes the store, for what the store alone concerns. -/
def mapStore (c : Cache σ) (f : σ → σ) : Cache σ := { c with store := f c.store }

variable [RecordStore σ]

/-- Runs an operation on the store and counts it: `pick` takes the result out of the store's answer
and `count` counts that result. -/
def perform {α : Type} (c : Cache σ) (key : Bytes) (op : Operation) (pick : Answer → α)
    (count : Counters → α → Counters) : Except StoreError α × Cache σ :=
  match RecordStore.execute c.store key op with
  | (.error e, store) => (.error e, ⟨store, c.counters.countError⟩)
  | (.ok answer, store) => (.ok (pick answer), ⟨store, count c.counters (pick answer)⟩)

/-- Stores a value that was current at a timestamp. -/
def set (c : Cache σ) (key value : Bytes) (ts : Timestamp) : Except StoreError Outcome × Cache σ :=
  c.perform key (.set value ts) Answer.outcome Counters.countSet

/-- Refuses every value of a key that is older than a timestamp. -/
def invalidate (c : Cache σ) (key : Bytes) (ts : Timestamp) :
    Except StoreError Outcome × Cache σ :=
  c.perform key (.invalidate ts) Answer.outcome Counters.countInvalidation

/-- Reads the visible value of a key; `none` is a miss. -/
def get (c : Cache σ) (key : Bytes) : Except StoreError (Option Bytes) × Cache σ :=
  c.perform key .get Answer.value Counters.countGet

/-- Shows the record of a key.  Nothing is counted. -/
def inspect (c : Cache σ) (key : Bytes) : Except StoreError (Option Snapshot) × Cache σ :=
  let (shown, store) := RecordStore.inspect c.store key
  (shown, { c with store })

/-! ### Batches -/

/-- Runs a step for each item in turn, going on past failures. -/
def forEach {α β : Type} (step : Cache σ → α → β × Cache σ) :
    Cache σ → List α → List β × Cache σ
  | c, [] => ([], c)
  | c, item :: rest =>
    let (result, c) := step c item
    let (results, c) := forEach step c rest
    (result :: results, c)

/-- Stores values that were all current at one timestamp. -/
def setAll (c : Cache σ) (items : List (Bytes × Bytes)) (ts : Timestamp) :
    List (Except StoreError Outcome) × Cache σ :=
  c.forEach (fun c item => c.set item.1 item.2 ts) items

/-- Invalidates keys, all with one timestamp. -/
def invalidateAll (c : Cache σ) (keys : List Bytes) (ts : Timestamp) :
    List (Except StoreError Outcome) × Cache σ :=
  c.forEach (fun c key => c.invalidate key ts) keys

/-- Reads the visible values of keys. -/
def getAll (c : Cache σ) (keys : List Bytes) : List (Except StoreError (Option Bytes)) × Cache σ :=
  c.forEach get keys

/-- The failure that a batch as a whole reports: the first one.  A failure of kind `none` says
nothing and gives way to the next. -/
def firstError {α : Type} (results : List (Except StoreError α)) : Option StoreError :=
  results.foldl keepFirst none
where
  /-- The failure kept so far, after one more result. -/
  keepFirst (first : Option StoreError) (result : Except StoreError α) : Option StoreError :=
    match first, result with
    | none, .error e => some e
    | some f, .error e => if f.kind = .none then some e else some f
    | first, .ok _ => first

/-! ### Report -/

/-- A report on the store and on what the cache counted. -/
def info (c : Cache σ) : Bytes :=
  RecordStore.info c.store ++
  Bytes.reportLine "sets_accepted" (Decimal.ofNat c.counters.setsAccepted) ++
  Bytes.reportLine "sets_rejected" (Decimal.ofNat c.counters.setsRejected) ++
  Bytes.reportLine "invalidations_accepted" (Decimal.ofNat c.counters.invalidationsAccepted) ++
  Bytes.reportLine "invalidations_rejected" (Decimal.ofNat c.counters.invalidationsRejected) ++
  Bytes.reportLine "hits" (Decimal.ofNat c.counters.hits) ++
  Bytes.reportLine "misses" (Decimal.ofNat c.counters.misses) ++
  Bytes.reportLine "store_errors" (Decimal.ofNat c.counters.storeErrors)

end Cache

end CoherentCache
