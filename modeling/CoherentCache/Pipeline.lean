import CoherentCache.Cache

/-!
# Rows through the cache

A pipeline stands between callers and a source of truth that holds rows.  Reads go to the cache
first and to the source when they must; updates go to the source first and then invalidate.

The clock is read before the source is asked for rows and after the source has been changed.  So a
row that was read while an update was under way carries an older timestamp than the invalidation of
that update, and the cache refuses it.

Every call comes in two forms.  In one, the call to the source is an argument.  In the other, the
call is cut in two where the source is called: the first half ends with a ticket, the second half
takes the ticket and what the source said.  Anything may happen to the pipeline in between.

* `Pipeline.populate` : read rows from the source and cache all of them.
* `Pipeline.readThrough` : read one row, from the cache or from the source.
* `Pipeline.readThroughMany` : read several rows, asking the source at most once.
* `Pipeline.update` : change the source, then invalidate keys.
-/

namespace CoherentCache

namespace Pipeline

/-- How rows are cached. -/
structure Policy (σ ρ : Type) where
  /-- The cached form of a row. -/
  encode : ρ → Bytes
  /-- The row of a cached form, or why there is none. -/
  decode : Bytes → Except Bytes ρ
  /-- The key that a row is cached under. -/
  keyOf : ρ → Bytes
  /-- The clock that timestamps are taken from. -/
  clock : σ → Timestamp × σ
  /-- A read that fails in the cache is served from the source. -/
  bypass : Bool := true
  /-- What goes wrong is logged. -/
  logging : Bool := true

/-- What a pipeline counts. -/
structure Stats where
  /-- Lookups that found a row. -/
  hits : Nat := 0
  /-- Lookups that found no value. -/
  misses : Nat := 0
  /-- Lookups that failed and were passed on to the source. -/
  bypasses : Nat := 0
  /-- Rows that the cache accepted. -/
  populated : Nat := 0
  /-- Rows that the cache rejected as too old. -/
  populateRejected : Nat := 0
  /-- Rows that could not be cached. -/
  populateFailures : Nat := 0
  /-- Invalidations that the store answered. -/
  invalidations : Nat := 0
  /-- Invalidations that failed. -/
  invalidateFailures : Nat := 0
  /-- Cached values that were no rows. -/
  decodeFailures : Nat := 0
deriving DecidableEq

/-- An entry of the log. -/
inductive LogEntry where
  /-- A lookup failed, and the source was asked instead or not. -/
  | getFailed (key : Bytes) (error : StoreError) (bypassed : Bool)
  /-- A row could not be cached. -/
  | setFailed (key : Bytes) (error : StoreError)
  /-- A key could not be invalidated. -/
  | invalidateFailed (key : Bytes) (ts : Timestamp) (error : StoreError)
deriving DecidableEq

/-- The text of an entry, with the line feed that ends it. -/
def LogEntry.text (entry : LogEntry) : Bytes :=
  Bytes.ofString "tscache pipeline: " ++ body entry ++ [10]
where
  /-- The text without what comes before and after it in the log. -/
  body : LogEntry → Bytes
    | .getFailed key e bypassed =>
      Bytes.ofString "get failed key=" ++ key ++ Bytes.ofString " error=" ++ e.text ++
        (if bypassed then Bytes.ofString " (bypassing cache)" else [])
    | .setFailed key e =>
      Bytes.ofString "set failed key=" ++ key ++ Bytes.ofString " error=" ++ e.text
    | .invalidateFailed key ts e =>
      Bytes.ofString "invalidate failed key=" ++ key ++ Bytes.ofString " ts=" ++ ts.text ++
        Bytes.ofString " error=" ++ e.text

/-- Why a call of the pipeline did not come off. -/
inductive Failure where
  /-- The source failed, with its own words. -/
  | source (text : Bytes)
  /-- A lookup failed and the source was not to be asked instead. -/
  | lookup (error : StoreError)
  /-- Some rows could not be cached. -/
  | notCached (failed total : Nat) (first : Option StoreError)
  /-- The source was changed, but some keys could not be invalidated. -/
  | notInvalidated (failed : Nat) (key : Bytes) (error : StoreError)
deriving DecidableEq

/-- The failure in words. -/
def Failure.message : Failure → Bytes
  | .source text => text
  | .lookup e => e.text
  | .notCached failed total first =>
    Decimal.ofNat failed ++ Bytes.ofString " of " ++ Decimal.ofNat total ++
      Bytes.ofString " rows not cached: " ++ (first.map (·.message)).getD []
  | .notInvalidated failed key e =>
    Bytes.ofString "mutation committed but " ++ Decimal.ofNat failed ++
      Bytes.ofString " invalidation(s) failed, first " ++ key ++ Bytes.ofString ": " ++ e.message

end Pipeline

/-- A cache of rows. -/
structure Pipeline (σ : Type) where
  /-- The cache, on a store and all that surrounds it. -/
  cache : Cache σ
  /-- What the pipeline counted. -/
  stats : Pipeline.Stats
  /-- The log, newest entry first. -/
  log : List Pipeline.LogEntry

namespace Pipeline

variable {σ ρ : Type}

/-- A pipeline that has done nothing yet. -/
def ofStore (store : σ) : Pipeline σ := ⟨.ofStore store, {}, []⟩

/-- Writes to the log. -/
def note (p : Pipeline σ) (policy : Policy σ ρ) (entry : LogEntry) : Pipeline σ :=
  if policy.logging then { p with log := entry :: p.log } else p

/-- Reads the clock. -/
def readClock (p : Pipeline σ) (policy : Policy σ ρ) : Timestamp × Pipeline σ :=
  let (ts, store) := policy.clock p.cache.store
  (ts, { p with cache.store := store })

/-- A call to the source: what it says, and the pipeline after all that happened meanwhile. -/
abbrev Source (σ α : Type) := Pipeline σ → Except Bytes α × Pipeline σ

/-- A call cut in two where the source is to be asked. -/
inductive Half (τ α : Type) where
  /-- The source is not needed: the result. -/
  | finished (result : Except Failure α)
  /-- The source is to be asked: what is needed to go on afterwards. -/
  | waiting (ticket : τ)

section Lookup

variable [RecordStore σ]

/-- What a lookup found. -/
structure Found (ρ : Type) where
  /-- The row, when the cache served one. -/
  row : Option ρ
  /-- A row from the source may be cached under the key. -/
  cacheable : Bool

/-- A lookup failed: it is passed on to the source, or the read fails. -/
def degrade (p : Pipeline σ) (policy : Policy σ ρ) (key : Bytes) (e : StoreError)
    (cacheable : Bool) : Except Failure (Found ρ) × Pipeline σ :=
  let p := p.note policy (.getFailed key e policy.bypass)
  if policy.bypass then
    (.ok ⟨none, cacheable⟩, { p with stats.bypasses := p.stats.bypasses + 1 })
  else (.error (.lookup e), p)

/-- Looks a key up in the cache.  After a failure of the store no row is to be cached; after a value
that is no row, a row is. -/
def lookup (p : Pipeline σ) (policy : Policy σ ρ) (key : Bytes) :
    Except Failure (Found ρ) × Pipeline σ :=
  match p.cache.get key with
  | (.error e, cache) => degrade { p with cache } policy key e false
  | (.ok none, cache) => (.ok ⟨none, true⟩, { p with cache, stats.misses := p.stats.misses + 1 })
  | (.ok (some value), cache) =>
    match policy.decode value with
    | .error why =>
      degrade { p with cache, stats.decodeFailures := p.stats.decodeFailures + 1 } policy key
        ⟨.serialization, why⟩ true
    | .ok row => (.ok ⟨some row, true⟩, { p with cache, stats.hits := p.stats.hits + 1 })

/-- Counts what became of a row that was to be cached. -/
def countSet (p : Pipeline σ) (policy : Policy σ ρ) (key : Bytes) :
    Except StoreError Outcome → Pipeline σ
  | .error e =>
    { p with stats.populateFailures := p.stats.populateFailures + 1 }.note policy (.setFailed key e)
  | .ok .accepted => { p with stats.populated := p.stats.populated + 1 }
  | .ok .rejected => { p with stats.populateRejected := p.stats.populateRejected + 1 }

/-- Counts what became of rows that were to be cached, in order. -/
def countSets (p : Pipeline σ) (policy : Policy σ ρ) :
    List ((Bytes × Bytes) × Except StoreError Outcome) → Pipeline σ
  | [] => p
  | (item, result) :: rest => (p.countSet policy item.1 result).countSets policy rest

/-- Caches encoded rows under their keys, all with one timestamp. -/
def storeRows (p : Pipeline σ) (policy : Policy σ ρ) (items : List (Bytes × Bytes))
    (ts : Timestamp) : List (Except StoreError Outcome) × Pipeline σ :=
  let (results, cache) := p.cache.setAll items ts
  (results, { p with cache }.countSets policy (items.zip results))

end Lookup

section Calls

variable [RecordStore σ]

/-! ### Populate -/

/-- What populating gives: the rows, and what went wrong with caching them. -/
structure Populated (ρ : Type) where
  /-- The rows that the source returned. -/
  rows : List ρ
  /-- Set when not all of them could be cached. -/
  failure : Option Failure

/-- The first half of populating: the timestamp of the rows. -/
def beginPopulate (p : Pipeline σ) (policy : Policy σ ρ) : Timestamp × Pipeline σ :=
  p.readClock policy

/-- The second half of populating: caches all rows with the timestamp of the first half. -/
def endPopulate (p : Pipeline σ) (policy : Policy σ ρ) (ts : Timestamp)
    (fetched : Except Bytes (List ρ)) : Except Failure (Populated ρ) × Pipeline σ :=
  match fetched with
  | .error text => (.error (.source text), p)
  | .ok rows =>
    let items := rows.map fun row => (policy.keyOf row, policy.encode row)
    let (results, p) := p.storeRows policy items ts
    let failed := results.countP (fun r => !r.isOk)
    let failure :=
      if failed = 0 then none
      else some (.notCached failed items.length (Cache.firstError results))
    (.ok ⟨rows, failure⟩, p)

/-- Reads rows from the source and caches each under its key.  The rows are returned even if they
could not all be cached. -/
def populate (p : Pipeline σ) (policy : Policy σ ρ) (fetch : Source σ (List ρ)) :
    Except Failure (Populated ρ) × Pipeline σ :=
  let (ts, p) := p.beginPopulate policy
  let (fetched, p) := fetch p
  p.endPopulate policy ts fetched

/-! ### Read through -/

/-- What the second half of a read needs. -/
structure ReadTicket where
  /-- The key that was read. -/
  key : Bytes
  /-- The timestamp that a row from the source will carry. -/
  ts : Timestamp
  /-- The row is to be cached. -/
  store : Bool

/-- The first half of a read: look the key up. -/
def beginRead (p : Pipeline σ) (policy : Policy σ ρ) (key : Bytes) (store : Bool) :
    Half ReadTicket (Option ρ) × Pipeline σ :=
  let (ts, p) := p.readClock policy
  match p.lookup policy key with
  | (.error f, p) => (.finished (.error f), p)
  | (.ok ⟨some row, _⟩, p) => (.finished (.ok (some row)), p)
  | (.ok ⟨none, cacheable⟩, p) => (.waiting ⟨key, ts, store && cacheable⟩, p)

/-- The second half of a read: the first row of the source, cached if the ticket says so. -/
def endRead (p : Pipeline σ) (policy : Policy σ ρ) (ticket : ReadTicket)
    (fetched : Except Bytes (List ρ)) : Except Failure (Option ρ) × Pipeline σ :=
  match fetched with
  | .error text => (.error (.source text), p)
  | .ok [] => (.ok none, p)
  | .ok (row :: _) =>
    if ticket.store then
      (.ok (some row), (p.storeRows policy [(ticket.key, policy.encode row)] ticket.ts).2)
    else (.ok (some row), p)

/-- Reads one row, from the cache or else from the source; `none` when the source has none either.
With `store`, a row from the source is cached. -/
def readThrough (p : Pipeline σ) (policy : Policy σ ρ) (key : Bytes) (store : Bool)
    (fetch : Source σ (List ρ)) : Except Failure (Option ρ) × Pipeline σ :=
  match p.beginRead policy key store with
  | (.finished result, p) => (result, p)
  | (.waiting ticket, p) =>
    let (fetched, p) := fetch p
    p.endRead policy ticket fetched

/-! ### Batched read through -/

/-- One key of a batched read. -/
structure Wanted (ρ : Type) where
  /-- The key. -/
  key : Bytes
  /-- The row, when the cache served one. -/
  row : Option ρ
  /-- A row from the source is to be cached. -/
  store : Bool

/-- What the second half of a batched read needs. -/
structure ManyTicket (ρ : Type) where
  /-- The keys, in the order asked. -/
  wanted : List (Wanted ρ)
  /-- The timestamp that rows from the source will carry. -/
  ts : Timestamp

/-- The keys that the cache served no row for, in order and with repetitions. -/
def ManyTicket.missing (t : ManyTicket ρ) : List Bytes :=
  (t.wanted.filter fun w => w.row.isNone).map (·.key)

/-- Looks keys up, one after another, until one of the lookups fails the read. -/
def lookupAll (p : Pipeline σ) (policy : Policy σ ρ) (store : Bool) :
    List Bytes → Except Failure (List (Wanted ρ)) × Pipeline σ
  | [] => (.ok [], p)
  | key :: rest =>
    match p.lookup policy key with
    | (.error f, p) => (.error f, p)
    | (.ok found, p) =>
      match p.lookupAll policy store rest with
      | (.error f, p) => (.error f, p)
      | (.ok wanted, p) => (.ok (⟨key, found.row, store && found.cacheable⟩ :: wanted), p)

/-- The first half of a batched read: look all keys up. -/
def beginReadMany (p : Pipeline σ) (policy : Policy σ ρ) (keys : List Bytes) (store : Bool) :
    Half (ManyTicket ρ) (List (Option ρ)) × Pipeline σ :=
  let (ts, p) := p.readClock policy
  match p.lookupAll policy store keys with
  | (.error f, p) => (.finished (.error f), p)
  | (.ok wanted, p) =>
    let ticket : ManyTicket ρ := ⟨wanted, ts⟩
    if ticket.missing.isEmpty then (.finished (.ok (wanted.map (·.row))), p)
    else (.waiting ticket, p)

/-- The row for a key: the one from the cache, or else the first row of the source with that key. -/
def Wanted.resolve (policy : Policy σ ρ) (rows : List ρ) (w : Wanted ρ) : Option ρ :=
  w.row <|> rows.find? fun row => policy.keyOf row = w.key

/-- The row of the source that is to be cached under a key, encoded. -/
def Wanted.item? (policy : Policy σ ρ) (rows : List ρ) (w : Wanted ρ) : Option (Bytes × Bytes) :=
  if w.row.isNone && w.store then
    (w.resolve policy rows).map fun row => (w.key, policy.encode row)
  else none

/-- The second half of a batched read: matches the rows of the source to the keys that lack one and
caches those that the ticket says. -/
def endReadMany (p : Pipeline σ) (policy : Policy σ ρ) (ticket : ManyTicket ρ)
    (fetched : Except Bytes (List ρ)) : Except Failure (List (Option ρ)) × Pipeline σ :=
  match fetched with
  | .error text => (.error (.source text), p)
  | .ok rows =>
    let items := ticket.wanted.filterMap (Wanted.item? policy rows)
    (.ok (ticket.wanted.map (Wanted.resolve policy rows)), (p.storeRows policy items ticket.ts).2)

/-- Reads several rows.  The source is asked once, for the keys that the cache served no row for,
and not at all when there are none. -/
def readThroughMany (p : Pipeline σ) (policy : Policy σ ρ) (keys : List Bytes) (store : Bool)
    (fetch : List Bytes → Source σ (List ρ)) : Except Failure (List (Option ρ)) × Pipeline σ :=
  match p.beginReadMany policy keys store with
  | (.finished result, p) => (result, p)
  | (.waiting ticket, p) =>
    let (fetched, p) := fetch ticket.missing p
    p.endReadMany policy ticket fetched

/-! ### Update -/

/-- Invalidates a key and counts what became of it; returns the failure. -/
def invalidateKey (p : Pipeline σ) (policy : Policy σ ρ) (ts : Timestamp) (key : Bytes) :
    Option StoreError × Pipeline σ :=
  match p.cache.invalidate key ts with
  | (.ok _, cache) =>
    (none, { p with cache, stats.invalidations := p.stats.invalidations + 1 })
  | (.error e, cache) =>
    (some e, { p with cache, stats.invalidateFailures := p.stats.invalidateFailures + 1 }.note
      policy (.invalidateFailed key ts e))

/-- Invalidates keys, going on past failures; returns the failures with their keys, in order. -/
def invalidateKeys (p : Pipeline σ) (policy : Policy σ ρ) (ts : Timestamp) :
    List Bytes → List (Bytes × StoreError) × Pipeline σ
  | [] => ([], p)
  | key :: rest =>
    let (failure, p) := p.invalidateKey policy ts key
    let (failures, p) := p.invalidateKeys policy ts rest
    ((failure.map fun e => (key, e)).toList ++ failures, p)

/-- The second half of an update: invalidates every key with a timestamp taken now. -/
def endUpdate (p : Pipeline σ) (policy : Policy σ ρ) (keys : List Bytes)
    (mutated : Except Bytes Unit) : Except Failure Unit × Pipeline σ :=
  match mutated with
  | .error text => (.error (.source text), p)
  | .ok () =>
    let (ts, p) := p.readClock policy
    match p.invalidateKeys policy ts keys with
    | ([], p) => (.ok (), p)
    | ((key, e) :: rest, p) => (.error (.notInvalidated (rest.length + 1) key e), p)

/-- Changes the source and then invalidates keys.  The change stands even if keys could not be
invalidated; then the cache may still serve old rows for them. -/
def update (p : Pipeline σ) (policy : Policy σ ρ) (keys : List Bytes)
    (mutate : Source σ Unit) : Except Failure Unit × Pipeline σ :=
  let (mutated, p) := mutate p
  p.endUpdate policy keys mutated

end Calls

/-! ### Report -/

/-- A report on what the pipeline counted. -/
def info (p : Pipeline σ) : Bytes :=
  Bytes.reportLine "pipeline_hits" (Decimal.ofNat p.stats.hits) ++
  Bytes.reportLine "pipeline_misses" (Decimal.ofNat p.stats.misses) ++
  Bytes.reportLine "pipeline_bypasses" (Decimal.ofNat p.stats.bypasses) ++
  Bytes.reportLine "pipeline_populated" (Decimal.ofNat p.stats.populated) ++
  Bytes.reportLine "pipeline_populate_rejected" (Decimal.ofNat p.stats.populateRejected) ++
  Bytes.reportLine "pipeline_populate_failures" (Decimal.ofNat p.stats.populateFailures) ++
  Bytes.reportLine "pipeline_invalidations" (Decimal.ofNat p.stats.invalidations) ++
  Bytes.reportLine "pipeline_invalidate_failures" (Decimal.ofNat p.stats.invalidateFailures) ++
  Bytes.reportLine "pipeline_decode_failures" (Decimal.ofNat p.stats.decodeFailures)

end Pipeline

end CoherentCache
