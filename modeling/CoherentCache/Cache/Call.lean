import CoherentCache.Cache

/-!
# Calls of the cache as data

What a caller can ask of a cache, and what it is told, as inductive types, so that a run of a cache
is a list of calls.

* `Cache.call` : make one call.
-/

namespace CoherentCache

namespace Cache

/-- A call of the cache. -/
inductive Call where
  /-- Store a value. -/
  | set (key value : Bytes) (ts : Timestamp)
  /-- Invalidate a key. -/
  | invalidate (key : Bytes) (ts : Timestamp)
  /-- Read a key. -/
  | get (key : Bytes)
  /-- Store values, all with one timestamp. -/
  | setAll (items : List (Bytes × Bytes)) (ts : Timestamp)
  /-- Invalidate keys, all with one timestamp. -/
  | invalidateAll (keys : List Bytes) (ts : Timestamp)
  /-- Read keys. -/
  | getAll (keys : List Bytes)
  /-- Look at the record of a key. -/
  | inspect (key : Bytes)
  /-- Ask for the counters. -/
  | counters
  /-- Ask for the report. -/
  | info
  /-- Ask for the word for the store. -/
  | name

/-- What a caller of the cache is told. -/
inductive Told where
  /-- What became of a write. -/
  | outcome (result : Except StoreError Outcome)
  /-- What a read was served. -/
  | lookup (result : Except StoreError (Option Bytes))
  /-- What became of a batch of sets. -/
  | sets (results : List (Except StoreError Outcome))
  /-- What became of a batch of invalidations. -/
  | invalidations (results : List (Except StoreError Outcome))
  /-- What a batch of reads was served. -/
  | lookups (results : List (Except StoreError (Option Bytes)))
  /-- The record of a key. -/
  | snapshot (result : Except StoreError (Option Snapshot))
  /-- The counters. -/
  | counters (c : Counters)
  /-- The report. -/
  | info (report : Bytes)
  /-- The word for the store. -/
  | name (word : Bytes)

variable {σ : Type} [RecordStore σ]

/-- Makes one call. -/
def call (c : Cache σ) : Call → Told × Cache σ
  | .set key value ts =>
    let (r, c) := c.set key value ts
    (.outcome r, c)
  | .invalidate key ts =>
    let (r, c) := c.invalidate key ts
    (.outcome r, c)
  | .get key =>
    let (r, c) := c.get key
    (.lookup r, c)
  | .setAll items ts =>
    let (rs, c) := c.setAll items ts
    (.sets rs, c)
  | .invalidateAll keys ts =>
    let (rs, c) := c.invalidateAll keys ts
    (.invalidations rs, c)
  | .getAll keys =>
    let (rs, c) := c.getAll keys
    (.lookups rs, c)
  | .inspect key =>
    let (r, c) := c.inspect key
    (.snapshot r, c)
  | .counters => (.counters c.counters, c)
  | .info => (.info c.info, c)
  | .name => (.name (RecordStore.name c.store), c)

end Cache

end CoherentCache
