import CoherentCache.Cache.Call
import CoherentCache.MemoryStore

/-!
# Runs of a cache on the in-memory store

Besides the calls of the cache, a run on the in-memory store lets time pass, sweeps, and puts
fields into the store behind the cache's back.

* `MemoryBacked` : stores with an in-memory store inside.
* `MemoryStore.step` : one step of a run.
-/

namespace CoherentCache

/-- A record store with a clocked in-memory store inside. -/
class MemoryBacked (σ : Type) extends RecordStore σ where
  /-- The in-memory store. -/
  memory : σ → MemoryStore.Clocked
  /-- Changes the in-memory store. -/
  mapMemory : (MemoryStore.Clocked → MemoryStore.Clocked) → σ → σ

namespace MemoryStore

instance : MemoryBacked Clocked where
  memory c := c
  mapMemory f c := f c

/-- A step of a run. -/
inductive Step where
  /-- A call of the cache. -/
  | call (c : Cache.Call)
  /-- Put fields in the place of a key's fields. -/
  | overwrite (key : Bytes) (fields : Fields)
  /-- Drop expired keys. -/
  | sweep
  /-- Let time pass. -/
  | advance (nanos : Int64)
  /-- Ask for the counters of the store. -/
  | counters

/-- What a step is answered. -/
inductive Told where
  /-- The answer to a call of the cache. -/
  | call (told : Cache.Told)
  /-- The step has no answer. -/
  | done
  /-- The counters of the store. -/
  | counters (c : Counters)

variable {σ : Type} [MemoryBacked σ]

/-- The number of keys in the in-memory store behind a cache. -/
def sizeBehind (c : Cache σ) : Nat := (MemoryBacked.memory c.store).store.size

/-- One step of a run. -/
def step (c : Cache σ) : Step → Told × Cache σ
  | .call asked =>
    let (told, c) := c.call asked
    (.call told, c)
  | .overwrite key fields =>
    (.done, c.mapStore (MemoryBacked.mapMemory fun m => m.overwrite key fields))
  | .sweep => (.done, c.mapStore (MemoryBacked.mapMemory Clocked.sweep))
  | .advance nanos => (.done, c.mapStore (MemoryBacked.mapMemory fun m => m.advance nanos))
  | .counters => (.counters (MemoryBacked.memory c.store).store.counters, c)

end MemoryStore

end CoherentCache
