import CoherentCache.MemoryStore.Shard

/-!
# The in-memory store

Keys are spread over shards by a hash.  A record without a value is a tombstone: it only remembers
an invalidation, and it expires after the retention time.  An expired key is dropped when it is next
touched, or by a sweep.

* `MemoryStore.execute` : run an operation at a clock reading.
* `MemoryStore.inspect` : look at a record at a clock reading.
* `MemoryStore.sweep` : drop expired keys of every shard.
* `MemoryStore.Clocked` : the store together with its clock, a `RecordStore`.
-/

namespace CoherentCache

namespace MemoryStore

/-- A hash of keys: each byte is mixed in and spread by a multiplication. -/
def mix (key : Bytes) : UInt64 :=
  key.foldl (fun h b => (h ^^^ b.toUInt64) * 1099511628211) 14695981039346656037

/-- How the store is set up. -/
structure Config where
  /-- The number of shards asked for. -/
  shards : Nat := 16
  /-- How long a tombstone is kept, in milliseconds. -/
  retention : UInt64 := 120000
  /-- How many agenda entries a sweep may spend on each shard. -/
  sweepLimit : Nat := 128
  /-- Spreads the keys over the shards. -/
  hash : Bytes → UInt64 := mix

/-- The number of shards, at least one. -/
def Config.shardCount (c : Config) : Nat := max 1 c.shards

/-- What the store counts. -/
structure Counters where
  /-- Operations run. -/
  operations : Nat := 0
  /-- Slots dropped because their deadline had passed. -/
  expirations : Nat := 0
  /-- Times the fields of a key were not those of a record. -/
  corrupt : Nat := 0
deriving DecidableEq

end MemoryStore

/-- The in-memory store. -/
structure MemoryStore where
  /-- How the store is set up. -/
  config : MemoryStore.Config
  /-- The shards. -/
  shards : List Shard
  /-- What the store counted. -/
  counters : MemoryStore.Counters

namespace MemoryStore

/-- A store without keys. -/
def empty (config : Config) : MemoryStore :=
  ⟨config, List.replicate config.shardCount .empty, {}⟩

/-- The shard that a key belongs to. -/
def index (m : MemoryStore) (key : Bytes) : Nat := (m.config.hash key).toNat % m.config.shardCount

/-- The shard of a key. -/
def shardOf (m : MemoryStore) (key : Bytes) : Shard := m.shards.getD (m.index key) .empty

/-- Puts a shard in the place of the shard of a key. -/
def withShard (m : MemoryStore) (key : Bytes) (s : Shard) : MemoryStore :=
  { m with shards := m.shards.set (m.index key) s }

/-- Drops the slot of a key if its deadline has passed, and counts it. -/
def settle (m : MemoryStore) (now : Instant) (key : Bytes) : MemoryStore :=
  let s := m.shardOf key
  if s.isLapsed now key then
    let m := m.withShard key (s.settle now key)
    { m with counters.expirations := m.counters.expirations + 1 }
  else m

/-- Counts one key whose fields are not those of a record. -/
def countCorrupt (m : MemoryStore) : MemoryStore :=
  { m with counters.corrupt := m.counters.corrupt + 1 }

/-- Runs an operation on a key at the clock reading `now`. -/
def execute (m : MemoryStore) (now : Instant) (key : Bytes) (op : Operation) :
    Except StoreError Answer × MemoryStore :=
  let m : MemoryStore := { m with counters.operations := m.counters.operations + 1 }
  let m := m.settle now key
  match (m.shardOf key).record key with
  | .error fault => (.error (.corruptRecord key fault), m.countCorrupt)
  | .ok current =>
    let effect := op.effect current
    match effect.next with
    | none => (.ok effect.answer, m)
    | some record =>
      (.ok effect.answer, m.withShard key
        ((m.shardOf key).commit key record effect.retention (now.addMillis m.config.retention)))

/-- Shows the record of a key at the clock reading `now`. -/
def inspect (m : MemoryStore) (now : Instant) (key : Bytes) :
    Except StoreError (Option Snapshot) × MemoryStore :=
  let m := m.settle now key
  match (m.shardOf key).record key with
  | .error fault => (.error (.corruptRecord key fault), m.countCorrupt)
  | .ok none => (.ok none, m)
  | .ok (some record) =>
    (.ok (some ⟨record, ((m.shardOf key).deadline key).map now.millisUntil⟩), m)

/-- Puts fields in the place of a key's fields, whatever they hold. -/
def overwrite (m : MemoryStore) (key : Bytes) (fields : Fields) : MemoryStore :=
  m.withShard key ((m.shardOf key).overwrite key fields)

/-- Drops expired keys of every shard, within the sweep limit. -/
def sweep (m : MemoryStore) (now : Instant) : MemoryStore :=
  let swept := m.shards.map fun s => s.sweep now m.config.sweepLimit
  { m with
    shards := swept.map (·.1)
    counters.expirations := m.counters.expirations + (swept.map (·.2)).foldr (· + ·) 0 }

/-- The number of keys, expired ones that were not dropped yet included. -/
def size (m : MemoryStore) : Nat := (m.shards.map Shard.size).foldr (· + ·) 0

/-- The word for this kind of store. -/
def name : Bytes := Bytes.ofString "local"

/-- A report on the store. -/
def info (m : MemoryStore) : Bytes :=
  Bytes.reportLine "store" name ++
  Bytes.reportLine "shards" (Decimal.ofNat m.config.shardCount) ++
  Bytes.reportLine "keys" (Decimal.ofNat m.size) ++
  Bytes.reportLine "tombstone_ttl_ms" (Decimal.ofNat m.config.retention.toNat) ++
  Bytes.reportLine "ops" (Decimal.ofNat m.counters.operations) ++
  Bytes.reportLine "expirations" (Decimal.ofNat m.counters.expirations) ++
  Bytes.reportLine "corrupt_records" (Decimal.ofNat m.counters.corrupt)

/-- The in-memory store together with the clock that it reads. -/
structure Clocked where
  /-- The store. -/
  store : MemoryStore
  /-- What the clock shows. -/
  now : Instant

namespace Clocked

/-- Lets time pass. -/
def advance (c : Clocked) (nanos : Int64) : Clocked := { c with now := c.now.addNanos nanos }

/-- Drops expired keys. -/
def sweep (c : Clocked) : Clocked := { c with store := c.store.sweep c.now }

/-- Puts fields in the place of a key's fields. -/
def overwrite (c : Clocked) (key : Bytes) (fields : Fields) : Clocked :=
  { c with store := c.store.overwrite key fields }

instance : RecordStore Clocked where
  name _ := MemoryStore.name
  execute c key op :=
    let (answer, store) := c.store.execute c.now key op
    (answer, { c with store })
  inspect c key :=
    let (shown, store) := c.store.inspect c.now key
    (shown, { c with store })
  info c := c.store.info

end Clocked

end MemoryStore

end CoherentCache
