import CoherentCache.Store

/-!
# One shard of the in-memory store

A shard keeps the persisted fields of its keys in slots.  A slot may have a deadline, after which it
counts as absent; the agenda lists the deadlines that were ever set, the earliest first, so that
sweeping need not look at all slots.  Entries of the agenda are never taken back: an entry speaks
for its slot only while the generation of the key is still the one it was made with.

* `Shard.settle` : drop the slot of a key if its deadline has passed.
* `Shard.commit` : store a record and set, keep or lift the deadline.
* `Shard.sweep` : drop slots whose deadline has passed, at most a given number of agenda entries.
-/

namespace CoherentCache

/-- What the in-memory store keeps for one key. -/
structure Slot where
  /-- The persisted form of the record. -/
  fields : Fields
  /-- From this instant on the slot counts as absent. -/
  deadline : Option Instant

/-- The deadline of the slot has passed. -/
def Slot.isLapsed (slot : Slot) (now : Instant) : Bool :=
  match slot.deadline with
  | none => false
  | some d => d ≤ now

/-- An entry of the agenda: the deadline that a key was given. -/
structure Expiry where
  /-- When the key is due. -/
  deadline : Instant
  /-- The key. -/
  key : Bytes
  /-- The generation of the key when the deadline was set. -/
  generation : Nat
deriving DecidableEq

/-- A part of the key space. -/
structure Shard where
  /-- The keys that are there. -/
  slots : Std.TreeMap Bytes Slot compare
  /-- How often the deadline of a key was set or lifted since its slot was made. -/
  generations : Std.TreeMap Bytes Nat compare
  /-- The deadlines that were set, the earliest first. -/
  agenda : List Expiry

namespace Shard

/-- A shard without keys. -/
def empty : Shard := ⟨∅, ∅, []⟩

/-- Forgets a key.  The agenda keeps its entries. -/
def erase (s : Shard) (key : Bytes) : Shard :=
  { s with slots := s.slots.erase key, generations := s.generations.erase key }

/-- The key has a slot whose deadline has passed. -/
def isLapsed (s : Shard) (now : Instant) (key : Bytes) : Bool :=
  match s.slots[key]? with
  | none => false
  | some slot => slot.isLapsed now

/-- Drops the slot of the key if its deadline has passed. -/
def settle (s : Shard) (now : Instant) (key : Bytes) : Shard :=
  if s.isLapsed now key then s.erase key else s

/-- The record of a key, read back from its fields. -/
def record (s : Shard) (key : Bytes) : Except Record.Fault (Option Record) :=
  match s.slots[key]? with
  | none => .ok none
  | some slot => (Record.ofFields slot.fields).map some

/-- The generation of a key. -/
def generation (s : Shard) (key : Bytes) : Nat := s.generations.getD key 0

/-- Starts the next generation of a key, which voids its entries on the agenda. -/
def renew (s : Shard) (key : Bytes) : Shard :=
  { s with generations := s.generations.insert key (s.generation key + 1) }

/-- The deadline of a key. -/
def deadline (s : Shard) (key : Bytes) : Option Instant := s.slots[key]?.bind (·.deadline)

/-- Writes a slot. -/
def put (s : Shard) (key : Bytes) (slot : Slot) : Shard :=
  { s with slots := s.slots.insert key slot }

/-- Puts an entry behind all entries of the agenda that are not due later. -/
def schedule (entry : Expiry) : List Expiry → List Expiry
  | [] => [entry]
  | e :: rest =>
    if entry.deadline < e.deadline then entry :: e :: rest else e :: schedule entry rest

/-- Stores a record.  `arm` gives the key a new deadline and an entry on the agenda; `clear` lifts
its deadline. -/
def commit (s : Shard) (key : Bytes) (record : Record) (retention : Retention)
    (due : Instant) : Shard :=
  match retention with
  | .keep => s.put key ⟨record.toFields, s.deadline key⟩
  | .arm =>
    let s := (s.put key ⟨record.toFields, some due⟩).renew key
    { s with agenda := schedule ⟨due, key, s.generation key⟩ s.agenda }
  | .clear =>
    let stored := s.put key ⟨record.toFields, none⟩
    if (s.deadline key).isSome then stored.renew key else stored

/-- Puts fields in the place of a key's fields, whatever they hold, and lifts its deadline. -/
def overwrite (s : Shard) (key : Bytes) (fields : Fields) : Shard :=
  (s.put key ⟨fields, none⟩).renew key

/-- Works off the agenda: `entries` are those still to be looked at, and at most `budget` of them
may concern a slot.  Returns the shard and the number of slots dropped. -/
def sweepEntries (now : Instant) : List Expiry → Nat → Shard → Nat → Shard × Nat
  | [], _, s, dropped => ({ s with agenda := [] }, dropped)
  | e :: rest, budget, s, dropped =>
    if budget = 0 ∨ now < e.deadline then ({ s with agenda := e :: rest }, dropped)
    else
      match s.slots[e.key]? with
      | none => sweepEntries now rest budget s dropped
      | some slot =>
        if s.generation e.key ≠ e.generation then sweepEntries now rest budget s dropped
        else if slot.isLapsed now then
          sweepEntries now rest (budget - 1) (s.erase e.key) (dropped + 1)
        else sweepEntries now rest (budget - 1) s dropped

/-- Drops slots whose deadline has passed, the earliest deadline first.  Entries of the agenda that
speak for no slot any more are removed for free; `budget` bounds the others. -/
def sweep (s : Shard) (now : Instant) (budget : Nat) : Shard × Nat :=
  sweepEntries now s.agenda budget s 0

/-- The number of keys, lapsed ones included. -/
def size (s : Shard) : Nat := s.slots.size

end Shard

end CoherentCache
