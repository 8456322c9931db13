import CoherentCache.MemoryStore.Run
import CoherentCache.Pipeline
import CoherentCache.Store.Faulty

/-!
# Scripted runs of a pipeline

A script is a list of steps on a pipeline over an in-memory store.  While a step waits for the
source, the steps of its `during` list run on the same pipeline, to any depth of nesting: they are
what other callers do in the meantime.

* `Site` : an in-memory store with a schedule of failures, and a clock for timestamps.
* `Script.run` : run a script.
-/

namespace CoherentCache

/-- Where timestamps are taken from. -/
inductive Timepiece where
  /-- Each reading is one second after the one before. -/
  | stepping (next : Int64)
  /-- The readings, in order; the last one is repeated. -/
  | listed (readings : List Timestamp)
  /-- The system clock. -/
  | system

/-- Reads a timepiece at a reading of the system clock. -/
def Timepiece.read (now : Instant) : Timepiece → Timestamp × Timepiece
  | .stepping next => (⟨next, 0⟩, .stepping (next + 1))
  | .listed [] => (.zero, .listed [])
  | .listed [t] => (t, .listed [t])
  | .listed (t :: rest) => (t, .listed rest)
  | .system => (.ofInstant now, .system)

/-- An in-memory store with a schedule of failures, and a clock for timestamps. -/
structure Site where
  /-- The store. -/
  store : Faulty MemoryStore.Clocked
  /-- Where timestamps are taken from. -/
  timepiece : Timepiece

namespace Site

instance : RecordStore Site where
  name s := RecordStore.name s.store
  execute s key op :=
    let (answer, store) := RecordStore.execute s.store key op
    (answer, { s with store })
  inspect s key :=
    let (shown, store) := RecordStore.inspect s.store key
    (shown, { s with store })
  info s := RecordStore.info s.store

instance : MemoryBacked Site where
  memory s := s.store.inner
  mapMemory f s := { s with store.inner := f s.store.inner }

/-- Takes a timestamp. -/
def clock (s : Site) : Timestamp × Site :=
  let (ts, timepiece) := s.timepiece.read s.store.inner.now
  (ts, { s with timepiece })

end Site

namespace Script

/-- A step of a script. -/
inductive Step (ρ : Type) where
  /-- A step on the store or on the cache. -/
  | store (step : MemoryStore.Step)
  /-- Ask for the report of the pipeline. -/
  | info
  /-- Populate the cache with the rows of the source, or let the source fail. -/
  | populate (rows : List ρ) (fail : Option Bytes) (during : List (Step ρ))
  /-- Read a row through the cache. -/
  | read (key : Bytes) (keep : Bool) (rows : List ρ) (fail : Option Bytes) (during : List (Step ρ))
  /-- Read rows through the cache. -/
  | readMany (keys : List Bytes) (keep : Bool) (rows : List ρ) (fail : Option Bytes)
      (during : List (Step ρ))
  /-- Change the source and invalidate keys. -/
  | update (keys : List Bytes) (fail : Option Bytes) (during : List (Step ρ))

/-- What a call of the pipeline gave. -/
inductive Result (ρ : Type) where
  /-- Populating. -/
  | populate (result : Except Pipeline.Failure (Pipeline.Populated ρ))
  /-- Reading a row. -/
  | read (result : Except Pipeline.Failure (Option ρ))
  /-- Reading rows; `asked` holds the keys that the source was asked for. -/
  | readMany (asked : Option (List Bytes)) (result : Except Pipeline.Failure (List (Option ρ)))
  /-- Updating. -/
  | update (result : Except Pipeline.Failure Unit)

/-- What a step is answered. -/
inductive Told (ρ : Type) where
  /-- The answer to a step on the store or on the cache, and the number of keys afterwards. -/
  | store (told : MemoryStore.Told) (size : Nat)
  /-- The report of the pipeline. -/
  | info (report : Bytes)
  /-- The result of a call, what was answered while it waited for the source, what was logged in all
  that time, and the counters and the number of keys afterwards. -/
  | call (result : Result ρ) (during : List (Told ρ)) (logged : List Pipeline.LogEntry)
      (stats : Pipeline.Stats) (size : Nat)

variable {σ ρ : Type}

/-- What the source says after the steps that run meanwhile. -/
def said {α : Type} (fail : Option Bytes) (rows : α) : Except Bytes α :=
  match fail with
  | some text => .error text
  | none => .ok rows

variable [MemoryBacked σ]

/-- Closes the account of a call that found the pipeline as `before` and left it as `after`. -/
def report (before after : Pipeline σ) (result : Result ρ) (during : List (Told ρ)) :
    Told ρ × Pipeline σ :=
  (.call result during (after.log.take (after.log.length - before.log.length)).reverse
    after.stats (MemoryStore.sizeBehind after.cache), after)

mutual

/-- Runs one step. -/
def step (policy : Pipeline.Policy σ ρ) : Step ρ → Pipeline σ → Told ρ × Pipeline σ
  | .store s, p =>
    let (told, cache) := MemoryStore.step p.cache s
    (.store told (MemoryStore.sizeBehind cache), { p with cache })
  | .info, p => (.info p.info, p)
  | .populate rows fail during, p =>
    let (ts, q) := p.beginPopulate policy
    let (told, q) := run policy during q
    let (result, q) := q.endPopulate policy ts (said fail rows)
    report p q (.populate result) told
  | .read key keep rows fail during, p =>
    match p.beginRead policy key keep with
    | (.finished result, q) => report p q (.read result) []
    | (.waiting ticket, q) =>
      let (told, q) := run policy during q
      let (result, q) := q.endRead policy ticket (said fail rows)
      report p q (.read result) told
  | .readMany keys keep rows fail during, p =>
    match p.beginReadMany policy keys keep with
    | (.finished result, q) => report p q (.readMany none result) []
    | (.waiting ticket, q) =>
      let (told, q) := run policy during q
      let (result, q) := q.endReadMany policy ticket (said fail rows)
      report p q (.readMany (some ticket.missing) result) told
  | .update keys fail during, p =>
    let (told, q) := run policy during p
    let (result, q) := q.endUpdate policy keys (said fail ())
    report p q (.update result) told

/-- Runs steps, one after another. -/
def run (policy : Pipeline.Policy σ ρ) : List (Step ρ) → Pipeline σ → List (Told ρ) × Pipeline σ
  | [], p => ([], p)
  | s :: rest, p =>
    let (told, p) := step policy s p
    let (more, p) := run policy rest p
    (told :: more, p)

end

end Script

/-! ### Rows of two columns -/

/-- A row with an identifier and a name. -/
structure Row where
  /-- The identifier, a digit string. -/
  id : Bytes
  /-- The name. -/
  name : Bytes
deriving DecidableEq

namespace Row

/-- The cached form: the identifier, a bar, the name. -/
def encode (row : Row) : Bytes := row.id ++ 124 :: row.name

/-- Reads the cached form.  The identifier ends at the first bar, is not empty and holds digits
only. -/
def decode (text : Bytes) : Except Bytes Row :=
  let id := text.takeWhile (· != 124)
  if id.isEmpty || !text.contains 124 then .error (Bytes.ofString "bad row payload")
  else if !id.all Decimal.isDigit then .error (Bytes.ofString "bad row id")
  else .ok ⟨id, text.drop (id.length + 1)⟩

/-- The key that a row is cached under. -/
def key (row : Row) : Bytes := Bytes.ofString "user:" ++ row.id

/-- How rows are cached at a site. -/
def policy (bypass logging : Bool) : Pipeline.Policy Site Row :=
  { encode, decode, keyOf := key, clock := Site.clock, bypass, logging }

end Row

end CoherentCache
