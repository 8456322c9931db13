import CoherentCache.MemoryStore
import CoherentCache.Settings.Lookup

/-!
# Settings of the server

Settings come from files and from the command line.  A file names some of them; numbers are brought
into their range, unknown keys are ignored, and a file that is refused changes nothing.

* `Settings.ofFile` : settings after reading the text of a file.
* `Settings.load` : the same, by the path of a file.
* `Backend` : the two kinds of store.
-/

namespace CoherentCache

/-- How a remote store is reached and used. -/
structure RemoteSettings where
  /-- The host to connect to. -/
  host : Bytes := Bytes.ofString "127.0.0.1"
  /-- The port to connect to. -/
  port : Int := 6379
  /-- How long a connection may take to be made, in milliseconds. -/
  connectTimeout : UInt64 := 1000
  /-- How long a send or a receive may take, in milliseconds. -/
  ioTimeout : UInt64 := 1000
  /-- How often a call is tried again after its first failure. -/
  maxRetries : Nat := 1
  /-- How long a tombstone is kept, in milliseconds. -/
  retention : UInt64 := 120000
deriving DecidableEq

/-- The kinds of store that a server can keep its records in. -/
inductive Backend where
  /-- In the memory of the server. -/
  | memory
  /-- In a remote store. -/
  | remote
deriving DecidableEq

namespace Backend

/-- The word that selects a kind of store. -/
def word : Backend → Bytes
  | .memory => Bytes.ofString "local"
  | .remote => Bytes.ofString "redis"

/-- The kind of store that a word selects. -/
def ofWord? (w : Bytes) : Option Backend :=
  if w = word .memory then some .memory else if w = word .remote then some .remote else none

/-- What is said of a word that selects no kind of store. -/
def unknown (w : Bytes) : Bytes := Bytes.ofString "unknown backend: " ++ w

end Backend

/-- The settings of a server. -/
structure Settings where
  /-- The port that the server listens on. -/
  port : Int := 6390
  /-- The word for the kind of store. -/
  backend : Bytes := Backend.memory.word
  /-- How many clients may be connected at a time. -/
  maxConnections : Nat := 512
  /-- How many bytes of replies may wait for one client. -/
  maxPending : Nat := 1048576
  /-- How many requests of one client are served in one pass. -/
  maxRequestsPerPass : Nat := 64
  /-- The in-memory store. -/
  memory : MemoryStore.Config := {}
  /-- The remote store. -/
  remote : RemoteSettings := {}

namespace Settings

/-- Why a file is refused. -/
inductive FileFault where
  /-- There is nothing to open at the path. -/
  | notFound (path : Bytes)
  /-- The text has no opening or no closing brace. -/
  | noObject
  /-- The word for the kind of store selects none. -/
  | unknownBackend (word : Bytes)
deriving DecidableEq

/-- The fault in words. -/
def FileFault.message : FileFault → Bytes
  | .notFound path => Bytes.ofString "config file not found: " ++ path
  | .noObject => Bytes.ofString "invalid schema"
  | .unknownBackend word => Backend.unknown word

/-- Brings a number into a range. -/
def clamp (low high n : Nat) : Nat := max low (min n high)

/-- The number that a key is given, brought into its range; `current` when it is given none. -/
def ranged (text : Bytes) (key : String) (low high current : Nat) : Nat :=
  match Lookup.number? text key with
  | none => current
  | some n => clamp low high n

/-- The same for a port. -/
def rangedPort (text : Bytes) (key : String) (current : Int) : Int :=
  match Lookup.number? text key with
  | none => current
  | some n => clamp 1 65535 n

/-- The same for a time in milliseconds. -/
def rangedMillis (text : Bytes) (key : String) (high : Nat) (current : UInt64) : UInt64 :=
  match Lookup.number? text key with
  | none => current
  | some n => UInt64.ofNat (clamp 1 high n)

/-- The settings with all that a text names, before the kind of store is checked. -/
def override (s : Settings) (text : Bytes) : Settings :=
  { s with
    port := rangedPort text "port" s.port
    backend := (Lookup.string? text "backend").getD s.backend
    maxConnections := ranged text "max_connections" 1 65536 s.maxConnections
    maxPending := ranged text "max_pending_out" 4096 1073741824 s.maxPending
    memory := { s.memory with
      shards := ranged text "shards" 1 4096 s.memory.shards
      retention := rangedMillis text "tombstone_ttl_ms" 86400000 s.memory.retention
      sweepLimit := ranged text "ttl_cleanup_per_tick" 1 1000000 s.memory.sweepLimit }
    remote := {
      host := (Lookup.string? text "redis_host").getD s.remote.host
      port := rangedPort text "redis_port" s.remote.port
      connectTimeout := rangedMillis text "redis_connect_timeout_ms" 60000 s.remote.connectTimeout
      ioTimeout := rangedMillis text "redis_io_timeout_ms" 60000 s.remote.ioTimeout
      maxRetries := ranged text "redis_max_retries" 0 16 s.remote.maxRetries
      retention := rangedMillis text "tombstone_ttl_ms" 86400000 s.remote.retention } }

/-- The keys whose values are numbers. -/
def numberKeys : List String :=
  ["port", "max_connections", "max_pending_out", "shards", "tombstone_ttl_ms",
    "ttl_cleanup_per_tick", "redis_port", "redis_connect_timeout_ms", "redis_io_timeout_ms",
    "redis_max_retries"]

/-- The text gives some key a number of more than 64 bits, which is passed over. -/
def isOversized (text : Bytes) : Bool :=
  numberKeys.any fun key =>
    (Lookup.digits? text key).any fun digits => (Decimal.readUInt64? digits).isNone

/-- The settings after reading the text of a file.  The text must look like an object, that is, hold
an opening and a closing brace, and the kind of store must be known afterwards. -/
def ofFile (s : Settings) (text : Bytes) : Except FileFault Settings :=
  if text.contains 123 && text.contains 125 then
    let t := s.override text
    if (Backend.ofWord? t.backend).isSome then .ok t else .error (.unknownBackend t.backend)
  else .error .noObject

/-- Files by path: the text that is read at a path, or `none` when there is nothing to open. -/
abbrev Files := Bytes → Option Bytes

/-- The settings after reading the file at the given path. -/
def load (s : Settings) (files : Files) (path : Bytes) : Except FileFault Settings :=
  match files path with
  | none => .error (.notFound path)
  | some text => s.ofFile text

end Settings

end CoherentCache
