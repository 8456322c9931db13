import CoherentCache.Cache
import CoherentCache.Decimal.Significant
import CoherentCache.Host
import CoherentCache.Server.Command
import CoherentCache.Server.SlowLog

/-!
# Serving commands

What all clients of a server share: the cache, the counters and the log of slow commands.  A request
goes in and one reply comes out, whoever sent it.

* `Service.run` : serve a command.
* `Service.answer` : serve a request, which need not be a command.
-/

namespace CoherentCache

/-- What the clients of a server share. -/
structure Service where
  /-- The cache, with its store, the clock and the network. -/
  cache : Cache Host
  /-- Requests that were refused, connections that were turned away, and clients that were dropped
  because too many replies were waiting. -/
  rejected : Nat := 0
  /-- Bytes received. -/
  receivedBytes : Nat := 0
  /-- Requests received. -/
  requests : Nat := 0
  /-- The log of slow commands. -/
  slowLog : SlowLog := []

namespace Service

/-- What the clock shows. -/
def now (s : Service) : Instant := s.cache.store.now

/-- Changes the store. -/
def mapStore (s : Service) (f : Host → Host) : Service := { s with cache := s.cache.mapStore f }

/-- A call to the system fails. -/
def fail (s : Service) (e : SystemError) : Service := s.mapStore (·.mapNetwork (·.fail e))

/-- Counts something rejected. -/
def reject (s : Service) : Service := { s with rejected := s.rejected + 1 }

/-! ### Replies -/

/-- The reply to a command that failed in the store. -/
def failure (e : StoreError) : Reply := .failure e.kind.name e.message

/-- The reply to a write: one when it was accepted. -/
def writeReply : Except StoreError Outcome → Reply
  | .error e => failure e
  | .ok .accepted => .integer 1
  | .ok .rejected => .integer 0

/-- The reply to a read. -/
def readReply : Except StoreError (Option Bytes) → Reply
  | .error e => failure e
  | .ok none => .null
  | .ok (some value) => .bulk value

/-- The reply that shows a record: names and values by turns, nothing for a key without a record. -/
def recordReply : Except StoreError (Option Snapshot) → Reply
  | .error e => failure e
  | .ok none => .array []
  | .ok (some shown) =>
    .array [
      .bulk (Bytes.ofString "write_ts"), .bulk shown.record.written.text,
      .bulk (Bytes.ofString "invalidate_ts"), .bulk shown.record.invalidated.text,
      .bulk (Bytes.ofString "value"), (shown.record.value.map Reply.bulk).getD .null,
      .bulk (Bytes.ofString "retention_ms"),
      .integer ((shown.retention.map UInt64.toInt64).getD (-1))]

/-- The report on the cache and on the server, with so many clients connected. -/
def info (s : Service) (connected : Nat) : Bytes :=
  s.cache.info ++
  Bytes.reportLine "connected_clients" (Decimal.ofNat connected) ++
  Bytes.reportLine "rejected_requests" (Decimal.ofNat s.rejected) ++
  Bytes.reportLine "avg_request_bytes" (Decimal.average s.receivedBytes s.requests)

/-! ### Requests -/

/-- Serves a command. -/
def run (s : Service) (connected : Nat) : Command → Reply × Service
  | .ping => (.simple (Bytes.ofString "PONG"), s)
  | .set key value ts =>
    let (result, cache) := s.cache.set key value ts
    (writeReply result, { s with cache })
  | .invalidate key ts =>
    let (result, cache) := s.cache.invalidate key ts
    (writeReply result, { s with cache })
  | .get key =>
    let (result, cache) := s.cache.get key
    (readReply result, { s with cache })
  | .setAll items ts =>
    let (results, cache) := s.cache.setAll items ts
    (.array (results.map writeReply), { s with cache })
  | .inspect key =>
    let (result, cache) := s.cache.inspect key
    (recordReply result, { s with cache })
  | .info => (.bulk (s.info connected), s)
  | .slowLog count => (SlowLog.newest s.slowLog count, s)
  | .clearSlowLog => (.simple (Bytes.ofString "OK"), { s with slowLog := [] })

/-- Refuses a request. -/
def refuse (s : Service) (r : Command.Refusal) : Reply × Service :=
  (.refusal r.message, if r.isCounted then s.reject else s)

/-- Keeps the command of a request that was served since `started`, if it was slow.  Requests
without a name are not kept. -/
def noteLatency (s : Service) (words : List Bytes) (started : Instant) : Service :=
  match words.head? with
  | none => s
  | some name => { s with slowLog := SlowLog.record s.slowLog (Bytes.upper name) started s.now }

/-- Serves a request. -/
def answer (s : Service) (connected : Nat) (words : List Bytes) : Reply × Service :=
  let s := { s with requests := s.requests + 1 }
  let started := s.now
  let (reply, s) := match Command.parse words with
    | .error refusal => s.refuse refusal
    | .ok command => s.run connected command
  (reply, s.noteLatency words started)

end Service

end CoherentCache
