import CoherentCache.Instant
import CoherentCache.Resp.Reply

/-!
# The log of slow commands

Commands that took longer than a bound are kept, the newest ones only.

* `SlowLog.record` : keep a command if it was slow.
* `SlowLog.newest` : the newest entries, as a reply.
-/

namespace CoherentCache

/-- A slow command. -/
structure SlowLogEntry where
  /-- The name of the command, in upper case. -/
  command : Bytes
  /-- How long it took, in microseconds. -/
  latency : UInt64
  /-- When it was done, in milliseconds since the epoch. -/
  finished : Int64
deriving DecidableEq

/-- The log of slow commands, the newest first. -/
abbrev SlowLog := List SlowLogEntry

namespace SlowLog

/-- How many microseconds a command may take without being slow. -/
def threshold : UInt64 := 5000

/-- How many entries are kept. -/
def capacity : Nat := 256

/-- Keeps a command that ran from `started` to `finished`, if it was slow.  The oldest entry makes
room. -/
def record (log : SlowLog) (command : Bytes) (started finished : Instant) : SlowLog :=
  let latency := started.microsUntil finished
  if threshold < latency then (⟨command, latency, finished.millis⟩ :: log).take capacity else log

/-- An entry as a reply. -/
def entryReply (e : SlowLogEntry) : Reply :=
  .array [.integer e.finished, .integer e.latency.toInt64, .bulk e.command]

/-- The newest entries, as a reply. -/
def newest (log : SlowLog) (count : Nat) : Reply := .array ((log.take count).map entryReply)

end SlowLog

end CoherentCache
