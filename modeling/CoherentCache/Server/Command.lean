import CoherentCache.Resp.Request
import CoherentCache.Timestamp

/-!
# Commands of clients

A request is a list of words, the first of which names a command.  Letters of the name count alike
in either case.  A request that is none of the commands is refused, and the refusal says how the
command is used.

* `Command.parse` : the command of a request, or why it is refused.
* `Command.Refusal` : why a request is refused.
-/

namespace CoherentCache

/-- The names that a request can start with. -/
inductive Verb where
  /-- Ask for a sign of life. -/
  | ping
  /-- Store a value. -/
  | set
  /-- Invalidate a key. -/
  | invalidate
  /-- Read a key. -/
  | get
  /-- Store several values. -/
  | setAll
  /-- Look at the record of a key. -/
  | inspect
  /-- Ask for the report. -/
  | info
  /-- Read or clear the log of slow commands. -/
  | slowLog
deriving DecidableEq

namespace Verb

/-- The name in upper case. -/
def word : Verb → Bytes
  | .ping => Bytes.ofString "PING"
  | .set => Bytes.ofString "TS.SET"
  | .invalidate => Bytes.ofString "TS.INVALIDATE"
  | .get => Bytes.ofString "TS.GET"
  | .setAll => Bytes.ofString "TS.MSET"
  | .inspect => Bytes.ofString "TS.RECORD"
  | .info => Bytes.ofString "INFO"
  | .slowLog => Bytes.ofString "SLOWLOG"

/-- How the command is used. -/
def usage : Verb → Bytes
  | .ping => Bytes.ofString "PING"
  | .set => Bytes.ofString "TS.SET key value sec nsec"
  | .invalidate => Bytes.ofString "TS.INVALIDATE key sec nsec"
  | .get => Bytes.ofString "TS.GET key"
  | .setAll => Bytes.ofString "TS.MSET sec nsec key value [key value ...]"
  | .inspect => Bytes.ofString "TS.RECORD key"
  | .info => Bytes.ofString "INFO"
  | .slowLog => Bytes.ofString "SLOWLOG GET [N]|RESET"

/-- All names. -/
def all : List Verb := [.ping, .set, .invalidate, .get, .setAll, .inspect, .info, .slowLog]

/-- The command with the given name, in letters of either case. -/
def ofWord? (w : Bytes) : Option Verb := all.find? fun v => v.word = Bytes.upper w

end Verb

/-- A command of a client. -/
inductive Command where
  /-- Ask for a sign of life. -/
  | ping
  /-- Store a value. -/
  | set (key value : Bytes) (ts : Timestamp)
  /-- Invalidate a key. -/
  | invalidate (key : Bytes) (ts : Timestamp)
  /-- Read a key. -/
  | get (key : Bytes)
  /-- Store several values, all with one timestamp. -/
  | setAll (items : List (Bytes × Bytes)) (ts : Timestamp)
  /-- Look at the record of a key. -/
  | inspect (key : Bytes)
  /-- Ask for the report. -/
  | info
  /-- Read the newest entries of the log of slow commands. -/
  | slowLog (count : Nat)
  /-- Clear the log of slow commands. -/
  | clearSlowLog
deriving DecidableEq

namespace Command

/-- Why a request is refused. -/
inductive Refusal where
  /-- The bytes received are no request. -/
  | malformed
  /-- The request has no words. -/
  | empty
  /-- No command has that name. -/
  | unknown
  /-- The command is not used like that. -/
  | misused (verb : Verb)
deriving DecidableEq

namespace Refusal

/-- The refusal in words. -/
def message : Refusal → Bytes
  | .malformed => Bytes.ofString "malformed RESP"
  | .empty => Bytes.ofString "empty command"
  | .unknown => Bytes.ofString "unknown command"
  | .misused verb => verb.usage

/-- The refusal is counted as a rejected request; that of a wrong use of the log of slow commands is
not. -/
def isCounted (r : Refusal) : Bool := r != .misused .slowLog

end Refusal

/-- The timestamp in two words, which must be normal. -/
def readTimestamp? (seconds nanoseconds : Bytes) : Option Timestamp :=
  match Decimal.readInt64? seconds, Decimal.readInt32? nanoseconds with
  | some s, some n =>
    let ts : Timestamp := ⟨s, n⟩
    if ts.Normal then some ts else none
  | _, _ => none

/-- Words two by two; `none` when one is left over. -/
def pairs? : List Bytes → Option (List (Bytes × Bytes))
  | [] => some []
  | [_] => none
  | key :: value :: rest => (pairs? rest).map ((key, value) :: ·)

/-- How many entries of the log of slow commands are given when no number is named. -/
def defaultEntries : Nat := 16

/-- How many entries of the log of slow commands are given at most. -/
def maxEntries : Nat := 256

/-- The use of the log of slow commands that the words after its name ask for.  A number is heeded
when it is the last word, and when it can be read. -/
def parseSlowLog : List Bytes → Option Command
  | [] => none
  | action :: rest =>
    if Bytes.upper action = Bytes.ofString "RESET" then some .clearSlowLog
    else if Bytes.upper action = Bytes.ofString "GET" then
      let count := match rest with
        | [n] => ((Decimal.readUInt64? n).map UInt64.toNat).getD defaultEntries
        | _ => defaultEntries
      some (.slowLog (min count maxEntries))
    else none

/-- The command that a name and the words after it ask for; `none` when the command is not used like
that. -/
def parseArguments : Verb → List Bytes → Option Command
  | .ping, _ => some .ping
  | .set, [key, value, sec, nsec] => (readTimestamp? sec nsec).map (.set key value)
  | .invalidate, [key, sec, nsec] => (readTimestamp? sec nsec).map (.invalidate key)
  | .get, [key] => some (.get key)
  | .setAll, sec :: nsec :: first :: rest =>
    match readTimestamp? sec nsec, pairs? (first :: rest) with
    | some ts, some items => some (.setAll items ts)
    | _, _ => none
  | .inspect, [key] => some (.inspect key)
  | .info, _ => some .info
  | .slowLog, words => parseSlowLog words
  | _, _ => none

/-- The command of a request. -/
def parse (words : List Bytes) : Except Refusal Command :=
  if words = Request.malformed.words then .error .malformed
  else
    match words with
    | [] => .error .empty
    | name :: arguments =>
      match Verb.ofWord? name with
      | none => .error .unknown
      | some verb =>
        match parseArguments verb arguments with
        | none => .error (.misused verb)
        | some command => .ok command

end Command

end CoherentCache
