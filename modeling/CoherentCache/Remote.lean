import CoherentCache.Remote.Connection
import CoherentCache.Remote.Procedure
import CoherentCache.Store

/-!
# The remote store

Records live in a remote store, on which every operation is one procedure.  The procedures are sent
once per connection; the handles that the remote store answers with are used to call them from then
on.  A call that fails on the way is attempted again, up to a limit; the failure of the last attempt
is reported, with a warning when the remote store may have run the procedure all the same.

* `RemoteStore.attempt` : one attempt to run a procedure.
* `RemoteStore.run` : attempts until there is a reply, or no attempt is left.
* `RemoteStore.Linked` : the store together with the network, a `RecordStore`.
-/

namespace CoherentCache

namespace RemoteStore

/-- The handles of the procedures on one connection. -/
structure Handles where
  /-- For storing a value. -/
  set : Bytes
  /-- For raising the invalidation timestamp. -/
  invalidate : Bytes
  /-- For reading the visible value. -/
  get : Bytes
  /-- For reading all fields. -/
  inspect : Bytes
deriving DecidableEq

/-- The handle of a procedure. -/
def Handles.of (h : Handles) : Procedure → Bytes
  | .set => h.set
  | .invalidate => h.invalidate
  | .get => h.get
  | .inspect => h.inspect

/-- What the store counts. -/
structure Counters where
  /-- Calls of procedures. -/
  calls : Nat := 0
  /-- Attempts after the first one of a call. -/
  retries : Nat := 0
  /-- Connections made. -/
  reconnects : Nat := 0
  /-- Times all procedures were sent. -/
  loads : Nat := 0
  /-- Failures to connect, and requests without a reply. -/
  transportErrors : Nat := 0
  /-- Replies that say that a record is corrupt, and fields that are not those of a record. -/
  corrupt : Nat := 0
deriving DecidableEq

/-- Why an attempt failed. -/
inductive Cause where
  /-- No connection was made. -/
  | unreachable (faults : List ConnectFault)
  /-- A procedure was sent and no reply came. -/
  | loadFailed (failure : Connection.Failure)
  /-- A procedure was sent and the remote store did not answer with a handle. -/
  | loadRefused (reply : Reply)
  /-- A procedure was called and no reply came. -/
  | callFailed (failure : Connection.Failure)

namespace Cause

/-- The cause in words. -/
def message : Cause → Bytes
  | .unreachable faults => Connection.faultsMessage faults
  | .loadFailed failure | .callFailed failure => failure.message
  | .loadRefused (.error text) => Bytes.ofString "SCRIPT LOAD failed: " ++ text
  | .loadRefused _ => Bytes.ofString "SCRIPT LOAD failed: bad reply"

/-- The remote store may have run the procedure. -/
def mayHaveRun : Cause → Bool
  | .callFailed failure => failure.mayHaveArrived
  | _ => false

/-- The network is to blame, and not the remote store. -/
def isTransport : Cause → Bool
  | .loadRefused _ => false
  | _ => true

end Cause

end RemoteStore

/-- The near side of a remote store. -/
structure RemoteStore where
  /-- How the remote store is reached and used. -/
  settings : RemoteSettings
  /-- The connection to it. -/
  connection : Connection
  /-- The handles of the procedures; `none` when they have yet to be sent. -/
  handles : Option RemoteStore.Handles
  /-- What the store counted. -/
  counters : RemoteStore.Counters

namespace RemoteStore

/-- A store that was not used yet. -/
def ofSettings (settings : RemoteSettings) : RemoteStore := ⟨settings, .closed, none, {}⟩

/-- The store together with the network. -/
structure Linked where
  /-- The store. -/
  store : RemoteStore
  /-- The network. -/
  network : Network

namespace Linked

/-- Changes the counters. -/
def count (l : Linked) (f : Counters → Counters) : Linked :=
  { l with store.counters := f l.store.counters }

/-- Counts a failed attempt, if the network is to blame. -/
def countCause (l : Linked) (cause : Cause) : Linked :=
  if cause.isTransport then
    l.count fun c => { c with transportErrors := c.transportErrors + 1 }
  else l

/-- Counts one corrupt record. -/
def countCorrupt (l : Linked) : Linked := l.count fun c => { c with corrupt := c.corrupt + 1 }

/-- Forgets the handles, so that the procedures are sent again. -/
def forgetHandles (l : Linked) : Linked := { l with store.handles := none }

/-- Sends a request on the connection and waits for its reply. -/
def call (l : Linked) (request : List Bytes) : Except Connection.Failure Reply × Linked :=
  let (result, connection, network) := l.store.connection.call l.network request
  (result, { l with store.connection := connection, network })

/-! ### Getting ready -/

/-- Makes a connection, unless one is open.  On a new connection no procedure has a handle. -/
def connect (l : Linked) : Except (List ConnectFault) Unit × Linked :=
  if l.store.connection.isOpen then (.ok (), l)
  else
    let (faults, connection, network) := l.store.connection.connect l.store.settings l.network
    let l := { l with store.connection := connection, network }
    if connection.isOpen then
      (.ok (), l.forgetHandles.count fun c => { c with reconnects := c.reconnects + 1 })
    else (.error faults, l)

/-- Sends the text of a procedure; the handle is what the remote store answers with. -/
def load (l : Linked) (p : Procedure) : Except Cause Bytes × Linked :=
  match l.call [Bytes.ofString "SCRIPT", Bytes.ofString "LOAD", p.text] with
  | (.error failure, l) => (.error (.loadFailed failure), l)
  | (.ok (.bulk handle), l) => (.ok handle, l)
  | (.ok reply, l) => (.error (.loadRefused reply), l)

/-- Sends the texts of all procedures, one after the other, up to the first that gets no handle. -/
def loadAll (l : Linked) : Except Cause Handles × Linked :=
  match l.load .set with
  | (.error cause, l) => (.error cause, l)
  | (.ok set, l) =>
    match l.load .invalidate with
    | (.error cause, l) => (.error cause, l)
    | (.ok invalidate, l) =>
      match l.load .get with
      | (.error cause, l) => (.error cause, l)
      | (.ok get, l) =>
        match l.load .inspect with
        | (.error cause, l) => (.error cause, l)
        | (.ok inspect, l) => (.ok ⟨set, invalidate, get, inspect⟩, l)

/-- The handles of the procedures, which are sent if they have none. -/
def handles (l : Linked) : Except Cause Handles × Linked :=
  match l.store.handles with
  | some handles => (.ok handles, l)
  | none =>
    match l.loadAll with
    | (.error cause, l) => (.error cause, l)
    | (.ok handles, l) =>
      (.ok handles, ({ l with store.handles := some handles } : Linked).count fun c =>
        { c with loads := c.loads + 1 })

/-- Connects if need be and gives the handles of the procedures. -/
def ready (l : Linked) : Except Cause Handles × Linked :=
  match l.connect with
  | (.error faults, l) => (.error (.unreachable faults), l)
  | (.ok (), l) => l.handles

/-! ### Running procedures -/

/-- The request that calls a procedure on a key. -/
def request (handle key : Bytes) (arguments : List Bytes) : List Bytes :=
  Bytes.ofString "EVALSHA" :: handle :: Bytes.ofString "1" :: key :: arguments

/-- Gets ready and calls a procedure once. -/
def callOnce (l : Linked) (p : Procedure) (key : Bytes) (arguments : List Bytes) :
    Except Cause Reply × Linked :=
  match l.ready with
  | (.error cause, l) => (.error cause, l)
  | (.ok handles, l) =>
    let (result, l) := l.call (request (handles.of p) key arguments)
    (result.mapError .callFailed, l)

/-- The remote store does not know the handle. -/
def isUnknownHandle : Except Cause Reply → Bool
  | .ok (.error text) => (Bytes.ofString "NOSCRIPT").isPrefixOf text
  | _ => false

/-- One attempt to run a procedure.  When the remote store does not know the handle, the procedures
are sent again and the call is made again, unless that was `reloaded` in an earlier attempt already.
The second part of the answer says whether it has been done by now. -/
def attempt (l : Linked) (reloaded : Bool) (p : Procedure) (key : Bytes) (arguments : List Bytes) :
    Except Cause Reply × Bool × Linked :=
  let (result, l) := l.callOnce p key arguments
  if isUnknownHandle result && !reloaded then
    let (result, l) := l.forgetHandles.callOnce p key arguments
    (result, true, l)
  else (result, reloaded, l)

/-- What is reported when no attempt is left. -/
def givenUp (target : RemoteSettings) (cause : Cause) (unsure : Bool) : StoreError :=
  ⟨.unavailable,
    Bytes.ofString "redis " ++ target.host ++ 58 :: Decimal.ofInt target.port ++
    Bytes.ofString ": " ++ cause.message ++
    if unsure then Bytes.ofString " (outcome unknown, re-read the key)" else []⟩

/-- Attempts to run a procedure, and as many times again as there are `retries` left.  `reloaded`
says that the procedures were sent again for this call, and `unsure` that the remote store may have
run the procedure in an attempt that failed. -/
def runFrom : (retries : Nat) → (reloaded unsure : Bool) → Linked → Procedure → Bytes →
    List Bytes → Except StoreError Reply × Linked
  | retries, reloaded, unsure, l, p, key, arguments =>
    match l.attempt reloaded p key arguments with
    | (.ok reply, _, l) => (.ok reply, l)
    | (.error cause, reloaded, l) =>
      let l := l.countCause cause
      let unsure := unsure || cause.mayHaveRun
      match retries with
      | 0 => (.error (givenUp l.store.settings cause unsure), l)
      | retries + 1 =>
        let l := l.count fun c => { c with retries := c.retries + 1 }
        runFrom retries reloaded unsure l p key arguments

/-- Runs a procedure on a key. -/
def run (l : Linked) (p : Procedure) (key : Bytes) (arguments : List Bytes) :
    Except StoreError Reply × Linked :=
  let l := l.count fun c => { c with calls := c.calls + 1 }
  l.runFrom l.store.settings.maxRetries false false p key arguments

/-! ### Replies -/

/-- A failure that the near side words. -/
def unavailable (text : Bytes) : StoreError := ⟨.unavailable, Bytes.ofString "redis: " ++ text⟩

/-- The reply starts with the word for a corrupt record. -/
def saysCorrupt (text : Bytes) : Bool := (Bytes.ofString "CORRUPT").isPrefixOf text

/-- What a refusal of the remote store means.  A key that holds something else than a record is
corrupt too. -/
def refusal (text : Bytes) : StoreError :=
  if saysCorrupt text || Bytes.occursIn (Bytes.ofString "WRONGTYPE") text then ⟨.corrupt, text⟩
  else unavailable text

/-- The procedure of an operation, and its arguments after the key. -/
def callOf (retention : UInt64) : Operation → Procedure × List Bytes
  | .set value ts =>
    (.set, [value, Decimal.ofInt ts.seconds.toInt, Decimal.ofInt ts.nanoseconds.toInt])
  | .invalidate ts =>
    (.invalidate, [Decimal.ofInt ts.seconds.toInt, Decimal.ofInt ts.nanoseconds.toInt,
      Decimal.ofNat retention.toNat])
  | .get => (.get, [])

/-- The answer to an operation in a reply that is no refusal.  A write is accepted exactly when the
reply is the integer one. -/
def answerOf (op : Operation) (reply : Reply) : Except StoreError Answer :=
  match op, reply with
  | .get, .bulk value => .ok ⟨.rejected, some value⟩
  | .get, .null => .ok ⟨.rejected, none⟩
  | .get, _ => .error (unavailable (Bytes.ofString "unexpected get reply"))
  | _, .integer v => .ok ⟨if v = 1 then .accepted else .rejected, none⟩
  | _, _ => .error (unavailable (Bytes.ofString "unexpected write reply"))

/-- Runs an operation on a key. -/
def execute (l : Linked) (key : Bytes) (op : Operation) : Except StoreError Answer × Linked :=
  let (p, arguments) := callOf l.store.settings.retention op
  match l.run p key arguments with
  | (.error e, l) => (.error e, l)
  | (.ok (.error text), l) =>
    (.error (refusal text), if saysCorrupt text then l.countCorrupt else l)
  | (.ok reply, l) => (answerOf op reply, l)

/-- The fields in a list of names and texts by turns.  Of two texts for one name the later counts,
and a name without a text is left out. -/
def fieldsOf : List Reply → Fields
  | items => go ∅ items
where
  /-- Adds names and texts to the fields gathered so far. -/
  go (fields : Fields) : List Reply → Fields
    | name :: text :: rest => go (fields.insert name.text text.text) rest
    | _ => fields

/-- Shows the record of a key. -/
def inspect (l : Linked) (key : Bytes) : Except StoreError (Option Snapshot) × Linked :=
  match l.run .inspect key [] with
  | (.error e, l) => (.error e, l)
  | (.ok (.error text), l) => (.error (refusal text), l)
  | (.ok (.array [.array [], .integer _]), l) => (.ok none, l)
  | (.ok (.array [.array items, .integer left]), l) =>
    match Record.ofFields (fieldsOf items) with
    | .error fault => (.error (.corruptRecord key fault), l.countCorrupt)
    | .ok record => (.ok (some ⟨record, if 0 ≤ left then some left.toUInt64 else none⟩), l)
  | (.ok _, l) => (.error (unavailable (Bytes.ofString "unexpected peek reply")), l)

/-- Asks the remote store for a sign of life. -/
def ping (l : Linked) : Except StoreError Unit × Linked :=
  match l.connect with
  | (.error faults, l) => (.error (unavailable (Connection.faultsMessage faults)), l)
  | (.ok (), l) =>
    match l.call [Bytes.ofString "PING"] with
    | (.error failure, l) => (.error (unavailable failure.message), l)
    | (.ok (.error text), l) => (.error (unavailable text), l)
    | (.ok _, l) => (.ok (), l)

/-- Closes the connection. -/
def close (l : Linked) : Linked :=
  let (connection, network) := l.store.connection.close l.network
  { l with store.connection := connection, network }

end Linked

/-- The word for this kind of store. -/
def name : Bytes := Bytes.ofString "redis"

/-- A report on the store. -/
def info (r : RemoteStore) : Bytes :=
  Bytes.reportLine "store" name ++
  Bytes.reportLine "redis_endpoint" (r.settings.host ++ 58 :: Decimal.ofInt r.settings.port) ++
  Bytes.reportLine "tombstone_ttl_ms" (Decimal.ofNat r.settings.retention.toNat) ++
  Bytes.reportLine "calls" (Decimal.ofNat r.counters.calls) ++
  Bytes.reportLine "retries" (Decimal.ofNat r.counters.retries) ++
  Bytes.reportLine "reconnects" (Decimal.ofNat r.counters.reconnects) ++
  Bytes.reportLine "script_loads" (Decimal.ofNat r.counters.loads) ++
  Bytes.reportLine "transport_errors" (Decimal.ofNat r.counters.transportErrors) ++
  Bytes.reportLine "corrupt_records" (Decimal.ofNat r.counters.corrupt)

instance : RecordStore Linked where
  name _ := RemoteStore.name
  execute := Linked.execute
  inspect := Linked.inspect
  info l := l.store.info

end RemoteStore

end CoherentCache
