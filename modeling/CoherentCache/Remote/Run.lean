import CoherentCache.Cache.Call
import CoherentCache.Remote

/-!
# Runs of a cache on a remote store

Besides the calls of the cache, a run on a remote store asks it for a sign of life and lets time
pass.  Each step starts with an empty log of the network.

* `RemoteStore.step` : one step of a run.
* `Connection.step` : one step of a run of a bare connection.
-/

namespace CoherentCache

namespace RemoteStore

/-- A step of a run. -/
inductive Step where
  /-- A call of the cache. -/
  | call (c : Cache.Call)
  /-- Ask the remote store for a sign of life. -/
  | ping
  /-- Let time pass. -/
  | advance (nanos : Int64)
  /-- Ask for the counters of the store. -/
  | counters

/-- What a step is answered. -/
inductive Told where
  /-- The answer to a call of the cache. -/
  | call (told : Cache.Told)
  /-- Whether there was a sign of life. -/
  | ping (result : Except StoreError Unit)
  /-- The step has no answer. -/
  | done
  /-- The counters of the store. -/
  | counters (c : Counters)

/-- One step of a run; the network's log is that of this step. -/
def step (c : Cache Linked) (s : Step) : Told × Cache Linked :=
  let c := c.mapStore fun l => { l with network := l.network.forget }
  match s with
  | .call asked =>
    let (told, c) := c.call asked
    (.call told, c)
  | .ping =>
    let (result, store) := c.store.ping
    (.ping result, { c with store })
  | .advance nanos => (.done, c.mapStore fun l => { l with network := l.network.advance nanos })
  | .counters => (.counters c.store.store.counters, c)

end RemoteStore

namespace Connection

/-- A connection together with the network. -/
structure Linked where
  /-- The connection. -/
  connection : Connection
  /-- The network. -/
  network : Network

/-- A step of a run. -/
inductive Step where
  /-- Open a new connection. -/
  | connect
  /-- Send a request and wait for its reply. -/
  | call (request : List Bytes)
  /-- Close the connection. -/
  | close

/-- What a step is answered. -/
inductive Told where
  /-- The connection is open, or not; the faults met on the way. -/
  | connect (isOpen : Bool) (faults : List ConnectFault)
  /-- The reply, or why there is none. -/
  | call (result : Except Failure Reply)
  /-- The connection is closed. -/
  | closed

/-- One step of a run; the network's log is that of this step. -/
def step (settings : RemoteSettings) (l : Linked) (s : Step) : Told × Linked :=
  let n := l.network.forget
  match s with
  | .connect =>
    let (faults, c, n) := l.connection.connect settings n
    (.connect c.isOpen faults, ⟨c, n⟩)
  | .call request =>
    let (result, c, n) := l.connection.call n request
    (.call result, ⟨c, n⟩)
  | .close =>
    let (c, n) := l.connection.close n
    (.closed, ⟨c, n⟩)

end Connection

end CoherentCache
