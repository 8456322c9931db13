import CoherentCache.MemoryStore
import CoherentCache.Remote
import CoherentCache.Settings

/-!
# The store of a server

A server keeps its records in one of the two kinds of store, as its settings say.

* `Host` : either kind of store, together with the clock and the network, a `RecordStore`.
* `Host.ofSettings` : the store that settings ask for.
-/

namespace CoherentCache

/-- Either kind of store. -/
inductive Repository where
  /-- In the memory of the server. -/
  | memory (store : MemoryStore)
  /-- In a remote store. -/
  | remote (store : RemoteStore)

/-- A store together with the clock and the network. -/
structure Host where
  /-- The store. -/
  repository : Repository
  /-- The network, and with it the clock. -/
  network : Network

namespace Host

/-- The store that settings ask for. -/
def ofSettings (s : Settings) (n : Network) : Except Bytes Host :=
  match Backend.ofWord? s.backend with
  | some .memory => .ok ⟨.memory (.empty s.memory), n⟩
  | some .remote => .ok ⟨.remote (.ofSettings s.remote), n⟩
  | none => .error (Backend.unknown s.backend)

/-- What the clock shows. -/
def now (h : Host) : Instant := h.network.now

/-- Changes the network. -/
def mapNetwork (h : Host) (f : Network → Network) : Host := { h with network := f h.network }

/-- The host after something was done to its remote store. -/
def ofRemote (l : RemoteStore.Linked) : Host := ⟨.remote l.store, l.network⟩

instance : RecordStore Host where
  name h :=
    match h.repository with
    | .memory _ => MemoryStore.name
    | .remote _ => RemoteStore.name
  execute h key op :=
    match h.repository with
    | .memory m =>
      let (answer, m) := m.execute h.now key op
      (answer, { h with repository := .memory m })
    | .remote r =>
      let (answer, l) := RemoteStore.Linked.execute ⟨r, h.network⟩ key op
      (answer, .ofRemote l)
  inspect h key :=
    match h.repository with
    | .memory m =>
      let (shown, m) := m.inspect h.now key
      (shown, { h with repository := .memory m })
    | .remote r =>
      let (shown, l) := RemoteStore.Linked.inspect ⟨r, h.network⟩ key
      (shown, .ofRemote l)
  info h :=
    match h.repository with
    | .memory m => m.info
    | .remote r => r.info

/-- Drops expired keys.  A remote store sees to that by itself. -/
def sweep (h : Host) : Host :=
  match h.repository with
  | .memory m => { h with repository := .memory (m.sweep h.now) }
  | .remote _ => h

/-- Asks a remote store for a sign of life; a store in memory needs none. -/
def ping (h : Host) : Except StoreError Unit × Host :=
  match h.repository with
  | .memory _ => (.ok (), h)
  | .remote r =>
    let (result, l) := RemoteStore.Linked.ping ⟨r, h.network⟩
    (result, .ofRemote l)

/-- Closes the connection to a remote store. -/
def close (h : Host) : Host :=
  match h.repository with
  | .memory _ => h
  | .remote r => .ofRemote (RemoteStore.Linked.close ⟨r, h.network⟩)

end Host

end CoherentCache
