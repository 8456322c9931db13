import CoherentCache.Proofs.Remote.Reaches

/-!
# What a remote store does on its connection, deed by deed

A store asks for connections, sends the texts of procedures and calls procedures.  What a call of
the store does is a list of such deeds, each with what came of it; they take the connection and the
network from the state before to the state after, and leave nothing out.

* `RemoteStore.Deed` : something that a store does on its connection.
* `RemoteStore.Linked.Course` : the store did these deeds, in this order, and nothing else.
* `RemoteStore.Linked.Course.lookups_eq` : the log of the network shows the connections that were
  asked for.
-/

namespace CoherentCache

namespace Network

/-- The addresses of a host are looked up. -/
def isLookup : NetworkEvent → Bool
  | .resolve .. => true
  | _ => false

/-- How many times the addresses of a host were looked up, which comes first in every attempt to
make a connection. -/
def lookups (n : Network) : Nat := n.events.countP isLookup

theorem lookups_note (n : Network) (e : NetworkEvent) :
    (n.note e).lookups = n.lookups + if isLookup e then 1 else 0 := List.countP_cons

theorem lookups_reach (n : Network) (address : Bytes) (port : Int) (timeout : UInt64) :
    (n.reach address port timeout).2.lookups = n.lookups := by
  unfold reach
  dsimp only
  split <;> try rfl
  split <;> rfl

theorem lookups_reachFirst (port : Int) (timeout : UInt64) (addresses : List Bytes) (n : Network) :
    (reachFirst port timeout addresses n).2.lookups = n.lookups := by
  induction addresses generalizing n with
  | nil => rfl
  | cons address rest ih =>
    have hfirst := n.lookups_reach address port timeout
    rw [reachFirst]
    cases hreach : n.reach address port timeout with
    | mk result n' =>
      rw [hreach] at hfirst
      cases result with
      | ok link => exact hfirst
      | error fault => exact (ih n').trans hfirst

end Network

namespace Connection

theorem lookups_close (c : Connection) (n : Network) : (c.close n).2.lookups = n.lookups := by
  unfold close
  dsimp only
  split <;> rfl

/-- Whatever comes of a connection that is asked for, the host is looked up once. -/
theorem lookups_connect (c : Connection) (target : RemoteSettings) (n : Network) :
    (c.connect target n).2.2.lookups = n.lookups + 1 := by
  have hresolved (host port : Bytes) :
      ((c.close n).2.note (.resolve host port)).lookups = n.lookups + 1 := by
    rw [Network.lookups_note, c.lookups_close n]
    rfl
  unfold connect
  dsimp only
  split
  · exact hresolved ..
  · next count _ =>
    have hreached := (Network.lookups_reachFirst target.port target.connectTimeout
      (Network.addressesOf count) _).trans
        (hresolved target.host.untilZero (Decimal.ofInt target.port))
    split
    · next heq =>
      rw [heq] at hreached
      exact hreached
    · next heq =>
      rw [heq] at hreached
      exact hreached

theorem lookups_wait (n : Network) (replies : ReplyStream) (receipts : List Receipt) :
    (wait n replies receipts).network.lookups = n.lookups :=
  apply_wait Network.lookups (fun _ _ => rfl) (fun _ _ => rfl) (fun _ _ => rfl) n replies receipts

/-- Nothing is looked up in the course of a call. -/
theorem lookups_call (c : Connection) (n : Network) (request : List Bytes) :
    (c.call n request).2.2.lookups = n.lookups := by
  have hsent := Network.apply_foldl_send Network.lookups fun _ _ => rfl
  unfold call
  split
  · rfl
  · dsimp only
    split
    · rw [lookups_close, hsent]
      rfl
    · split
      · rw [lookups_wait, hsent]
        rfl
      · rw [lookups_close, lookups_wait, hsent]
        rfl

end Connection

namespace RemoteStore

/-- Something that a store does on its connection. -/
inductive Deed where
  /-- It asks for a connection, which is made or not. -/
  | connect (made : Bool)
  /-- It sends the text of a procedure. -/
  | load (p : Procedure) (result : Except Connection.Failure Reply)
  /-- It calls a procedure by its handle. -/
  | evaluate (handle : Bytes) (result : Except Connection.Failure Reply)

namespace Deed

/-- A connection is asked for. -/
@[simp] def isConnect : Deed → Bool
  | .connect _ => true
  | _ => false

/-- The text of a procedure is sent. -/
@[simp] def isLoad : Deed → Bool
  | .load .. => true
  | _ => false

/-- A procedure is called. -/
@[simp] def isEvaluate : Deed → Bool
  | .evaluate .. => true
  | _ => false

/-- The attempt that the deed is part of fails by it. -/
@[simp] def fails : Deed → Bool
  | .connect made => !made
  | .load _ (.ok (.bulk _)) => false
  | .load _ _ => true
  | .evaluate _ (.ok _) => false
  | .evaluate _ (.error _) => true

/-- A procedure is called and the remote store does not know the handle. -/
def isUnknown : Deed → Bool
  | .evaluate _ (.ok reply) => Linked.isUnknownHandle (.ok reply)
  | _ => false

theorem isEvaluate_of_isUnknown {d : Deed} (h : d.isUnknown = true) : d.isEvaluate = true := by
  cases d with
  | evaluate => rfl
  | connect => cases h
  | load => cases h

/-- Every deed is of one of the three kinds. -/
theorem length_eq (deeds : List Deed) :
    deeds.length =
      deeds.countP isConnect + deeds.countP isLoad + deeds.countP isEvaluate := by
  induction deeds with
  | nil => rfl
  | cons d rest ih =>
    rw [List.length_cons, List.countP_cons, List.countP_cons, List.countP_cons, ih]
    cases d <;> simp <;> omega

end Deed

namespace Linked

variable {key : Bytes} {arguments : List Bytes} {l m k : Linked} {deeds deeds' : List Deed}

/-- The store came to this point by these deeds, in this order.  What else it did concerned its own
books.  A connection is asked for when none is open, and texts and calls are sent on an open one;
the calls are for the key and the arguments. -/
inductive Course (key : Bytes) (arguments : List Bytes) (l : Linked) :
    List Deed → Linked → Prop where
  /-- Nothing was done. -/
  | refl : Course key arguments l [] l
  /-- The store kept its books. -/
  | keep {deeds : List Deed} {m m' : Linked} (before : Course key arguments l deeds m)
      (settings : m'.store.settings = m.store.settings)
      (connection : m'.store.connection = m.store.connection)
      (network : m'.network = m.network) : Course key arguments l deeds m'
  /-- A connection was asked for. -/
  | connect {deeds : List Deed} {m : Linked} (before : Course key arguments l deeds m)
      (shut : m.store.connection.isOpen = false) :
      Course key arguments l
        (deeds ++
          [.connect (m.store.connection.connect m.store.settings m.network).2.1.isOpen])
        { m with
          store.connection := (m.store.connection.connect m.store.settings m.network).2.1
          network := (m.store.connection.connect m.store.settings m.network).2.2 }
  /-- The text of a procedure was sent. -/
  | load {deeds : List Deed} {m : Linked} (before : Course key arguments l deeds m)
      (isOpen : m.store.connection.isOpen = true) (p : Procedure) :
      Course key arguments l (deeds ++ [.load p (m.call (loadRequest p)).1])
        (m.call (loadRequest p)).2
  /-- A procedure was called. -/
  | evaluate {deeds : List Deed} {m : Linked} (before : Course key arguments l deeds m)
      (isOpen : m.store.connection.isOpen = true) (handle : Bytes) :
      Course key arguments l
        (deeds ++ [.evaluate handle (m.call (request handle key arguments)).1])
        (m.call (request handle key arguments)).2

theorem Course.trans (h : Course key arguments l deeds m) (g : Course key arguments m deeds' k) :
    Course key arguments l (deeds ++ deeds') k := by
  induction g with
  | refl => rwa [List.append_nil]
  | keep _ settings connection network ih => exact ih.keep settings connection network
  | connect _ shut ih =>
    rw [← List.append_assoc]
    exact ih.connect shut
  | load _ isOpen p ih =>
    rw [← List.append_assoc]
    exact ih.load isOpen p
  | evaluate _ isOpen handle ih =>
    rw [← List.append_assoc]
    exact ih.evaluate isOpen handle

theorem isOpen_call_ok {request : List Bytes} {reply : Reply}
    (h : (l.call request).1 = .ok reply) :
    (l.call request).2.store.connection.isOpen = true := by
  unfold call Connection.call at h ⊢
  dsimp only at h ⊢
  split at h
  · cases h
  · split at h
    · cases h
    · split at h
      · rfl
      · cases h

/-- The log of the network shows the connections that were asked for. -/
theorem Course.lookups_eq (h : Course key arguments l deeds m) :
    m.network.lookups = l.network.lookups + deeds.countP Deed.isConnect := by
  induction h with
  | refl => rfl
  | keep _ _ _ network ih => rwa [network]
  | connect _ _ ih =>
    rw [List.countP_append, ← Nat.add_assoc, ← ih]
    exact Connection.lookups_connect ..
  | load _ _ _ ih =>
    rw [List.countP_append, ← Nat.add_assoc, ← ih]
    exact Connection.lookups_call ..
  | evaluate _ _ _ ih =>
    rw [List.countP_append, ← Nat.add_assoc, ← ih]
    exact Connection.lookups_call ..

end Linked

end RemoteStore

end CoherentCache
