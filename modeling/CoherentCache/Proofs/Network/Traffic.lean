import CoherentCache.Network

/-!
# What went over each connection

The log of the network is one list for all connections.  Only one of them is open at a time, so the
log tells what went over each.

* `Network.traffic` : what went over the connection that is open, and over those that were closed.
* `Network.bytesSent`, `Network.bytesReceived` : what was sent and received, on whatever connection.
* `Network.reachFirst_quietly` : trying addresses sends nothing.
-/

namespace CoherentCache

/-- What went over one connection. -/
structure Session where
  /-- What was handed over to be sent. -/
  sent : Bytes
  /-- What was received. -/
  received : Bytes
deriving DecidableEq

/-- What went over all connections. -/
structure Traffic where
  /-- What went over the connection that is open. -/
  current : Option Session
  /-- What went over those that were closed, the latest first. -/
  broken : List Session
deriving DecidableEq

namespace Traffic

/-- No connection was made. -/
def empty : Traffic := ⟨none, []⟩

/-- After one more event.  The limits of time are set on a socket once it is a connection; a socket
that is closed before that carried nothing. -/
def after (t : Traffic) : NetworkEvent → Traffic
  | .sendTimeout _ _ => { t with current := some ⟨[], []⟩ }
  | .send data => { t with current := t.current.map fun s => { s with sent := s.sent ++ data } }
  | .receive data =>
    { t with current := t.current.map fun s => { s with received := s.received ++ data } }
  | .close => ⟨none, t.current.toList ++ t.broken⟩
  | .resolve _ _ | .noSocket | .connect _ _ _ | .wait _ | .receiveTimeout _ _ | .bind _ => t

end Traffic

namespace Network

/-- What went over all connections so far. -/
def traffic (n : Network) : Traffic := n.events.foldr (fun e t => t.after e) .empty

/-- What was sent in the course of some events, the newest event first. -/
def bytesSent : List NetworkEvent → Bytes
  | [] => []
  | .send data :: events => bytesSent events ++ data
  | _ :: events => bytesSent events

theorem bytesSent_append (later earlier : List NetworkEvent) :
    bytesSent (later ++ earlier) = bytesSent earlier ++ bytesSent later := by
  induction later with
  | nil => exact (List.append_nil _).symm
  | cons e later ih => cases e <;> simp [bytesSent, ih]

/-- What was received in the course of some events, the newest event first. -/
def bytesReceived : List NetworkEvent → Bytes
  | [] => []
  | .receive data :: events => bytesReceived events ++ data
  | _ :: events => bytesReceived events

theorem bytesReceived_append (later earlier : List NetworkEvent) :
    bytesReceived (later ++ earlier) = bytesReceived earlier ++ bytesReceived later := by
  induction later with
  | nil => exact (List.append_nil _).symm
  | cons e later ih => cases e <;> simp [bytesReceived, ih]

section
variable {n m : Network}

theorem traffic_note (e : NetworkEvent) : (n.note e).traffic = n.traffic.after e := rfl

theorem broken_after (t : Traffic) (e : NetworkEvent) : t.broken <:+ (t.after e).broken := by
  cases e with
  | close => exact List.suffix_append ..
  | _ => exact List.suffix_refl _

/-- Connections that were closed stay closed. -/
theorem broken_isSuffix (h : n.events <:+ m.events) : n.traffic.broken <:+ m.traffic.broken := by
  obtain ⟨new, hnew⟩ := h
  rw [traffic, traffic, ← hnew, List.foldr_append]
  clear hnew
  induction new with
  | nil => exact List.suffix_refl _
  | cons e new ih => exact ih.trans (broken_after _ e)

theorem traffic_eq (h : m.events = n.events) : m.traffic = n.traffic := by
  rw [traffic, h]
  rfl

end

/-! ### Making connections -/

/-- Events that tell of no connection, when none is open: none is made, none is lost and nothing is
sent. -/
def IsQuiet : NetworkEvent → Bool
  | .sendTimeout _ _ | .send _ | .receive _ => false
  | .resolve _ _ | .noSocket | .connect _ _ _ | .wait _ | .receiveTimeout _ _ | .close | .bind _ =>
    true

/-- Quiet events were added to the log. -/
def Quietly (n m : Network) : Prop := ∃ new, m.events = new ++ n.events ∧ new.all IsQuiet

namespace Quietly

variable {l n m : Network}

theorem refl (n : Network) : n.Quietly n := ⟨[], rfl, rfl⟩

theorem trans (h : l.Quietly n) (g : n.Quietly m) : l.Quietly m := by
  obtain ⟨new, hnew, hquiet⟩ := h
  obtain ⟨more, hmore, hquiet'⟩ := g
  exact ⟨more ++ new, by rw [hmore, hnew, List.append_assoc], by
    rw [List.all_append, hquiet, hquiet']; rfl⟩

theorem note {e : NetworkEvent} (h : l.Quietly n) (he : IsQuiet e) : l.Quietly (n.note e) :=
  h.trans ⟨[e], rfl, by simpa using he⟩

theorem traffic (h : n.Quietly m) (hclosed : n.traffic.current = none) : m.traffic = n.traffic := by
  obtain ⟨new, hnew, hquiet⟩ := h
  have hfold : new.foldr (fun e t => t.after e) n.traffic = n.traffic := by
    clear hnew
    induction new with
    | nil => rfl
    | cons e new ih =>
      rw [List.all_cons, Bool.and_eq_true] at hquiet
      rw [List.foldr_cons, ih hquiet.2]
      -- A quiet event changes what is known of connections only by closing one.
      cases e <;> simp_all [IsQuiet, Traffic.after]
      rw [← hclosed]
  rw [Network.traffic, hnew, List.foldr_append]
  exact hfold

theorem bytesSent (h : n.Quietly m) :
    ∃ new, m.events = new ++ n.events ∧ Network.bytesSent new = [] := by
  obtain ⟨new, hnew, hquiet⟩ := h
  refine ⟨new, hnew, ?_⟩
  clear hnew
  induction new with
  | nil => rfl
  | cons e new ih =>
    rw [List.all_cons, Bool.and_eq_true] at hquiet
    cases e <;> simp_all [IsQuiet, Network.bytesSent]

end Quietly

theorem reach_quietly (n : Network) (address : Bytes) (port : Int) (timeout : UInt64) :
    n.Quietly (n.reach address port timeout).2 := by
  unfold reach
  split
  · exact ⟨[.close, .connect _ _ _], rfl, rfl⟩
  · exact ⟨[.noSocket], rfl, rfl⟩
  · exact ⟨[.close, .connect _ _ _], rfl, rfl⟩
  · exact ⟨[.close, .wait _, .connect _ _ _], rfl, rfl⟩
  · exact ⟨[.close, .wait _, .connect _ _ _], rfl, rfl⟩
  · exact ⟨[.close, .wait _, .connect _ _ _], rfl, rfl⟩
  · dsimp only
    split
    · exact ⟨[.wait _, .connect _ _ _], rfl, rfl⟩
    · exact ⟨[.connect _ _ _], rfl, rfl⟩

theorem reachFirst_quietly (port : Int) (timeout : UInt64) (addresses : List Bytes) (n : Network) :
    n.Quietly (reachFirst port timeout addresses n).2 := by
  induction addresses generalizing n with
  | nil => exact .refl n
  | cons address rest ih =>
    have hfirst := n.reach_quietly address port timeout
    rw [reachFirst]
    cases hreach : n.reach address port timeout with
    | mk result n' =>
      rw [hreach] at hfirst
      cases result with
      | ok link => exact hfirst
      | error fault => exact hfirst.trans (ih n')

end Network

end CoherentCache
