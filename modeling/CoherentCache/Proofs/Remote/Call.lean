import CoherentCache.Proofs.Network.Traffic
import CoherentCache.Proofs.Resp.Command
import CoherentCache.Proofs.Resp.Reading
import CoherentCache.Remote.Connection

/-!
# Calls on a connection stay in step

On an open connection the requests that were sent and the replies that were read are as many, and
the reply to a request is the one at its position in the stream.  A call that gets a reply keeps it
so, and one that gets none closes the connection.

* `Connection.Paired` : the connection is open and in step.
* `Connection.call_of_paired` : what a call on such a connection leads to.
* `Session.Lost` : a connection was closed after a request and before its reply.
* `Session.Unanswered.eq_of_lost` : at most the last request is lost, that of the failed call.
-/

namespace CoherentCache

/-! ### Sending and receiving -/

namespace Network

/-- The events of sends that took the given data. -/
theorem foldl_send (taken : List Bytes) (n : Network) :
    ∃ new, (taken.foldl (fun n data => n.note (.send data)) n).events = new ++ n.events ∧
      bytesSent new = taken.flatten := by
  induction taken generalizing n with
  | nil => exact ⟨[], rfl, rfl⟩
  | cons data taken ih =>
    obtain ⟨new, hnew, hsent⟩ := ih (n.note (.send data))
    refine ⟨new ++ [.send data], ?_, ?_⟩
    · rw [List.foldl_cons, hnew, List.append_assoc]
      rfl
    · rw [bytesSent_append, hsent]
      rfl

/-- What no single send changes, many do not change either. -/
theorem apply_foldl_send {α : Type} (f : Network → α)
    (hsend : ∀ (n : Network) (data : Bytes), f (n.note (.send data)) = f n) (taken : List Bytes)
    (n : Network) : f (taken.foldl (fun n data => n.note (.send data)) n) = f n := by
  induction taken generalizing n with
  | nil => rfl
  | cons data taken ih => exact (ih _).trans (hsend n data)

theorem foldl_send_traffic (taken : List Bytes) {n : Network} {s : Session}
    (h : n.traffic.current = some s) :
    (taken.foldl (fun n data => n.note (.send data)) n).traffic =
      ⟨some { s with sent := s.sent ++ taken.flatten }, n.traffic.broken⟩ := by
  induction taken generalizing n s with
  | nil =>
    rw [List.flatten_nil, List.append_nil, ← h]
    rfl
  | cons data taken ih =>
    have hnext : (n.note (.send data)).traffic.current =
        some { s with sent := s.sent ++ data } := by
      rw [traffic_note, Traffic.after, h]
      rfl
    rw [List.foldl_cons, ih hnext, List.flatten_cons, List.append_assoc]
    rfl

end Network

namespace Connection

/-- The call failed after its request was sent in full. -/
def Failure.isAfterSending : Failure → Bool
  | .notConnected | .send _ | .nothingSent _ => false
  | .malformed | .closedByPeer | .receive _ => true

/-- The sends of a delivery took a beginning of the data, and all of it unless the delivery failed.
What is said of the failure does not deny that something may have arrived. -/
theorem deliver_spec (last : Option SystemError) (sendings : List Sending) (data : Bytes) :
    (deliver last sendings data).taken.flatten <+: data ∧
      match (deliver last sendings data).failure with
      | none => (deliver last sendings data).taken.flatten = data
      | some failure => failure.mayHaveArrived = true ∧ failure.isAfterSending = false := by
  fun_induction deliver last sendings data with
  | case1 last data => cases data <;> simp
  | case2 last sending rest data hempty => simp_all
  | case3 last rest data hempty ih => exact ih
  | case4 last rest data hempty e hother => exact ⟨List.nil_prefix, rfl, rfl⟩
  | case5 last rest data hempty => exact ⟨List.nil_prefix, rfl, rfl⟩
  | case6 last rest data hempty limit hlimit d ih =>
    obtain ⟨hstart, hresult⟩ := ih
    have hsplit : data = data.take limit ++ data.drop limit := (List.take_append_drop ..).symm
    refine ⟨?_, ?_⟩
    · obtain ⟨left, hleft⟩ := hstart
      exact ⟨left, by rw [List.flatten_cons, List.append_assoc, hleft, ← hsplit]⟩
    · dsimp only
      split at hresult
      · next hnone =>
        rw [hnone]
        dsimp only
        rw [List.flatten_cons, hresult, ← hsplit]
      · next hsome =>
        rw [hsome]
        exact hresult

/-- What is changed by no receive, by no time that passes and by no call that fails is not changed
by waiting. -/
theorem apply_wait {α : Type} (f : Network → α)
    (hreceive : ∀ (n : Network) (bytes : Bytes), f (n.note (.receive bytes)) = f n)
    (hpause : ∀ (n : Network) (micros : Int64), f (n.pause micros) = f n)
    (hfail : ∀ (n : Network) (e : SystemError), f (n.fail e) = f n)
    (n : Network) (replies : ReplyStream) (receipts : List Receipt) :
    f (wait n replies receipts).network = f n := by
  fun_induction wait n replies receipts with
  | case3 n => exact hfail n _
  | case4 n _ _ _ _ _ _ ih => exact ih.trans (hreceive n _)
  | case5 n _ _ _ _ _ _ ih => exact ih.trans (hpause n _)
  | case7 n _ _ _ _ _ ih => exact ih.trans (hfail n _)
  | case8 n => exact hfail n _
  | _ => rfl

variable {n : Network} {replies : ReplyStream} {sent received : Bytes} {taken : List Reply}

/-- Waiting receives and sends nothing.  Either it takes the next reply, or there is none complete
in all that was received. -/
theorem wait_spec (receipts : List Receipt) (hreplies : replies.Holds received taken)
    (hn : n.traffic.current = some ⟨sent, received⟩) :
    (∃ new, (wait n replies receipts).network.events = new ++ n.events ∧
      Network.bytesSent new = []) ∧
    ∃ received', (wait n replies receipts).network.traffic =
        ⟨some ⟨sent, received'⟩, n.traffic.broken⟩ ∧
      match (wait n replies receipts).result with
      | .ok reply => (wait n replies receipts).replies.Holds received' (taken ++ [reply])
      | .error failure => Reply.completeIn received' = taken ∧ failure.mayHaveArrived = true := by
  have hstay : n.traffic = ⟨some ⟨sent, received⟩, n.traffic.broken⟩ := by rw [← hn]
  induction receipts generalizing n replies received with
  | nil =>
    unfold wait
    split
    · next reply replies' hnext =>
      exact ⟨⟨[], rfl, rfl⟩, received, hstay, hreplies.next_some hnext⟩
    · next replies' hnext =>
      obtain ⟨hholds, hahead⟩ := hreplies.next_none hnext
      split
      · exact ⟨⟨[], rfl, rfl⟩, received, hstay, hholds.completeIn_eq hahead, rfl⟩
      · exact ⟨⟨[], rfl, rfl⟩, received, hstay, hholds.completeIn_eq hahead, rfl⟩
  | cons receipt rest ih =>
    unfold wait
    split
    · next reply replies' hnext =>
      exact ⟨⟨[], rfl, rfl⟩, received, hstay, hreplies.next_some hnext⟩
    · next replies' hnext =>
      obtain ⟨hholds, hahead⟩ := hreplies.next_none hnext
      have hnone := hholds.completeIn_eq hahead
      split
      · exact ⟨⟨[], rfl, rfl⟩, received, hstay, hnone, rfl⟩
      · cases receipt with
        | data bytes =>
          have hmore : (n.note (.receive bytes)).traffic =
              ⟨some ⟨sent, received ++ bytes⟩, n.traffic.broken⟩ := by
            rw [Network.traffic_note, Traffic.after, hn]
            rfl
          obtain ⟨⟨new, hnew, hsent⟩, received', htraffic, hresult⟩ :=
            ih (hholds.feed bytes) (by rw [hmore]) (by rw [hmore])
          refine ⟨⟨new ++ [.receive bytes], ?_, ?_⟩, received', ?_, hresult⟩
          · rw [hnew, List.append_assoc]
            rfl
          · rw [Network.bytesSent_append, hsent]
            rfl
          · rw [htraffic, hmore]
        | pause micros => exact ih hholds hn hstay
        | ended => exact ⟨⟨[], rfl, rfl⟩, received, hstay, hnone, rfl⟩
        | fails e =>
          by_cases he : e = .interrupted
          · simp only [he, if_true]
            exact ih (n := n.fail .interrupted) hholds hn hstay
          · simp only [he, if_false]
            exact ⟨⟨[], rfl, rfl⟩, received, hstay, hnone, rfl⟩

/-! ### Being in step -/

/-- Nothing is open. -/
structure Shut (c : Connection) (n : Network) : Prop where
  /-- The connection is not open. -/
  isOpen_eq : c.isOpen = false
  /-- The log tells of none that is. -/
  current : n.traffic.current = none

/-- The connection is open.  The requests were sent on it, nothing else was, and each got one
reply. -/
structure Paired (c : Connection) (n : Network) (requests : List (List Bytes))
    (replies : List Reply) : Prop where
  /-- The connection is open. -/
  isOpen_eq : c.isOpen = true
  /-- What went over it. -/
  session : ∃ received, n.traffic.current = some ⟨requests.flatMap Wire.command, received⟩ ∧
    c.replies.Holds received replies
  /-- There is one reply for each request. -/
  length_eq : replies.length = requests.length

/-- The connection is closed, or as many replies were read on it as requests were sent. -/
def InStep (c : Connection) (n : Network) : Prop :=
  c.Shut n ∨ ∃ requests replies, c.Paired n requests replies

end Connection

namespace Session

/-- After the given requests the last one was sent in full or in part, and the connection was
closed. -/
structure Unanswered (s : Session) (requests : List (List Bytes)) (request : List Bytes) :
    Prop where
  /-- What was sent. -/
  sent : ∃ part, part <+: Wire.command request ∧
    s.sent = requests.flatMap Wire.command ++ part
  /-- The requests before the last one were answered. -/
  received : requests.length ≤ (Reply.completeIn s.received).length

/-- The request was sent in full, as the last one, and its reply was not complete when the
connection was closed. -/
def Lost (s : Session) (request : List Bytes) : Prop :=
  ∃ requests, s.sent = (requests ++ [request]).flatMap Wire.command ∧
    (Reply.completeIn s.received).length ≤ requests.length

/-- **Only the request of the failed call can be lost**: those before it have their replies. -/
theorem Unanswered.eq_of_lost {s : Session} {requests : List (List Bytes)}
    {request lost : List Bytes} (h : s.Unanswered requests request) (hlost : s.Lost lost) :
    lost = request := by
  obtain ⟨part, hpart, hsent⟩ := h.sent
  obtain ⟨before, hlostSent, hreceived⟩ := hlost
  rw [hlostSent] at hsent
  rcases Wire.commands_append_part hpart hsent with hsame | hsame
  · -- Then the lost request is one of those that were answered.
    have hlength := congrArg List.length hsame
    rw [List.length_append, List.length_singleton] at hlength
    have := h.received
    omega
  · exact (List.append_inj' hsame rfl).2 |> List.singleton_inj.1

end Session

namespace Connection

variable {c c' : Connection} {n n' : Network} {request : List Bytes}
  {requests : List (List Bytes)} {replies : List Reply}

theorem close_of_current {s : Session} (hc : c.isOpen = true)
    (hn : n.traffic.current = some s) :
    (c.close n).1.Shut (c.close n).2 ∧
      (c.close n).2.traffic.broken = s :: n.traffic.broken ∧
      (c.close n).2.events = .close :: n.events := by
  have hnote : (c.close n).2 = n.note .close := by rw [close, hc]; rfl
  refine ⟨⟨rfl, ?_⟩, ?_, ?_⟩
  · rw [hnote]; rfl
  · rw [hnote, Network.traffic_note, Traffic.after, hn]; rfl
  · rw [hnote]; rfl

/-- What a call that gets a reply leads to. -/
structure Answered (n : Network) (request : List Bytes) (requests : List (List Bytes))
    (replies : List Reply) (reply : Reply) (c' : Connection) (n' : Network) : Prop where
  /-- The request and its reply are the last ones on the connection. -/
  paired : c'.Paired n' (requests ++ [request]) (replies ++ [reply])
  /-- No connection was closed. -/
  broken : n'.traffic.broken = n.traffic.broken
  /-- The call sent the request and nothing else. -/
  sent : ∃ new, n'.events = new ++ n.events ∧ Network.bytesSent new = Wire.command request

/-- What a call that gets no reply leads to. -/
structure Failed (n : Network) (request : List Bytes) (requests : List (List Bytes))
    (failure : Failure) (c' : Connection) (n' : Network) : Prop where
  /-- The connection was closed. -/
  shut : c'.Shut n'
  /-- On the closed connection all requests but the last one were answered. -/
  broken : ∃ s : Session, s.Unanswered requests request ∧
    (failure.isAfterSending = true → s.Lost request) ∧ n'.traffic.broken = s :: n.traffic.broken
  /-- Nothing is taken from the log. -/
  events : n.events <:+ n'.events
  /-- It is not denied that something may have arrived. -/
  mayHaveArrived : failure.mayHaveArrived = true

/-- **A call keeps the connection in step, or closes it.** -/
theorem call_of_paired (h : c.Paired n requests replies) (request : List Bytes) :
    match c.call n request with
    | (.ok reply, c', n') => Answered n request requests replies reply c' n'
    | (.error failure, c', n') => Failed n request requests failure c' n' := by
  obtain ⟨received, hcurrent, hholds⟩ := h.session
  obtain ⟨link, hlink⟩ := Option.isSome_iff_exists.1 h.isOpen_eq
  simp only [call, hlink]
  generalize hd : deliver n.lastFailure link.sendings (Wire.command request) = d
  obtain ⟨hstart, hdelivered⟩ := hd ▸ deliver_spec n.lastFailure link.sendings _
  generalize hm : d.taken.foldl (fun n data => n.note (.send data))
    { n with lastFailure := d.lastFailure } = m
  obtain ⟨new, hnew, hsent⟩ :=
    hm ▸ Network.foldl_send d.taken { n with lastFailure := d.lastFailure }
  have htraffic : m.traffic =
      ⟨some ⟨requests.flatMap Wire.command ++ d.taken.flatten, received⟩, n.traffic.broken⟩ :=
    hm ▸ Network.foldl_send_traffic d.taken (n := { n with lastFailure := d.lastFailure }) hcurrent
  have hbefore : requests.length ≤ (Reply.completeIn received).length :=
    h.length_eq ▸ hholds.replies_isPrefix.length_le
  cases hfailure : d.failure with
  | some failure =>
    -- The request was sent in part at most.
    rw [hfailure] at hdelivered
    obtain ⟨hshut, hbroken, hevents⟩ := close_of_current h.isOpen_eq (n := m) (by rw [htraffic])
    refine ⟨hshut, ⟨⟨_, received⟩, ⟨⟨_, hstart, rfl⟩, hbefore⟩, ?_, ?_⟩, ?_, hdelivered.1⟩
    · intro hafter
      rw [hdelivered.2] at hafter
      cases hafter
    · rw [hbroken, htraffic]
    · rw [hevents, hnew]
      exact ⟨.close :: new, rfl⟩
  | none =>
    rw [hfailure] at hdelivered
    dsimp only at hdelivered ⊢
    rw [hdelivered] at htraffic hsent
    obtain ⟨⟨more, hmore, hquiet⟩, received', htraffic', hresult⟩ :=
      wait_spec link.receipts hholds (by rw [htraffic])
    generalize wait m c.replies link.receipts = w at *
    cases hw : w.result with
    | ok reply =>
      rw [hw] at hresult
      refine ⟨⟨rfl, ⟨received', ?_, hresult⟩, ?_⟩, ?_, ⟨more ++ new, ?_, ?_⟩⟩
      · rw [htraffic', List.flatMap_append]
        simp
      · simp [h.length_eq]
      · rw [htraffic', htraffic]
      · rw [hmore, hnew, List.append_assoc]
      · rw [Network.bytesSent_append, hquiet, hsent, List.append_nil]
    | error failure =>
      -- The request was sent in full, and no further reply came.
      rw [hw] at hresult
      obtain ⟨hshut, hbroken, hevents⟩ :=
        close_of_current h.isOpen_eq (n := w.network) (by rw [htraffic'])
      have hlast : (Reply.completeIn received').length = requests.length := by
        rw [hresult.1, h.length_eq]
      refine ⟨hshut, ⟨⟨_, received'⟩, ⟨⟨_, List.prefix_refl _, rfl⟩, Nat.le_of_eq hlast.symm⟩, ?_,
        ?_⟩, ?_, hresult.2⟩
      · intro hafter
        exact ⟨requests, by simp, Nat.le_of_eq hlast⟩
      · rw [hbroken, htraffic', htraffic]
      · rw [hevents, hmore, hnew]
        exact ⟨.close :: (more ++ new), by simp⟩

/-! ### Opening and closing -/

theorem limitTimes_traffic (millis : UInt64) (n : Network) :
    (limitTimes millis n).traffic = ⟨some ⟨[], []⟩, n.traffic.broken⟩ := rfl

/-- Opening a connection sends no request. -/
structure Opened (n : Network) (c' : Connection) (n' : Network) : Prop where
  /-- The connection was made, or none is open. -/
  inStep : c'.Shut n' ∨ c'.Paired n' [] []
  /-- No connection was closed. -/
  broken : n'.traffic.broken = n.traffic.broken
  /-- Nothing was sent. -/
  sent : ∃ new, n'.events = new ++ n.events ∧ Network.bytesSent new = []

theorem connect_of_shut (h : c.Shut n) (target : RemoteSettings) :
    Opened n (c.connect target n).2.1 (c.connect target n).2.2 := by
  have hclose : (c.close n).2 = n := by simp [close, h.isOpen_eq]
  simp only [connect, hclose]
  generalize hasked : n.note (.resolve target.host.untilZero (Decimal.ofInt target.port)) = asked
  have hquiet : n.Quietly asked := hasked ▸ Network.Quietly.note (.refl n) rfl
  -- As long as all events are quiet, there is no connection.
  have hshut {m : Network} (hm : n.Quietly m) : Opened n .closed m := by
    have htraffic := hm.traffic h.current
    exact ⟨.inl ⟨rfl, by rw [htraffic, h.current]⟩, by rw [htraffic], hm.bytesSent⟩
  split
  · exact hshut hquiet
  · next count _ =>
    have hreach := hquiet.trans (Network.reachFirst_quietly target.port target.connectTimeout
      (Network.addressesOf count) asked)
    split
    · next m hm =>
      rw [hm] at hreach
      exact hshut hreach
    · next link m hm =>
      rw [hm] at hreach
      obtain ⟨new, hnew, hsent⟩ := hreach.bytesSent
      refine ⟨.inr ⟨rfl, ⟨[], rfl, ReplyStream.holds_empty⟩, rfl⟩, ?_, ?_⟩
      · rw [limitTimes_traffic, hreach.traffic h.current]
      · exact ⟨.sendTimeout _ _ :: .receiveTimeout _ _ :: new, congrArg (_ :: _ :: ·) hnew, hsent⟩

end Connection

end CoherentCache
