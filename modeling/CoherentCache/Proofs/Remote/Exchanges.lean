import CoherentCache.Proofs.Remote.Call
import CoherentCache.Remote.Run

/-!
# Requests and replies on a bare connection

A connection may be opened, used for calls and closed in any order, and against any network.  The
calls that get a reply since it was last opened are exchanges: their requests are all that was sent
on it, and their replies are the first ones in what was received on it, in order.  A call that gets
none closes the connection and drops what was received and not used up, so that nothing is left of
it when the next connection is opened.

* `Connection.Linked.use`, `Connection.Linked.history` : a connection that is used, and the answers.
* `Connection.Linked.exchanges` : the exchanges since a connection was last asked for.
* `Connection.Linked.Tallied` : the invariant, kept by every use (`tallied_use`) and so by every run
  (`tallied_after`).
* `Network.ahead` : what the network holds in store, and `history_connect_congr` : nothing else
  matters once a connection is asked for.
* `Connection.Linked.replies_in_order` : replies are paired with requests.
-/

namespace CoherentCache

/-! ### What is still to come -/

namespace Network

/-- What the network will answer to those who ask for a connection. -/
def ahead (n : Network) : Except ResolverError Nat × List Attempt := (n.addresses, n.attempts)

variable {n m : Network}

theorem ahead_forget (n : Network) : n.forget.ahead = n.ahead := rfl

@[simp] theorem ahead_fail (n : Network) (e : SystemError) : (n.fail e).ahead = n.ahead := rfl

theorem reach_congr (h : n.ahead = m.ahead) (address : Bytes) (port : Int) (timeout : UInt64) :
    (n.reach address port timeout).1 = (m.reach address port timeout).1 ∧
      (n.reach address port timeout).2.ahead = (m.reach address port timeout).2.ahead := by
  obtain ⟨haddresses, hattempts⟩ := Prod.mk.inj h
  have hrest (rest : List Attempt) :
      ({ n with attempts := rest } : Network).ahead = { m with attempts := rest }.ahead := by
    rw [ahead, ahead, haddresses]
  unfold reach
  rw [hattempts]
  split
  all_goals try exact ⟨rfl, hrest _⟩
  -- The connection opens, at once or after it was waited for.
  refine ⟨rfl, ?_⟩
  dsimp only
  split
  · exact hrest _
  · exact hrest _

theorem reachFirst_congr (h : n.ahead = m.ahead) (port : Int) (timeout : UInt64)
    (addresses : List Bytes) :
    (reachFirst port timeout addresses n).1 = (reachFirst port timeout addresses m).1 ∧
      (reachFirst port timeout addresses n).2.ahead =
        (reachFirst port timeout addresses m).2.ahead := by
  induction addresses generalizing n m with
  | nil => exact ⟨rfl, h⟩
  | cons address rest ih =>
    obtain ⟨hresult, hahead⟩ := reach_congr h address port timeout
    simp only [reachFirst]
    generalize n.reach address port timeout = reached at hresult hahead ⊢
    generalize m.reach address port timeout = reached' at hresult hahead ⊢
    obtain ⟨result, n'⟩ := reached
    obtain ⟨result', m'⟩ := reached'
    obtain rfl : result = result' := hresult
    cases result with
    | ok link => exact ⟨rfl, hahead⟩
    | error fault =>
      obtain ⟨hrest, hahead'⟩ := ih hahead
      exact ⟨by simp only [hrest], hahead'⟩

end Network

namespace Connection

/-- The failure, without the system's last words, which may be about another connection. -/
def Failure.plain : Failure → Failure
  | .nothingSent _ => .nothingSent none
  | f => f

/-- The answer, without the system's last words. -/
def Told.plain : Told → Told
  | .call result => .call (result.mapError Failure.plain)
  | told => told

/-- What was said last is repeated at most. -/
theorem deliver_congr (last last' : Option SystemError) (sendings : List Sending) (data : Bytes) :
    (deliver last sendings data).taken = (deliver last' sendings data).taken ∧
      (deliver last sendings data).sendings = (deliver last' sendings data).sendings ∧
      (deliver last sendings data).failure.map Failure.plain =
        (deliver last' sendings data).failure.map Failure.plain := by
  induction sendings generalizing last last' data with
  | nil => exact ⟨rfl, rfl, rfl⟩
  | cons sending rest ih =>
    unfold deliver
    by_cases hdata : data.isEmpty
    · simp only [if_pos hdata, and_self]
    · simp only [if_neg hdata]
      cases sending with
      | fails e =>
        by_cases he : e = .interrupted
        · simp only [if_pos he, and_self]
        · simp only [if_neg he, and_self]
      | takes limit =>
        by_cases hlimit : limit = 0
        · subst hlimit
          exact ⟨rfl, rfl, rfl⟩
        · simp only [if_neg hlimit]
          obtain ⟨htaken, hsendings, hfailure⟩ := ih last last' (data.drop limit)
          exact ⟨by rw [htaken], hsendings, hfailure⟩

/-- A wait depends on the connection alone, and leaves to the network what it held in store. -/
theorem wait_congr (n m : Network) (replies : ReplyStream) (receipts : List Receipt) :
    (wait n replies receipts).result = (wait m replies receipts).result ∧
      (wait n replies receipts).receipts = (wait m replies receipts).receipts ∧
      (wait n replies receipts).replies = (wait m replies receipts).replies ∧
      (wait n replies receipts).network.ahead = n.ahead := by
  induction receipts generalizing n m replies with
  | nil =>
    unfold wait
    split
    · exact ⟨rfl, rfl, rfl, rfl⟩
    · split
      · exact ⟨rfl, rfl, rfl, rfl⟩
      · exact ⟨rfl, rfl, rfl, rfl⟩
  | cons receipt rest ih =>
    unfold wait
    split
    · exact ⟨rfl, rfl, rfl, rfl⟩
    · split
      · exact ⟨rfl, rfl, rfl, rfl⟩
      · cases receipt with
        | data bytes => exact ih (n.note _) (m.note _) _
        | pause micros => exact ih (n.pause _) (m.pause _) _
        | ended => exact ⟨rfl, rfl, rfl, rfl⟩
        | fails e =>
          by_cases he : e = .interrupted
          · simp only [if_pos he]
            exact ih (n.fail e) (m.fail e) _
          · simp only [if_neg he, Network.ahead_fail, and_self]

variable {c d : Connection} {n m : Network}

theorem ahead_close (c : Connection) (n : Network) : (c.close n).2.ahead = n.ahead := by
  unfold close
  split <;> rfl

theorem ahead_foldl_send (taken : List Bytes) (n : Network) :
    (taken.foldl (fun n data => n.note (.send data)) n).ahead = n.ahead :=
  Network.apply_foldl_send Network.ahead (fun _ _ => rfl) taken n

/-- What a connection was before does not matter to the next one. -/
theorem connect_congr (h : n.ahead = m.ahead) (target : RemoteSettings) :
    (c.connect target n).1 = (d.connect target m).1 ∧
      (c.connect target n).2.1 = (d.connect target m).2.1 ∧
      (c.connect target n).2.2.ahead = (d.connect target m).2.2.ahead := by
  have hclosed : (c.close n).2.ahead = (d.close m).2.ahead := by rw [ahead_close, ahead_close, h]
  simp only [connect]
  generalize (c.close n).2 = n at hclosed ⊢
  generalize (d.close m).2 = m at hclosed ⊢
  have hnoted : (n.note (.resolve target.host.untilZero (Decimal.ofInt target.port))).ahead =
      (m.note (.resolve target.host.untilZero (Decimal.ofInt target.port))).ahead := hclosed
  generalize n.note (.resolve target.host.untilZero (Decimal.ofInt target.port)) = n at hnoted ⊢
  generalize m.note (.resolve target.host.untilZero (Decimal.ofInt target.port)) = m at hnoted ⊢
  rw [(Prod.mk.inj hnoted).1]
  cases m.addresses with
  | error e => exact ⟨rfl, rfl, hnoted⟩
  | ok count =>
    obtain ⟨hreached, hahead⟩ := Network.reachFirst_congr hnoted target.port target.connectTimeout
      (Network.addressesOf count)
    dsimp only
    generalize Network.reachFirst target.port target.connectTimeout _ n = run at hreached hahead ⊢
    generalize Network.reachFirst target.port target.connectTimeout _ m = run' at hreached hahead ⊢
    obtain ⟨found, n'⟩ := run
    obtain ⟨found', m'⟩ := run'
    obtain rfl : found = found' := hreached
    obtain ⟨faults, _ | link⟩ := found
    · exact ⟨rfl, rfl, hahead⟩
    · exact ⟨rfl, rfl, hahead⟩

/-- A call depends on the connection alone, except for the system's last words. -/
theorem call_congr (h : n.ahead = m.ahead) (c : Connection) (request : List Bytes) :
    (c.call n request).1.mapError Failure.plain = (c.call m request).1.mapError Failure.plain ∧
      (c.call n request).2.1 = (c.call m request).2.1 ∧
      (c.call n request).2.2.ahead = (c.call m request).2.2.ahead := by
  simp only [call]
  cases c.link with
  | none => exact ⟨rfl, rfl, h⟩
  | some link =>
    obtain ⟨htaken, hsendings, hfailure⟩ :=
      deliver_congr n.lastFailure m.lastFailure link.sendings (Wire.command request)
    dsimp only
    generalize deliver n.lastFailure link.sendings (Wire.command request) = d at *
    generalize deliver m.lastFailure link.sendings (Wire.command request) = d' at *
    generalize hsent : d.taken.foldl (fun (n : Network) data => n.note (.send data))
      { n with lastFailure := d.lastFailure } = sent
    generalize hsent' : d'.taken.foldl (fun (n : Network) data => n.note (.send data))
      { m with lastFailure := d'.lastFailure } = sent'
    have hahead : sent.ahead = sent'.ahead := by
      rw [← hsent, ← hsent', ahead_foldl_send, ahead_foldl_send]
      exact h
    cases hd : d.failure with
    | some failure =>
      cases hd' : d'.failure with
      | some failure' =>
        rw [hd, hd'] at hfailure
        exact ⟨congrArg Except.error (Option.some.inj hfailure), rfl, by
          rw [ahead_close, ahead_close, hahead]⟩
      | none => simp [hd, hd'] at hfailure
    | none =>
      cases hd' : d'.failure with
      | some failure' => simp [hd, hd'] at hfailure
      | none =>
        obtain ⟨hresult, hreceipts, hreplies, hleft⟩ :=
          wait_congr sent sent' c.replies link.receipts
        obtain ⟨-, -, -, hleft'⟩ := wait_congr sent' sent c.replies link.receipts
        dsimp only
        rw [hresult, hreceipts, hreplies, hsendings]
        cases (wait sent' c.replies link.receipts).result with
        | ok reply => exact ⟨rfl, rfl, by rw [hleft, hleft', hahead]⟩
        | error failure => exact ⟨rfl, rfl, by rw [ahead_close, ahead_close, hleft, hleft', hahead]⟩

/-! ### Runs -/

namespace Linked

/-- What a connection is used for. -/
inductive Use where
  /-- Open a new connection. -/
  | connect (target : RemoteSettings)
  /-- Send a request and wait for its reply. -/
  | call (request : List Bytes)
  /-- Close the connection. -/
  | close

/-- Uses a connection. -/
def use (l : Linked) : Use → Told × Linked
  | .connect target =>
    let (faults, c, n) := l.connection.connect target l.network
    (.connect c.isOpen faults, ⟨c, n⟩)
  | .call request =>
    let (result, c, n) := l.connection.call l.network request
    (.call result, ⟨c, n⟩)
  | .close =>
    let (c, n) := l.connection.close l.network
    (.closed, ⟨c, n⟩)

/-- The connection after it was used many times. -/
def after (l : Linked) (uses : List Use) : Linked := uses.foldl (fun l u => (l.use u).2) l

/-- What the connection was used for, with the answers. -/
def history (l : Linked) : List Use → List (Use × Told)
  | [] => []
  | u :: rest => (u, (l.use u).1) :: history (l.use u).2 rest

/-- A connection that was not opened yet, on a network with an empty log. -/
def fresh (n : Network) : Linked := ⟨.closed, n.forget⟩

/-- The exchanges on a connection after one more use.  Nothing counts that was before it was asked
for. -/
def exchangesAfter (before : List (List Bytes × Reply)) : Use × Told → List (List Bytes × Reply)
  | (.connect _, _) => []
  | (.call request, .call (.ok reply)) => before ++ [(request, reply)]
  | _ => before

/-- The requests that got a reply since a connection was last asked for, each with its reply. -/
def exchanges (history : List (Use × Told)) : List (List Bytes × Reply) :=
  history.foldl exchangesAfter []

variable {l k : Linked} {xs : List (List Bytes × Reply)}

/-! ### Exchanges in order -/

/-- Nothing is open and nothing is left of what was received, or the exchanges are all that the
connection was used for. -/
def Tallied (l : Linked) (xs : List (List Bytes × Reply)) : Prop :=
  (l.connection = .closed ∧ l.network.traffic.current = none) ∨
    l.connection.Paired l.network (xs.map (·.1)) (xs.map (·.2))

theorem closed_of_connect (c : Connection) (target : RemoteSettings) (n : Network)
    (h : (c.connect target n).2.1.isOpen = false) : (c.connect target n).2.1 = .closed := by
  revert h
  simp only [connect]
  split
  · exact fun _ => rfl
  · split
    · exact fun _ => rfl
    · intro hopen
      cases hopen

theorem tallied_close (h : l.Tallied xs) (ys : List (List Bytes × Reply)) :
    Tallied (l.use .close).2 ys := by
  left
  refine ⟨rfl, ?_⟩
  rcases h with ⟨hclosed, hcurrent⟩ | hpaired
  · show (l.connection.close l.network).2.traffic.current = none
    rw [hclosed]
    exact hcurrent
  · obtain ⟨received, hsession, -⟩ := hpaired.session
    exact (close_of_current hpaired.isOpen_eq hsession).1.current

/-- A connection that is asked for takes the place of one that was closed. -/
theorem connect_eq_of_close (l : Linked) (target : RemoteSettings) :
    l.use (.connect target) = (l.use .close).2.use (.connect target) := rfl

theorem tallied_connect (h : l.Tallied xs) (target : RemoteSettings) :
    Tallied (l.use (.connect target)).2 [] := by
  have hshut : (l.use .close).2.connection.Shut (l.use .close).2.network := by
    rcases tallied_close h [] with ⟨hclosed, hcurrent⟩ | hpaired
    · exact ⟨by rw [hclosed]; rfl, hcurrent⟩
    · exact absurd hpaired.isOpen_eq nofun
  rw [connect_eq_of_close]
  rcases (connect_of_shut hshut target).inStep with hnone | hnew
  · exact .inl ⟨closed_of_connect _ _ _ hnone.isOpen_eq, hnone.current⟩
  · exact .inr hnew

/-- A call that fails on an open connection closes it, and a closed one is left alone. -/
theorem closed_of_call {c : Connection} {n : Network} {request : List Bytes} {failure : Failure}
    (h : (c.call n request).1 = .error failure) :
    (c.call n request).2.1 = if c.isOpen then .closed else c := by
  unfold call isOpen at *
  cases hlink : c.link with
  | none => rfl
  | some link =>
    simp only [hlink] at h ⊢
    split
    · rfl
    · next hsent =>
      rw [hsent] at h
      dsimp only at h
      split
      · next reply hreply =>
        rw [hreply] at h
        cases h
      · rfl

/-- **A call that gets a reply is one more exchange**, and one that gets none closes the
connection. -/
theorem call_of_tallied (h : l.Tallied xs) (request : List Bytes) :
    match l.connection.call l.network request with
    | (.ok reply, c, n) => c.Paired n (xs.map (·.1) ++ [request]) (xs.map (·.2) ++ [reply])
    | (.error _, c, n) => c = .closed ∧ n.traffic.current = none := by
  rcases h with ⟨hclosed, hcurrent⟩ | hpaired
  · rw [hclosed]
    exact ⟨rfl, hcurrent⟩
  · have hcall := call_of_paired hpaired request
    rcases hrun : l.connection.call l.network request with ⟨failure | reply, c, n⟩
    · have hclosed := closed_of_call (congrArg Prod.fst hrun)
      rw [hrun, if_pos hpaired.isOpen_eq] at hclosed
      rw [hrun] at hcall
      exact ⟨hclosed, hcall.shut.current⟩
    · rw [hrun] at hcall
      exact hcall.paired

/-- **Every use keeps the tally.** -/
theorem tallied_use (h : l.Tallied xs) (u : Use) :
    Tallied (l.use u).2 (exchangesAfter xs (u, (l.use u).1)) := by
  cases u with
  | connect target => exact tallied_connect h target
  | call request =>
    have hcall := call_of_tallied h request
    simp only [use]
    rcases hrun : l.connection.call l.network request with ⟨failure | reply, c, n⟩
    · rw [hrun] at hcall
      exact .inl hcall
    · rw [hrun] at hcall
      right
      simpa [exchangesAfter] using hcall
  | close => exact tallied_close h _

/-- Every run keeps the tally. -/
theorem tallied_after (h : l.Tallied xs) (uses : List Use) :
    (l.after uses).Tallied ((l.history uses).foldl exchangesAfter xs) := by
  induction uses generalizing l xs with
  | nil => exact h
  | cons u uses ih => exact ih (tallied_use h u)

theorem tallied_fresh (n : Network) : (fresh n).Tallied [] := .inl ⟨rfl, rfl⟩

/-! ### Nothing is left of earlier connections -/

/-- Connections that are alike, on networks that hold the same in store, answer a use alike and stay
alike. -/
theorem use_congr (hconnection : l.connection = k.connection)
    (hahead : l.network.ahead = k.network.ahead) (u : Use) :
    (l.use u).1.plain = (k.use u).1.plain ∧
      (l.use u).2.connection = (k.use u).2.connection ∧
      (l.use u).2.network.ahead = (k.use u).2.network.ahead := by
  cases u with
  | connect target =>
    obtain ⟨hfaults, hnext, hahead'⟩ :=
      connect_congr (c := l.connection) (d := k.connection) hahead target
    exact ⟨by simp only [use, hfaults, hnext], hnext, hahead'⟩
  | call request =>
    obtain ⟨hresult, hnext, hahead'⟩ := call_congr hahead l.connection request
    simp only [use, ← hconnection]
    exact ⟨congrArg Told.call hresult, hnext, hahead'⟩
  | close =>
    refine ⟨rfl, rfl, ?_⟩
    simp only [use, ahead_close, hahead]

theorem history_congr (hconnection : l.connection = k.connection)
    (hahead : l.network.ahead = k.network.ahead) (uses : List Use) :
    (l.history uses).map (fun x => x.2.plain) =
      (k.history uses).map fun x => x.2.plain := by
  induction uses generalizing l k with
  | nil => rfl
  | cons u uses ih =>
    obtain ⟨htold, hconnection', hahead'⟩ := use_congr hconnection hahead u
    simp only [history, List.map_cons, htold, ih hconnection' hahead']

/-- **Once a connection is asked for, nothing matters that was before**, but for what the network
holds in store. -/
theorem history_connect_congr (hahead : l.network.ahead = k.network.ahead)
    (target : RemoteSettings) (later : List Use) :
    (l.history (.connect target :: later)).map (fun x => x.2.plain) =
      (k.history (.connect target :: later)).map fun x => x.2.plain := by
  obtain ⟨hfaults, hnext, hahead'⟩ :=
    connect_congr (c := l.connection) (d := k.connection) hahead target
  have hrest := history_congr (l := (l.use (.connect target)).2) (k := (k.use (.connect target)).2)
    hnext hahead' later
  simp only [history, List.map_cons, hrest]
  simp only [use, hfaults, hnext]

/-! ### The whole -/

/-- **Replies are paired with requests.**  After any run of a connection on any network:

* A call that gets a reply has sent its request behind those of the exchanges before it, and gets
  the reply at that position in all that was or will be received on the connection.
* A call that gets none leaves the connection closed, with nothing received and not used up.
* When a connection is asked for next, all answers from then on are those to any other connection,
  whatever that received before, if the network holds the same in store for it. -/
theorem replies_in_order (n : Network) (uses : List Use) :
    (∀ request reply, (((fresh n).after uses).use (.call request)).1 = .call (.ok reply) →
      ∃ s, (((fresh n).after uses).use (.call request)).2.network.traffic.current = some s ∧
        s.sent = ((exchanges ((fresh n).history uses)).map (·.1) ++ [request]).flatMap
          Wire.command ∧
        ∀ more, (Reply.completeIn (s.received ++ more))[(exchanges
          ((fresh n).history uses)).length]? = some reply) ∧
    (∀ request failure,
      (((fresh n).after uses).use (.call request)).1 = .call (.error failure) →
        (((fresh n).after uses).use (.call request)).2.connection = ⟨none, .empty⟩) ∧
    (∀ (k : Linked) target later, k.network.ahead = ((fresh n).after uses).network.ahead →
      (k.history (.connect target :: later)).map (fun x => x.2.plain) =
        (((fresh n).after uses).history (.connect target :: later)).map fun x => x.2.plain) := by
  have htallied := tallied_after (tallied_fresh n) uses
  rw [← exchanges] at htallied
  generalize (fresh n).after uses = l at htallied ⊢
  refine ⟨fun request reply hcall => ?_, fun request failure hcall => ?_,
    fun k target later hahead => history_connect_congr hahead target later⟩
  · have hspec := call_of_tallied htallied request
    simp only [use] at hcall ⊢
    rcases hrun : l.connection.call l.network request with ⟨result, c, m⟩
    rw [hrun] at hcall hspec
    cases hcall
    obtain ⟨received, hcurrent, hholds⟩ := hspec.session
    refine ⟨_, hcurrent, rfl, fun more => ?_⟩
    obtain ⟨rest, hrest⟩ : _ <+: Reply.completeIn (received ++ more) :=
      hholds.replies_isPrefix.trans (Framing.completeIn_isPrefix_append received more)
    rw [← hrest]
    simp
  · have hspec := call_of_tallied htallied request
    simp only [use] at hcall ⊢
    rcases hrun : l.connection.call l.network request with ⟨result, c, m⟩
    rw [hrun] at hcall hspec
    cases hcall
    exact hspec.1

theorem exists_reply {request : List Bytes}
    (h : (l.connection.call l.network request).1.isOk = true) :
    ∃ reply, (l.use (.call request)).1 = .call (.ok reply) := by
  simp only [use]
  cases hcall : (l.connection.call l.network request).1 with
  | ok reply => exact ⟨reply, rfl⟩
  | error failure =>
    rw [hcall] at h
    cases h

theorem exists_failure {request : List Bytes}
    (h : (l.connection.call l.network request).1.isOk = false) :
    ∃ failure, (l.use (.call request)).1 = .call (.error failure) := by
  simp only [use]
  cases hcall : (l.connection.call l.network request).1 with
  | ok reply =>
    rw [hcall] at h
    cases h
  | error failure => exact ⟨failure, rfl⟩

/-- A network with two connections.  On the first one, two replies and the beginning of a third are
received at once, and on the second one a single reply. -/
def twice : Network :=
  ⟨⟨0⟩, .ok 1, [.opens false ⟨[], [.data (Bytes.ofString "+a\r\n+b\r\n+c"), .ended]⟩,
    .opens false ⟨[], [.data (Bytes.ofString "+d\r\n")]⟩], [], none⟩

/-- Calls on the first connection. -/
def twiceCalls (requests : List Bytes) : List Use :=
  .connect {} :: requests.map fun request => .call [request]

/-- The second call gets the second reply, which was received for the first call.  The third call
fails, and afterwards the connection is answered like one that was never opened. -/
theorem replies_in_order_twice :
    (∃ reply s, (((fresh twice).after (twiceCalls [[65]])).use (.call [[66]])).1 =
        .call (.ok reply) ∧
      (((fresh twice).after (twiceCalls [[65]])).use (.call [[66]])).2.network.traffic.current =
        some s ∧ (Reply.completeIn s.received)[1]? = some reply) ∧
      (∃ failure, (((fresh twice).after (twiceCalls [[65], [66]])).use (.call [[67]])).1 =
        .call (.error failure)) ∧
      (((fresh twice).after (twiceCalls [[65], [66]])).use (.call [[67]])).2.connection =
        ⟨none, .empty⟩ ∧
      (((fresh twice).after (twiceCalls [[65], [66], [67]])).history
          [.connect {}, .call [[68]]]).map (fun x => x.2.plain) =
        ((fresh ((fresh twice).after (twiceCalls [[65], [66], [67]])).network).history
          [.connect {}, .call [[68]]]).map fun x => x.2.plain := by
  obtain ⟨hanswered, -, -⟩ := replies_in_order twice (twiceCalls [[65]])
  obtain ⟨-, hfailed, -⟩ := replies_in_order twice (twiceCalls [[65], [66]])
  obtain ⟨-, -, hforgotten⟩ := replies_in_order twice (twiceCalls [[65], [66], [67]])
  obtain ⟨reply, hsecond⟩ : ∃ reply, (((fresh twice).after (twiceCalls [[65]])).use
      (.call [[66]])).1 = .call (.ok reply) :=
    exists_reply (by decide +kernel)
  obtain ⟨failure, hthird⟩ : ∃ failure, (((fresh twice).after (twiceCalls [[65], [66]])).use
      (.call [[67]])).1 = .call (.error failure) :=
    exists_failure (by decide +kernel)
  have hfirst : (exchanges ((fresh twice).history (twiceCalls [[65]]))).length = 1 := by
    decide +kernel
  obtain ⟨s, hs, -, hreply⟩ := hanswered [[66]] _ hsecond
  rw [hfirst] at hreply
  exact ⟨⟨reply, s, hsecond, hs, by simpa using hreply []⟩, ⟨failure, hthird⟩,
    hfailed [[67]] _ hthird,
    (hforgotten (fresh _) {} [.call [[68]]] (Network.ahead_forget _)).symm⟩

end Linked

end Connection

end CoherentCache
