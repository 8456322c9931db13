import CoherentCache.Proofs.Resp.Bounds
import CoherentCache.Server.Session

/-!
# What a server did for its clients

A server is run by acts: it passes through its clients, and between passes time goes by, expired
keys are dropped, and calls to the system fail.  What it does for one client in one pass is a
visit: it reads bytes, takes requests off them and appends replies to the output.  The history of a
server is the list of its visits.

* `Exchange` : a request, with the service that answers it.
* `Server.Visit`, `Server.history` : the visits of a server, in order.
* `Service.Invariant` : what every act keeps of the service.
* `Server.Serving`, `Server.serving` : how the requests of a client are served in a pass.
* `Server.Tracks`, `Server.tracks_after` : **the requests of the visits to a client are those that
  are complete in the bytes read from it, in order, and what is appended are the replies to them.**
* `Session.exists_acts_passes` : a session is such a run.
-/

namespace CoherentCache

/-- A request that the service answers, with so many clients connected. -/
structure Exchange where
  /-- What the clients share before. -/
  service : Service
  /-- How many clients are connected. -/
  connected : Nat
  /-- The request. -/
  request : Request

namespace Exchange

/-- The reply to the request. -/
def reply (e : Exchange) : Reply := (e.service.answer e.connected e.request.words).1

/-- What the clients share afterwards. -/
def left (e : Exchange) : Service := (e.service.answer e.connected e.request.words).2

end Exchange

namespace Server

/-- The exchanges of a client in one pass. -/
def exchanges (maxPending connected : Nat) : (left : Nat) → (waiting : Nat) → RequestStream →
    Service → List Exchange
  | 0, _, _, _ => []
  | left + 1, waiting, requests, s =>
    match requests.next with
    | (none, _) => []
    | (some request, requests) =>
      let e : Exchange := ⟨s, connected, request⟩
      let waiting := waiting + e.reply.encode.length
      if request.words = Request.malformed.words then [e]
      else if request.words = [] then
        e :: exchanges maxPending connected left waiting requests e.left
      else if maxPending < waiting then [e]
      else e :: exchanges maxPending connected left waiting requests e.left

/-- What a server does for a client in one pass, up to sending. -/
structure Visit where
  /-- The number of the client. -/
  number : Nat
  /-- The bytes read from the client. -/
  received : Bytes
  /-- The requests taken, with the services that answered them. -/
  exchanges : List Exchange
  /-- The bytes appended to those that wait for the client. -/
  appended : Bytes

/-- The visit to a client in one pass. -/
def visit (settings : Settings) (connected : Nat) (incoming : Option Incoming) (c : Client)
    (s : Service) : Visit :=
  let appended := (receive settings connected incoming c s).client.pending.drop c.pending.length
  match incoming with
  | some (.data bytes) =>
    let s := { s with receivedBytes := s.receivedBytes + bytes.length }
    ⟨c.number, bytes, exchanges settings.maxPending connected settings.maxRequestsPerPass
      c.pending.length (c.requests.feed bytes) s, appended⟩
  | _ => ⟨c.number, [], [], appended⟩

/-- The visits to clients in one pass, one after the other. -/
def visits (settings : Settings) (connected : Nat) (ready : Ready) :
    List Client → Service → List Visit
  | [], _ => []
  | c :: rest, s =>
    visit settings connected (ready.incoming c.number) c s ::
      visits settings connected ready rest (turn settings connected ready c s).service

/-! ### Runs -/

/-- What happens to a server. -/
inductive Act where
  /-- Expired keys are dropped. -/
  | sweep
  /-- Some microseconds go by. -/
  | pause (micros : Int64)
  /-- Waiting for the clients fails. -/
  | fail (e : SystemError)
  /-- The server passes through its clients. -/
  | pass (ready : Ready)

/-- The server after an act. -/
def act (s : Server) : Act → Server
  | .sweep => s.sweep
  | .pause micros => s.mapStore (·.mapNetwork (·.pause micros))
  | .fail e => { s with service := s.service.fail e }
  | .pass ready => (s.pass ready).2

/-- The visits of an act. -/
def visitsOf (s : Server) : Act → List Visit
  | .sweep | .pause _ | .fail _ => []
  | .pass ready =>
    let accepted := (s.accept ready).2
    visits accepted.settings accepted.clients.length ready accepted.clients accepted.service

/-- The server after acts. -/
def after (s : Server) (acts : List Act) : Server := acts.foldl act s

/-- The visits of acts. -/
def history (s : Server) : List Act → List Visit
  | [] => []
  | a :: rest => s.visitsOf a ++ (s.act a).history rest

/-! ### The visits to one client -/

/-- All that was read from the client. -/
def receivedFrom (number : Nat) (log : List Visit) : Bytes :=
  (log.filter (·.number = number)).flatMap (·.received)

/-- The exchanges with the client, in order. -/
def exchangesWith (number : Nat) (log : List Visit) : List Exchange :=
  (log.filter (·.number = number)).flatMap (·.exchanges)

/-- All that was appended to the output of the client. -/
def appendedFor (number : Nat) (log : List Visit) : Bytes :=
  (log.filter (·.number = number)).flatMap (·.appended)

/-- The requests of the client, in order. -/
def requestsOf (number : Nat) (log : List Visit) : List Request :=
  (exchangesWith number log).map (·.request)

variable {number : Nat} {log log' : List Visit} {v : Visit}

@[simp] theorem receivedFrom_append :
    receivedFrom number (log ++ log') = receivedFrom number log ++ receivedFrom number log' := by
  simp [receivedFrom]

@[simp] theorem exchangesWith_append :
    exchangesWith number (log ++ log') = exchangesWith number log ++ exchangesWith number log' := by
  simp [exchangesWith]

@[simp] theorem requestsOf_append :
    requestsOf number (log ++ log') = requestsOf number log ++ requestsOf number log' := by
  simp [requestsOf]

theorem receivedFrom_singleton (v : Visit) : receivedFrom v.number [v] = v.received := by
  simp [receivedFrom]

theorem requestsOf_singleton (v : Visit) :
    requestsOf v.number [v] = v.exchanges.map (·.request) := by
  simp [requestsOf, exchangesWith]

theorem filter_number_eq_nil (h : ∀ v ∈ log, v.number ≠ number) :
    log.filter (·.number = number) = [] := by
  simpa [List.filter_eq_nil_iff] using h

/-- Without a visit nothing was read from a client. -/
theorem receivedFrom_of_not_visited (h : ∀ v ∈ log, v.number ≠ number) :
    receivedFrom number log = [] := by
  rw [receivedFrom, filter_number_eq_nil h, List.flatMap_nil]

/-- Nor was there an exchange with it. -/
theorem exchangesWith_of_not_visited (h : ∀ v ∈ log, v.number ≠ number) :
    exchangesWith number log = [] := by
  rw [exchangesWith, filter_number_eq_nil h, List.flatMap_nil]

/-- Nor was a request taken from it. -/
theorem requestsOf_of_not_visited (h : ∀ v ∈ log, v.number ≠ number) :
    requestsOf number log = [] := by
  rw [requestsOf, exchangesWith_of_not_visited h, List.map_nil]

end Server

/-! ### What acts keep of the service -/

/-- Whatever happens to a server keeps the property of the service. -/
structure Service.Invariant (I : Service → Prop) : Prop where
  /-- A request is answered. -/
  answer : ∀ {s : Service} (connected : Nat) {request : Request}, I s → request.Bounded →
    I (s.answer connected request.words).2
  /-- Bytes are received. -/
  received : ∀ {s : Service} (bytes : Nat), I s → I { s with receivedBytes := bytes }
  /-- Something is rejected. -/
  reject : ∀ {s : Service}, I s → I s.reject
  /-- Something happens to the network. -/
  network : ∀ {s : Service} (f : Network → Network), I s → I (s.mapStore (·.mapNetwork f))
  /-- Expired keys are dropped. -/
  sweep : ∀ {s : Service}, I s → I (s.mapStore Host.sweep)

namespace Server

/-- The exchanges found the service as it should be, the requests are in bounds, and what was
appended are the replies. -/
structure Visit.Sound (I : Service → Prop) (v : Visit) : Prop where
  /-- The exchanges. -/
  exchange : ∀ e ∈ v.exchanges, I e.service ∧ e.request.Bounded
  /-- The bytes appended. -/
  appended_eq : v.appended = (v.exchanges.map fun e => e.reply.encode).flatten

variable {I : Service → Prop} {requests : RequestStream} {s : Service} {received : Bytes}
  {taken : List Request}

/-- How the requests of a client are served in a pass: the exchanges, and what they lead to. -/
inductive Serving (maxPending : Nat) : (left : Nat) → (waiting : Nat) → RequestStream → Service →
    List Exchange → Served → Prop where
  /-- The client had its share of the pass. -/
  | share {waiting : Nat} {requests : RequestStream} {s : Service} :
      Serving maxPending 0 waiting requests s [] ⟨[], false, requests, s⟩
  /-- No further request is complete. -/
  | used {left waiting : Nat} {requests requests' : RequestStream} {s : Service}
      (hnext : requests.next = (none, requests')) :
      Serving maxPending (left + 1) waiting requests s [] ⟨[], false, requests', s⟩
  /-- A malformed request ends the pass for the client. -/
  | malformed {left waiting : Nat} {requests requests' : RequestStream} (e : Exchange)
      (hnext : requests.next = (some e.request, requests'))
      (hwords : e.request.words = Request.malformed.words) :
      Serving maxPending (left + 1) waiting requests e.service [e]
        ⟨[e.reply], false, requests', e.left⟩
  /-- Too many bytes wait for the client, which is dropped. -/
  | overflow {left waiting : Nat} {requests requests' : RequestStream} (e : Exchange)
      (hnext : requests.next = (some e.request, requests')) :
      Serving maxPending (left + 1) waiting requests e.service [e]
        ⟨[e.reply], true, requests', e.left.reject⟩
  /-- Serving goes on.  The bytes that wait are within the bound, or the request has no words. -/
  | more {left waiting : Nat} {requests requests' : RequestStream} {es : List Exchange}
      {served : Served} (e : Exchange) (hnext : requests.next = (some e.request, requests'))
      (hwithin : e.request.words = [] ∨ waiting + e.reply.encode.length ≤ maxPending)
      (rest : Serving maxPending left (waiting + e.reply.encode.length) requests' e.left es
        served) :
      Serving maxPending (left + 1) waiting requests e.service (e :: es) (served.after e.reply)

/-- **This is how requests are served.** -/
theorem serving (maxPending connected left waiting : Nat) (requests : RequestStream)
    (s : Service) :
    Serving maxPending left waiting requests s
      (exchanges maxPending connected left waiting requests s)
      (serve maxPending connected left waiting requests s) := by
  induction left generalizing waiting requests s with
  | zero => exact .share
  | succ left ih =>
    unfold serve exchanges
    cases hnext : requests.next with
    | mk found requests' =>
      cases found with
      | none => exact .used hnext
      | some request =>
        let e : Exchange := ⟨s, connected, request⟩
        dsimp only [Exchange.reply, Exchange.left]
        split
        · next hwords => exact .malformed e hnext hwords
        · split
          · next hwords => exact .more e hnext (.inl hwords) (ih _ _ _)
          · split
            · exact .overflow e hnext
            · next hwithin => exact .more e hnext (.inr (Nat.not_lt.1 hwithin)) (ih _ _ _)

variable {maxPending left waiting : Nat} {es : List Exchange} {served : Served}

/-- There is one reply for each exchange. -/
theorem Serving.replies_eq (h : Serving maxPending left waiting requests s es served) :
    served.replies = es.map Exchange.reply := by
  induction h with
  | share | used | malformed | overflow => rfl
  | more _ _ _ _ ih => exact congrArg (_ :: ·) ih

/-- What serving the requests of a client leads to. -/
structure Serves (I : Service → Prop) (received : Bytes) (taken : List Request)
    (es : List Exchange) (served : Served) : Prop where
  /-- The requests of the exchanges were taken. -/
  holds : served.requests.Holds received (taken ++ es.map (·.request))
  /-- The service is as it should be. -/
  service : I served.service
  /-- So were the services of the exchanges. -/
  exchange : ∀ e ∈ es, I e.service ∧ e.request.Bounded

theorem Serves.nil (hrequests : requests.Holds received taken) (hs : I s) (overflow : Bool) :
    Serves I received taken [] ⟨[], overflow, requests, s⟩ :=
  ⟨by simpa using hrequests, hs, by simp⟩

/-- One more exchange in front. -/
theorem Serves.cons {e : Exchange} (he : I e.service ∧ e.request.Bounded)
    (h : Serves I received (taken ++ [e.request]) es served) :
    Serves I received taken (e :: es) (served.after e.reply) := by
  refine ⟨?_, h.service, ?_⟩
  · have hholds := h.holds
    rwa [List.append_assoc] at hholds
  · intro e' he'
    rcases List.mem_cons.1 he' with rfl | he'
    · exact he
    · exact h.exchange e' he'

/-- Whoever takes a request off the stream and answers it leaves things as they should be. -/
theorem sound_exchange (hI : Service.Invariant I) {e : Exchange} {requests' : RequestStream}
    (hrequests : requests.Holds received taken) (hs : I e.service)
    (hnext : requests.next = (some e.request, requests')) :
    requests'.Holds received (taken ++ [e.request]) ∧ I e.left ∧ I e.service ∧
      e.request.Bounded := by
  have hholds := hrequests.next_some hnext
  have hbounded : e.request.Bounded := hholds.bounded e.request (by simp)
  exact ⟨hholds, hI.answer e.connected hs hbounded, hs, hbounded⟩

/-- **Serving takes requests off the stream and answers each of them.** -/
theorem Serving.serves (hI : Service.Invariant I)
    (h : Serving maxPending left waiting requests s es served)
    (hrequests : requests.Holds received taken) (hs : I s) :
    Serves I received taken es served := by
  -- Each request that is taken joins those taken before, and leaves a service that `I` holds of.
  induction h generalizing taken with
  | share => exact .nil hrequests hs false
  | used hnext => exact .nil (hrequests.next_none hnext).1 hs false
  | malformed e hnext _ =>
    obtain ⟨hholds, hleft, he⟩ := sound_exchange hI hrequests hs hnext
    exact .cons he (.nil hholds hleft false)
  | overflow e hnext =>
    obtain ⟨hholds, hleft, he⟩ := sound_exchange hI hrequests hs hnext
    exact .cons he (.nil hholds (hI.reject hleft) true)
  | more e hnext _ _ ih =>
    obtain ⟨hholds, hleft, he⟩ := sound_exchange hI hrequests hs hnext
    exact .cons he (ih hholds hleft)

/-! ### One turn -/

theorem noteSending_invariant (hI : Service.Invariant I) (hs : I s) (sending : Option Sending) :
    I (noteSending s sending) := by
  unfold noteSending
  split
  · exact hI.network _ hs
  · exact hs

/-- A turn reads from the client, and then it may send to the client. -/
theorem turn_cases (settings : Settings) (connected : Nat) (ready : Ready) (c : Client)
    (s : Service) :
    turn settings connected ready c s =
        receive settings connected (ready.incoming c.number) c s ∨
      turn settings connected ready c s = flush (ready.sending c.number)
        (receive settings connected (ready.incoming c.number) c s) := by
  unfold turn
  dsimp only
  split
  · exact .inr rfl
  · exact .inl rfl

@[simp] theorem flush_number (sending : Option Sending) (t : Turn) :
    (flush sending t).client.number = t.client.number := by
  unfold flush
  dsimp only
  split <;> rfl

@[simp] theorem flush_requests (sending : Option Sending) (t : Turn) :
    (flush sending t).client.requests = t.client.requests := by
  unfold flush
  dsimp only
  split <;> rfl

@[simp] theorem flush_service (sending : Option Sending) (t : Turn) :
    (flush sending t).service = noteSending t.service sending := by
  unfold flush
  dsimp only
  split <;> rfl

/-- What the turn of a client leads to. -/
structure Turn.Follows (I : Service → Prop) (c : Client) (received : Bytes)
    (taken : List Request) (v : Visit) (t : Turn) : Prop where
  /-- The client keeps its number. -/
  number : t.client.number = c.number
  /-- The requests of the visit were taken off what was received. -/
  holds : t.client.requests.Holds (received ++ v.received)
    (taken ++ v.exchanges.map (·.request))
  /-- The service is as it should be. -/
  service : I t.service

variable {c : Client} {t : Turn}

theorem follows_receive (hI : Service.Invariant I) (settings : Settings) (connected : Nat)
    (incoming : Option Incoming) (hc : c.requests.Holds received taken) (hs : I s) :
    (visit settings connected incoming c s).Sound I ∧
      Turn.Follows I c received taken (visit settings connected incoming c s)
        (receive settings connected incoming c s) := by
  have hstay (appended : Bytes) (t : Turn) (hclient : t.client = c) (hservice : I t.service) :
      Turn.Follows I c received taken ⟨c.number, [], [], appended⟩ t := by
    refine ⟨by rw [hclient], ?_, hservice⟩
    rw [hclient]
    simpa using hc
  rcases incoming with _ | bytes | _ | _
  · exact ⟨⟨by simp [visit], by simp [visit, receive]⟩, hstay _ _ rfl hs⟩
  · have hserving := serving settings.maxPending connected settings.maxRequestsPerPass
      c.pending.length (c.requests.feed bytes)
      { s with receivedBytes := s.receivedBytes + bytes.length }
    have hserves := hserving.serves hI (hc.feed bytes)
      (hI.received (s.receivedBytes + bytes.length) hs)
    refine ⟨⟨hserves.exchange, ?_⟩, rfl, hserves.holds, hserves.service⟩
    simp only [visit, receive, List.drop_left, hserving.replies_eq, List.map_map]
    rfl
  · exact ⟨⟨by simp [visit], by simp [visit, receive]⟩, hstay _ _ rfl hs⟩
  · exact ⟨⟨by simp [visit], by simp [visit, receive]⟩, hstay _ _ rfl (hI.network _ hs)⟩

/-- Sending concerns the bytes that wait, and neither requests nor the service otherwise. -/
theorem follows_flush (hI : Service.Invariant I) (sending : Option Sending)
    (h : Turn.Follows I c received taken v t) :
    Turn.Follows I c received taken v (flush sending t) := by
  refine ⟨?_, ?_, ?_⟩
  · rw [flush_number]
    exact h.number
  · rw [flush_requests]
    exact h.holds
  · rw [flush_service]
    exact noteSending_invariant hI h.service sending

theorem follows_turn (hI : Service.Invariant I) (settings : Settings) (connected : Nat)
    (ready : Ready) (hc : c.requests.Holds received taken) (hs : I s) :
    (visit settings connected (ready.incoming c.number) c s).Sound I ∧
      Turn.Follows I c received taken (visit settings connected (ready.incoming c.number) c s)
        (turn settings connected ready c s) := by
  obtain ⟨hvisit, hreceive⟩ :=
    follows_receive hI settings connected (ready.incoming c.number) hc hs
  refine ⟨hvisit, ?_⟩
  rcases turn_cases settings connected ready c s with hturn | hturn
  · rwa [hturn]
  · rw [hturn]
    exact follows_flush hI _ hreceive

/-! ### Passes -/

/-- The requests of the visits to the client are those that were taken off the bytes read from
it. -/
def Client.Follows (c : Client) (log : List Visit) : Prop :=
  c.requests.Holds (receivedFrom c.number log) (requestsOf c.number log)

/-- The requests of all clients, also of those that are gone, are complete in the bytes read. -/
def Complete (log : List Visit) : Prop :=
  ∀ number, requestsOf number log <+: Request.completeIn (receivedFrom number log)

theorem Client.Follows.append (h : c.Follows log) (hlog : ∀ v ∈ log', v.number ≠ c.number) :
    c.Follows (log ++ log') := by
  unfold Client.Follows
  rw [receivedFrom_append, requestsOf_append, receivedFrom_of_not_visited hlog,
    requestsOf_of_not_visited hlog, List.append_nil, List.append_nil]
  exact h

/-- A visit whose client follows it keeps the requests of all clients complete. -/
theorem Complete.append (h : Complete log) (hc : c.Follows (log ++ [v]))
    (hnumber : v.number = c.number) : Complete (log ++ [v]) := by
  intro number
  by_cases hn : v.number = number
  · rw [← hn, hnumber]
    exact hc.requests_isPrefix
  · have hother : ∀ v' ∈ [v], v'.number ≠ number := by simpa using hn
    rw [receivedFrom_append, requestsOf_append, receivedFrom_of_not_visited hother,
      requestsOf_of_not_visited hother, List.append_nil, List.append_nil]
    exact h number

theorem visit_number (settings : Settings) (connected : Nat) (incoming : Option Incoming)
    (c : Client) (s : Service) : (visit settings connected incoming c s).number = c.number := by
  unfold visit
  split <;> rfl

theorem visits_numbers (settings : Settings) (connected : Nat) (ready : Ready)
    (clients : List Client) (s : Service) :
    (visits settings connected ready clients s).map (·.number) = clients.map (·.number) := by
  induction clients generalizing s with
  | nil => rfl
  | cons c rest ih => simp only [visits, List.map_cons, visit_number, ih]

/-- What the turns of clients lead to. -/
structure Turned (I : Service → Prop) (log vs : List Visit) (clients left : List Client)
    (s : Service) : Prop where
  /-- The visits. -/
  visit : ∀ v ∈ vs, v.Sound I
  /-- The clients that are still connected. -/
  client : ∀ c ∈ left, c.Follows (log ++ vs)
  /-- All requests are complete in what was read. -/
  complete : Complete (log ++ vs)
  /-- Nobody joins. -/
  sublist : (left.map (·.number)).Sublist (clients.map (·.number))
  /-- The service is as it should be. -/
  service : I s

/-- **The turns of clients take requests from each of them in order.** -/
theorem turned (hI : Service.Invariant I) (settings : Settings) (connected : Nat) (ready : Ready)
    {clients : List Client} (hs : I s) (hnodup : (clients.map (·.number)).Nodup)
    (hclients : ∀ c ∈ clients, c.Follows log) (hlog : Complete log) :
    Turned I log (visits settings connected ready clients s) clients
      (turns settings connected ready clients s).2.1
      (turns settings connected ready clients s).2.2 := by
  -- The induction is on the clients still to come; the log grows by one visit at each of them.
  induction clients generalizing s log with
  | nil => exact ⟨by simp [visits], by simp [turns], by simpa [visits] using hlog, .slnil, hs⟩
  | cons c rest ih =>
    obtain ⟨hfresh, hrest⟩ := List.nodup_cons.1 hnodup
    have hother : ∀ c' ∈ rest, c.number ≠ c'.number := by
      intro c' hc' heq
      exact hfresh (List.mem_map.2 ⟨c', hc', heq.symm⟩)
    obtain ⟨hvisit, hturn⟩ :=
      follows_turn hI settings connected ready (hclients c List.mem_cons_self) hs
    have hnumber := visit_number settings connected (ready.incoming c.number) c s
    have hnumbers := visits_numbers settings connected ready rest
      (turn settings connected ready c s).service
    rw [visits, turns]
    dsimp only
    generalize visit settings connected (ready.incoming c.number) c s = v at *
    generalize turn settings connected ready c s = t at *
    have hclient : t.client.Follows (log ++ [v]) := by
      have hholds := hturn.holds
      rw [← hturn.number] at hholds
      unfold Client.Follows
      rw [receivedFrom_append, requestsOf_append]
      have hsame : v.number = t.client.number := hnumber.trans hturn.number.symm
      rw [← hsame, receivedFrom_singleton, requestsOf_singleton, hsame]
      exact hholds
    have hothers : ∀ c' ∈ rest, c'.Follows (log ++ [v]) := by
      intro c' hc'
      refine (hclients c' (List.mem_cons_of_mem _ hc')).append ?_
      intro v' hv'
      rw [List.mem_singleton.1 hv', hnumber]
      exact hother c' hc'
    have hcomplete : Complete (log ++ [v]) :=
      hlog.append hclient (hnumber.trans hturn.number.symm)
    have hturned := ih hturn.service hrest hothers hcomplete
    have hsplit (vs : List Visit) : log ++ v :: vs = (log ++ [v]) ++ vs := by simp
    refine ⟨?_, ?_, ?_, ?_, hturned.service⟩
    · exact List.forall_mem_cons.2 ⟨hvisit, hturned.visit⟩
    · rw [hsplit]
      split
      · exact hturned.client
      · refine List.forall_mem_cons.2 ⟨hclient.append ?_, hturned.client⟩
        intro v' hv'
        have hmem : v'.number ∈ rest.map (·.number) := hnumbers ▸ List.mem_map_of_mem hv'
        obtain ⟨c', hc', heq⟩ := List.mem_map.1 hmem
        rw [← heq, hturn.number]
        exact (hother c' hc').symm
    · rw [hsplit]
      exact hturned.complete
    · split
      · exact hturned.sublist.cons _
      · rw [List.map_cons, List.map_cons, hturn.number]
        exact hturned.sublist.cons_cons _

/-- The log tells what was read from the clients and done for them. -/
structure Tracks (I : Service → Prop) (log : List Visit) (s : Server) : Prop where
  /-- The service is as it should be. -/
  service : I s.service
  /-- The visits. -/
  visit : ∀ v ∈ log, v.Sound I
  /-- The clients. -/
  client : ∀ c ∈ s.clients, c.Follows log
  /-- All requests are complete in what was read. -/
  complete : Complete log
  /-- No two clients have the same number. -/
  nodup : (s.clients.map (·.number)).Nodup
  /-- The numbers of clients to come are not used yet. -/
  number_lt : ∀ c ∈ s.clients, c.number < s.nextNumber
  /-- Nor were they ever used. -/
  visit_lt : ∀ v ∈ log, v.number < s.nextNumber

variable {server : Server}

theorem tracks_ofHost (settings : Settings) {host : Host}
    (h : I { cache := .ofStore host }) : Tracks I [] (ofHost settings host) :=
  ⟨h, by simp, by simp [ofHost], fun _ => List.nil_prefix, List.nodup_nil, by simp [ofHost],
    by simp⟩

/-- The log does not depend on what is no client's. -/
theorem Tracks.service_of (h : Tracks I log server) {service : Service} (hs : I service) :
    Tracks I log { server with service } :=
  ⟨hs, h.visit, h.client, h.complete, h.nodup, h.number_lt, h.visit_lt⟩

/-- What a client is told when too many are connected already. -/
def turnedAway : Reply := .refusal (Bytes.ofString "connection limit reached")

/-- **A pass connects nobody, turns a client away, or connects it** under the next number. -/
theorem accept_cases (s : Server) (ready : Ready) :
    (∃ service, (service = s.service ∨ ∃ e, service = s.service.fail e) ∧
        s.accept ready = ([], { s with service })) ∨
      s.accept ready =
        ([(s.nextNumber, .accept),
          (s.nextNumber,
            sendEvent (Sending.taken turnedAway.encode (ready.sending s.nextNumber))),
          (s.nextNumber, .close)],
          { s with
            service := noteSending s.service.reject (ready.sending s.nextNumber)
            nextNumber := s.nextNumber + 1 }) ∨
      s.accept ready =
        ([(s.nextNumber, .accept)],
          { s with
            clients := ⟨s.nextNumber, .empty, []⟩ :: s.clients
            nextNumber := s.nextNumber + 1 }) := by
  unfold accept
  split
  · exact .inl ⟨s.service, .inl rfl, rfl⟩
  · exact .inl ⟨_, .inr ⟨_, rfl⟩, rfl⟩
  · dsimp only
    split
    · exact .inr (.inl rfl)
    · exact .inr (.inr rfl)

theorem tracks_accept (hI : Service.Invariant I) (h : Tracks I log server) (ready : Ready) :
    Tracks I log (server.accept ready).2 := by
  have hlt : ∀ c ∈ server.clients, c.number < server.nextNumber + 1 :=
    fun c hc => Nat.lt_succ_of_lt (h.number_lt c hc)
  have hvisit : ∀ v ∈ log, v.number < server.nextNumber + 1 :=
    fun v hv => Nat.lt_succ_of_lt (h.visit_lt v hv)
  rcases accept_cases server ready with ⟨service, hservice, haccept⟩ | haccept | haccept
  · rw [haccept]
    refine h.service_of ?_
    rcases hservice with rfl | ⟨e, rfl⟩
    · exact h.service
    · exact hI.network _ h.service
  · rw [haccept]
    exact ⟨noteSending_invariant hI (hI.reject h.service) _, h.visit, h.client, h.complete,
      h.nodup, hlt, hvisit⟩
  · -- The new client has the next number, under which nothing was noted yet.
    have hnone : ∀ v ∈ log, v.number ≠ server.nextNumber := fun v hv => (h.visit_lt v hv).ne
    rw [haccept]
    refine ⟨h.service, h.visit, ?_, h.complete, ?_, ?_, hvisit⟩
    · refine List.forall_mem_cons.2 ⟨?_, h.client⟩
      unfold Client.Follows
      rw [receivedFrom_of_not_visited hnone, requestsOf_of_not_visited hnone]
      exact RequestStream.holds_empty
    · refine List.nodup_cons.2 ⟨?_, h.nodup⟩
      intro hmem
      obtain ⟨c, hc, heq⟩ := List.mem_map.1 hmem
      exact (h.number_lt c hc).ne heq
    · exact List.forall_mem_cons.2 ⟨Nat.lt_succ_self _, hlt⟩

theorem tracks_turns (hI : Service.Invariant I) (h : Tracks I log server) (ready : Ready) :
    Tracks I
      (log ++ visits server.settings server.clients.length ready server.clients server.service)
      { server with
        service := (turns server.settings server.clients.length ready server.clients
          server.service).2.2
        clients := (turns server.settings server.clients.length ready server.clients
          server.service).2.1 } := by
  have hturned := turned hI server.settings server.clients.length ready h.service h.nodup h.client
    h.complete
  have hnumbers := visits_numbers server.settings server.clients.length ready server.clients
    server.service
  have hlt : ∀ n ∈ server.clients.map (·.number), n < server.nextNumber := by
    intro n hn
    obtain ⟨c, hc, rfl⟩ := List.mem_map.1 hn
    exact h.number_lt c hc
  refine ⟨hturned.service, ?_, hturned.client, hturned.complete, hturned.sublist.nodup h.nodup, ?_,
    ?_⟩
  · intro v hv
    rcases List.mem_append.1 hv with hv | hv
    · exact h.visit v hv
    · exact hturned.visit v hv
  · intro c hc
    exact hlt _ (hturned.sublist.mem (List.mem_map_of_mem hc))
  · intro v hv
    rcases List.mem_append.1 hv with hv | hv
    · exact h.visit_lt v hv
    · refine hlt _ ?_
      rw [← hnumbers]
      exact List.mem_map_of_mem hv

/-- **Every act keeps the log.** -/
theorem tracks_act (hI : Service.Invariant I) (h : Tracks I log server) (a : Act) :
    Tracks I (log ++ server.visitsOf a) (server.act a) := by
  cases a with
  | sweep =>
    rw [visitsOf, List.append_nil]
    exact h.service_of (hI.sweep h.service)
  | pause micros =>
    rw [visitsOf, List.append_nil]
    exact h.service_of (hI.network _ h.service)
  | fail e =>
    rw [visitsOf, List.append_nil]
    exact h.service_of (hI.network _ h.service)
  | pass ready => exact tracks_turns hI (tracks_accept hI h ready) ready

/-- **So does every run.** -/
theorem tracks_after (hI : Service.Invariant I) (h : Tracks I log server) (acts : List Act) :
    Tracks I (log ++ server.history acts) (server.after acts) := by
  induction acts generalizing server log with
  | nil => simpa [history, after] using h
  | cons a rest ih =>
    have hrest := ih (tracks_act hI h a)
    rw [List.append_assoc] at hrest
    exact hrest

end Server

/-! ### Sessions -/

namespace Session

open Server (Act)

/-- The server comes from another one by acts. -/
def Comes (s s' : Server) : Prop := ∃ acts : List Act, s' = s.after acts

theorem Comes.refl (s : Server) : Comes s s := ⟨[], rfl⟩

theorem Comes.act {s s' : Server} (h : Comes s s') (a : Act) : Comes s (s'.act a) := by
  obtain ⟨acts, rfl⟩ := h
  exact ⟨acts ++ [a], by simp [Server.after]⟩

theorem Comes.trans {s s' s'' : Server} (h : Comes s s') (g : Comes s' s'') : Comes s s'' := by
  obtain ⟨acts, rfl⟩ := h
  obtain ⟨acts', rfl⟩ := g
  exact ⟨acts ++ acts', by simp [Server.after]⟩

/-- A pass comes after a sweep. -/
theorem comes_swept (s : State) (gone : List Bytes) (ready : Ready) :
    Comes s.server (State.pass ⟨s.server.sweep, s.numbers⟩ gone ready).2.server :=
  ((Comes.refl s.server).act .sweep).act (.pass ready)

theorem comes_readOn (items : List (Nat × Incoming)) (s : State) :
    Comes s.server (readOn items s).2.server := by
  induction items generalizing s with
  | nil => exact .refl _
  | cons item rest ih =>
    unfold readOn
    split
    · exact (comes_swept s [] _).trans (ih (State.pass ⟨s.server.sweep, s.numbers⟩ [] _).2)
    · exact ih s

theorem comes_step (outside : Step) (s : State) : Comes s.server (step s outside).2.server := by
  have hpaused := ((Comes.refl s.server).act .sweep).act (.pause outside.elapsed)
  unfold step
  dsimp only
  split
  · exact hpaused.act (.fail .interrupted)
  · refine Comes.trans ?_ (comes_readOn _ _)
    refine Comes.act ?_ (.pass _)
    unfold State.announce
    split <;> exact hpaused

theorem comes_steps (outside : List Step) (s : State) :
    Comes s.server (steps outside s).2.server := by
  induction outside generalizing s with
  | nil => exact .refl _
  | cons first rest ih => exact (comes_step first s).trans (ih _)

theorem comes_idlePasses (count : Nat) (s : State) :
    Comes s.server (idlePasses count s).2.server := by
  induction count generalizing s with
  | zero => exact .refl _
  | succ count ih =>
    exact (comes_swept s [] .idle).trans (ih (State.pass ⟨s.server.sweep, s.numbers⟩ [] .idle).2)

/-- **A session runs its server by acts**, up to the moment when it is told to stop. -/
theorem exists_acts_passes (outside : List Step) (s : State) :
    ∃ acts : List Act, (passes outside s).2.server = (s.server.after acts).sweep.stop.2 := by
  have hsteps := comes_steps outside s
  obtain ⟨acts, hacts⟩ := hsteps.trans (comes_idlePasses _ (steps outside s).2)
  exact ⟨acts, congrArg (fun server : Server => server.sweep.stop.2) hacts⟩

end Session

end CoherentCache
