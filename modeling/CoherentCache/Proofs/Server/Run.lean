import CoherentCache.Proofs.Server.Answers

/-!
# Runs of a server

The clients of a server take their turns in some order, and nothing promises that it is the same one
in every pass.  A run of a server is a list of acts with changes of that order in between; it comes
with the log of the visits and with all that clients noticed.  In a pass every client has one turn,
whatever the order, so that what holds of single turns holds of runs.

* `Server.Runs` : the runs of a server.
* `Server.tracks_runs` : **the log of a run tells what was read from clients and done for them.**
* `Server.TakesTurn`, `Server.takesTurn` : the one turn that a client has in a pass.
* `Server.Client.Invariant`, `Server.keeps_runs` : **what every turn of a client keeps holds of
  every client in every run.**
-/

namespace CoherentCache

namespace ServerEvent

/-- The data that a client is given. -/
def data : ServerEvent → Bytes
  | .send data => data
  | .accept | .sendFailed | .close => []

@[simp] theorem data_send (data : Bytes) : (send data).data = data := rfl

@[simp] theorem data_accept : accept.data = [] := rfl

@[simp] theorem data_sendFailed : sendFailed.data = [] := rfl

@[simp] theorem data_close : close.data = [] := rfl

end ServerEvent

theorem Service.invariant_true : Invariant fun _ => True :=
  ⟨fun _ _ _ _ => trivial, fun _ _ => trivial, fun _ => trivial, fun _ _ => trivial,
    fun _ => trivial⟩

namespace Server

/-- What clients notice of an act. -/
def noticesOf (s : Server) : Act → Notices
  | .sweep | .pause _ | .fail _ => []
  | .pass ready => (s.pass ready).1

/-- What clients notice of acts. -/
def noticed (s : Server) : List Act → Notices
  | [] => []
  | a :: rest => s.noticesOf a ++ (s.act a).noticed rest

/-- The runs of a server: the acts, the visits, what clients noticed, and the server afterwards. -/
inductive Runs (s : Server) : List Act → List Visit → Notices → Server → Prop where
  /-- Nothing happens. -/
  | start : Runs s [] [] [] s
  /-- One more act. -/
  | act {acts : List Act} {log : List Visit} {notices : Notices} {s' : Server}
      (run : Runs s acts log notices s') (a : Act) :
      Runs s (acts ++ [a]) (log ++ s'.visitsOf a) (notices ++ s'.noticesOf a) (s'.act a)
  /-- From now on the clients take their turns in another order. -/
  | reorder {acts : List Act} {log : List Visit} {notices : Notices} {s' : Server}
      (run : Runs s acts log notices s') {clients : List Client} (same : clients.Perm s'.clients) :
      Runs s acts log notices { s' with clients }

variable {s s' : Server} {acts : List Act} {log log' : List Visit} {notices notices' : Notices}
  {number : Nat} {settings : Settings} {connected : Nat} {ready : Ready} {c : Client}
  {service : Service} {I : Service → Prop}

/-- Runs in which the order of turns stays as it is go on. -/
theorem Runs.after (h : Runs s acts log notices s') (more : List Act) :
    Runs s (acts ++ more) (log ++ s'.history more) (notices ++ s'.noticed more)
      (s'.after more) := by
  induction more generalizing acts log notices s' with
  | nil => simpa [history, noticed, Server.after] using h
  | cons a more ih =>
    have hmore := ih (h.act a)
    simp only [List.append_assoc, List.singleton_append] at hmore
    exact hmore

/-- Acts make a run. -/
theorem runs_after (s : Server) (acts : List Act) :
    Runs s acts (s.history acts) (s.noticed acts) (s.after acts) := Runs.start.after acts

/-! ### The log of a run -/

theorem Tracks.reorder {I : Service → Prop} (h : Tracks I log s) {clients : List Client}
    (same : clients.Perm s.clients) : Tracks I log { s with clients } :=
  ⟨h.service, h.visit, fun c hc => h.client c (same.mem_iff.1 hc), h.complete,
    (same.map (·.number)).nodup_iff.2 h.nodup, fun c hc => h.number_lt c (same.mem_iff.1 hc),
    h.visit_lt⟩

/-- **The log of a run tells what was read from clients and done for them**, in whatever order they
take their turns. -/
theorem tracks_runs {I : Service → Prop} (hI : Service.Invariant I) (h : Tracks I [] s)
    (hrun : Runs s acts log notices s') : Tracks I log s' := by
  induction hrun with
  | start => exact h
  | act _ a ih => exact tracks_act hI ih a
  | reorder _ same ih => exact ih.reorder same

/-! ### The turn of a client in a pass -/

/-- All that was sent to the client. -/
def sentTo (number : Nat) (notices : Notices) : Bytes :=
  (notices.filter (·.1 = number)).flatMap (·.2.data)

@[simp] theorem sentTo_append :
    sentTo number (notices ++ notices') = sentTo number notices ++ sentTo number notices' := by
  simp [sentTo]

/-- A client that notices nothing is sent nothing. -/
theorem sentTo_of_unnoticed (h : ∀ notice ∈ notices, notice.1 ≠ number) :
    sentTo number notices = [] := by
  have hnone : notices.filter (·.1 = number) = [] := by simpa [List.filter_eq_nil_iff] using h
  rw [sentTo, hnone, List.flatMap_nil]

/-- What a client notices of its turn, its connection being closed if need be. -/
def Turn.heard (t : Turn) : Notices :=
  (if t.closing then t.events ++ [.close] else t.events).map (t.client.number, ·)

theorem number_of_mem_heard (t : Turn) : ∀ notice ∈ t.heard, notice.1 = t.client.number := by
  intro notice hnotice
  obtain ⟨event, -, rfl⟩ := List.mem_map.1 hnotice
  rfl

theorem sentTo_heard (t : Turn) :
    sentTo t.client.number t.heard = t.events.flatMap ServerEvent.data := by
  have hsame : t.heard.filter (·.1 = t.client.number) = t.heard := by
    simp [Turn.heard, List.filter_eq_self]
  rw [sentTo, hsame, Turn.heard, List.flatMap_map]
  split
  · simp
  · rfl

theorem turn_number (settings : Settings) (connected : Nat) (ready : Ready) (c : Client)
    (service : Service) : (turn settings connected ready c service).client.number = c.number := by
  have hreceive (incoming : Option Incoming) :
      (receive settings connected incoming c service).client.number = c.number := by
    rcases incoming with _ | bytes | _ | _ <;> rfl
  rcases turn_cases settings connected ready c service with hturn | hturn
  · rw [hturn, hreceive]
  · rw [hturn, flush_number, hreceive]

/-- In the pass the client has its turn with that service: the visits to it and what it notices are
those of the turn. -/
structure TakesTurn (settings : Settings) (connected : Nat) (ready : Ready) (vs : List Visit)
    (notices : Notices) (c : Client) (service : Service) : Prop where
  /-- The exchanges. -/
  exchanges : exchangesWith c.number vs =
    (visit settings connected (ready.incoming c.number) c service).exchanges
  /-- The bytes sent. -/
  sent : sentTo c.number notices =
    (turn settings connected ready c service).events.flatMap ServerEvent.data

/-- The turn of another client makes no difference. -/
theorem TakesTurn.after {v : Visit} (h : TakesTurn settings connected ready log notices' c service)
    (hv : v.number ≠ c.number) (hnotices : ∀ notice ∈ notices, notice.1 ≠ c.number) :
    TakesTurn settings connected ready (v :: log) (notices ++ notices') c service := by
  have hvisit : exchangesWith c.number [v] = [] :=
    exchangesWith_of_not_visited (by simpa using hv)
  refine ⟨?_, ?_⟩
  · rw [← List.singleton_append, exchangesWith_append, hvisit, List.nil_append]
    exact h.exchanges
  · rw [sentTo_append, sentTo_of_unnoticed hnotices, List.nil_append]
    exact h.sent

/-- The first turn of a pass, in which no other turn is that client's. -/
theorem takesTurn_first (hlog : ∀ v ∈ log, v.number ≠ c.number)
    (hnotices : ∀ notice ∈ notices, notice.1 ≠ c.number) :
    TakesTurn settings connected ready
      (visit settings connected (ready.incoming c.number) c service :: log)
      ((turn settings connected ready c service).heard ++ notices) c service := by
  have hvisit := visit_number settings connected (ready.incoming c.number) c service
  have hnumber := turn_number settings connected ready c service
  refine ⟨?_, ?_⟩
  · rw [← List.singleton_append, exchangesWith_append, exchangesWith_of_not_visited hlog]
    simp [exchangesWith, hvisit]
  · rw [sentTo_append, sentTo_of_unnoticed hnotices, List.append_nil]
    have hsent := sentTo_heard (turn settings connected ready c service)
    rwa [hnumber] at hsent

/-- Only clients that take their turns notice anything of a pass. -/
theorem number_of_mem_turns (settings : Settings) (connected : Nat) (ready : Ready)
    (clients : List Client) (service : Service) :
    ∀ notice ∈ (turns settings connected ready clients service).1,
      notice.1 ∈ clients.map (·.number) := by
  induction clients generalizing service with
  | nil => simp [turns]
  | cons c rest ih =>
    have hnumber := turn_number settings connected ready c service
    intro notice hnotice
    rw [turns] at hnotice
    dsimp only at hnotice
    rw [List.map_cons, List.mem_cons]
    rcases List.mem_append.1 hnotice with hnotice | hnotice
    · left
      exact (number_of_mem_heard _ notice hnotice).trans hnumber
    · right
      exact ih _ notice hnotice

/-- Who is not connected has no part in a pass. -/
theorem apart_of_not_mem {clients : List Client} (hn : number ∉ clients.map (·.number))
    (settings : Settings) (connected : Nat) (ready : Ready) (service : Service) :
    exchangesWith number (visits settings connected ready clients service) = [] ∧
      sentTo number (turns settings connected ready clients service).1 = [] := by
  have hnumbers := visits_numbers settings connected ready clients service
  have hnotices := number_of_mem_turns settings connected ready clients service
  refine ⟨exchangesWith_of_not_visited ?_, sentTo_of_unnoticed ?_⟩
  · rintro v hv rfl
    exact hn (hnumbers ▸ List.mem_map_of_mem hv)
  · rintro notice hnotice rfl
    exact hn (hnotices notice hnotice)

/-- Whoever is left after a turn had that turn, or one of those that follow. -/
theorem mem_left {t : Turn} {left : List Client}
    (h : c ∈ if t.closing then left else t.client :: left) :
    (t.closing = false ∧ c = t.client) ∨ c ∈ left := by
  split at h
  · exact .inr h
  · next hopen => exact (List.mem_cons.1 h).imp_left fun heq => ⟨by simpa using hopen, heq⟩

/-- **Every client has one turn in a pass**, and those that stay connected are as their turns leave
them. -/
theorem takesTurn (settings : Settings) (connected : Nat) (ready : Ready) {clients : List Client}
    (hnodup : (clients.map (·.number)).Nodup) (service : Service) :
    let vs := visits settings connected ready clients service
    let result := turns settings connected ready clients service
    (∀ c ∈ clients, ∃ s : Service, TakesTurn settings connected ready vs result.1 c s) ∧
      ∀ c' ∈ result.2.1, ∃ c ∈ clients, ∃ s : Service,
        TakesTurn settings connected ready vs result.1 c s ∧
          (turn settings connected ready c s).closing = false ∧
          c' = (turn settings connected ready c s).client := by
  induction clients generalizing service with
  | nil => simp [turns]
  | cons first rest ih =>
    obtain ⟨hfresh, hrest⟩ := List.nodup_cons.1 hnodup
    obtain ⟨hall, hleft⟩ := ih hrest (turn settings connected ready first service).service
    have hvisit := visit_number settings connected (ready.incoming first.number) first service
    have hnumber := turn_number settings connected ready first service
    have hnumbers := visits_numbers settings connected ready rest
      (turn settings connected ready first service).service
    have hnotices := number_of_mem_turns settings connected ready rest
      (turn settings connected ready first service).service
    have hheard := number_of_mem_heard (turn settings connected ready first service)
    rw [hnumber] at hheard
    rw [visits, turns]
    dsimp only
    generalize visits settings connected ready rest
      (turn settings connected ready first service).service = vs at *
    generalize turns settings connected ready rest
      (turn settings connected ready first service).service = result at *
    have hfirst : TakesTurn settings connected ready
        (visit settings connected (ready.incoming first.number) first service :: vs)
        ((turn settings connected ready first service).heard ++ result.1) first service := by
      refine takesTurn_first ?_ ?_
      · intro v hv
        exact ne_of_mem_of_not_mem (hnumbers ▸ List.mem_map_of_mem hv) hfresh
      · intro notice hnotice
        exact ne_of_mem_of_not_mem (hnotices notice hnotice) hfresh
    -- A turn of one of the others comes after the first one, which is not theirs.
    have hother (c : Client) (hc : c ∈ rest) (s : Service)
        (h : TakesTurn settings connected ready vs result.1 c s) :
        TakesTurn settings connected ready
          (visit settings connected (ready.incoming first.number) first service :: vs)
          ((turn settings connected ready first service).heard ++ result.1) c s := by
      have hne : first.number ≠ c.number :=
        (ne_of_mem_of_not_mem (List.mem_map_of_mem hc) hfresh).symm
      refine h.after (hvisit.trans_ne hne) ?_
      intro notice hnotice
      exact (hheard notice hnotice).trans_ne hne
    refine ⟨List.forall_mem_cons.2 ⟨⟨service, hfirst⟩, ?_⟩, ?_⟩
    · intro c hc
      obtain ⟨s, hs⟩ := hall c hc
      exact ⟨s, hother c hc s hs⟩
    · intro c' hc'
      rcases mem_left hc' with ⟨hopen, rfl⟩ | hc'
      · exact ⟨first, List.mem_cons_self, service, hfirst, hopen, rfl⟩
      · obtain ⟨c, hc, s, hs, hopen, rfl⟩ := hleft c' hc'
        exact ⟨c, List.mem_cons_of_mem _ hc, s, hother c hc s hs, hopen, rfl⟩

/-! ### The bytes of a turn -/

/-- The replies of exchanges, as they stand on the wire. -/
def replyBytes (es : List Exchange) : Bytes := es.flatMap fun e => e.reply.encode

@[simp] theorem replyBytes_append (es es' : List Exchange) :
    replyBytes (es ++ es') = replyBytes es ++ replyBytes es' := by simp [replyBytes]

/-- Replies are appended to what waits for the client. -/
theorem pending_receive (settings : Settings) (connected : Nat) (incoming : Option Incoming)
    (c : Client) (service : Service) :
    (receive settings connected incoming c service).client.pending =
      c.pending ++ replyBytes (visit settings connected incoming c service).exchanges := by
  rcases incoming with _ | bytes | _ | _
  · simp [receive, visit, replyBytes]
  · simp only [receive, visit, (serving ..).replies_eq, replyBytes, List.map_map,
      List.flatMap_def]
    rfl
  · simp [receive, visit, replyBytes]
  · simp [receive, visit, replyBytes]

theorem events_receive (settings : Settings) (connected : Nat) (incoming : Option Incoming)
    (c : Client) (service : Service) :
    (receive settings connected incoming c service).events = [] := by
  rcases incoming with _ | bytes | _ | _ <;> rfl

theorem taken_isPrefix (data : Bytes) (sending : Option Sending) :
    (sendEvent (Sending.taken data sending)).data <+: data := by
  rcases sending with _ | (limit | e)
  · exact List.prefix_refl data
  · exact List.take_prefix limit data
  · exact List.nil_prefix

/-- A send takes its data off the front of what waits for the client. -/
theorem flush_splits (sending : Option Sending) (t : Turn) :
    (flush sending t).events.flatMap ServerEvent.data ++ (flush sending t).client.pending =
      t.events.flatMap ServerEvent.data ++ t.client.pending := by
  have htaken : ∀ data, Sending.taken (t.client.pending.take sendSize) sending = some data →
      data ++ t.client.pending.drop data.length = t.client.pending := by
    intro data hdata
    have hprefix : data <+: t.client.pending.take sendSize := by
      have hsent := taken_isPrefix (t.client.pending.take sendSize) sending
      rwa [hdata] at hsent
    obtain ⟨rest, hrest⟩ := hprefix.trans (List.take_prefix sendSize t.client.pending)
    rw [← hrest, List.drop_left]
  unfold flush
  dsimp only
  split
  · next hnone => simp [hnone, sendEvent]
  · next hempty => simp [hempty, sendEvent]
  · next data _ hdata =>
    simp only [hdata, sendEvent, List.flatMap_append, List.flatMap_cons, List.flatMap_nil,
      ServerEvent.data_send, List.append_nil, List.append_assoc]
    rw [htaken data hdata]

/-- **No byte is lost in a turn**: what is sent and what waits after it is what waited before it and
the replies, in that order. -/
theorem turn_splits (settings : Settings) (connected : Nat) (ready : Ready) (c : Client)
    (service : Service) :
    (turn settings connected ready c service).events.flatMap ServerEvent.data ++
        (turn settings connected ready c service).client.pending =
      c.pending ++
        replyBytes (visit settings connected (ready.incoming c.number) c service).exchanges := by
  have hreceive := pending_receive settings connected (ready.incoming c.number) c service
  have hevents := events_receive settings connected (ready.incoming c.number) c service
  rcases turn_cases settings connected ready c service with hturn | hturn
  · rw [hturn, hevents, hreceive, List.flatMap_nil, List.nil_append]
  · rw [hturn, flush_splits, hevents, hreceive, List.flatMap_nil, List.nil_append]

/-- Sending keeps no connection that is to be closed. -/
theorem closing_of_flush {sending : Option Sending} {t : Turn}
    (h : (flush sending t).closing = false) : t.closing = false := by
  unfold flush at h
  dsimp only at h
  split at h
  · cases h
  · cases h
  · exact h

theorem closing_receive (h : (turn settings connected ready c service).closing = false) :
    (receive settings connected (ready.incoming c.number) c service).closing = false := by
  rcases turn_cases settings connected ready c service with hturn | hturn
  · rwa [hturn] at h
  · rw [hturn] at h
    exact closing_of_flush h

/-! ### What turns keep of a client -/

/-- A property of a client, the exchanges with it and the bytes sent to it, that every turn keeps as
long as the client stays connected; `Q` is what a turn gives of it in any case. -/
structure Client.Invariant (settings : Settings) (P : Client → List Exchange → Bytes → Prop)
    (Q : List Exchange → Bytes → Prop) : Prop where
  /-- A client that was just connected. -/
  fresh : ∀ number, P ⟨number, .empty, []⟩ [] []
  /-- A turn. -/
  turn : ∀ {c : Client} {es : List Exchange} {sent : Bytes} (connected : Nat) (ready : Ready)
    (s : Service), P c es sent →
      let t := Server.turn settings connected ready c s
      let es' := es ++ (visit settings connected (ready.incoming c.number) c s).exchanges
      let sent' := sent ++ t.events.flatMap ServerEvent.data
      Q es' sent' ∧ (t.closing = false → P t.client es' sent')

variable {P : Client → List Exchange → Bytes → Prop} {Q : List Exchange → Bytes → Prop}

/-- The property holds of the clients of a server after a run. -/
structure Keeps (P : Client → List Exchange → Bytes → Prop) (Q : List Exchange → Bytes → Prop)
    (log : List Visit) (notices : Notices) (s : Server) : Prop where
  /-- Those that are connected. -/
  client : ∀ c ∈ s.clients, P c (exchangesWith c.number log) (sentTo c.number notices)
  /-- Those that ever were, for a visit at least. -/
  visited : ∀ v ∈ log, Q (exchangesWith v.number log) (sentTo v.number notices)
  /-- Those that never were. -/
  unvisited : ∀ number, (∀ v ∈ log, v.number ≠ number) → sentTo number notices <+: turnedAway.encode
  /-- Clients to come notice nothing yet. -/
  notice_lt : ∀ notice ∈ notices, notice.1 < s.nextNumber

theorem keeps_ofHost (settings : Settings) (host : Host) : Keeps P Q [] [] (ofHost settings host) :=
  ⟨by simp [ofHost], by simp, fun _ _ => List.nil_prefix, by simp⟩

theorem Keeps.service_of (h : Keeps P Q log notices s) (service : Service) :
    Keeps P Q log notices { s with service } :=
  ⟨h.client, h.visited, h.unvisited, h.notice_lt⟩

theorem Keeps.reorder (h : Keeps P Q log notices s) {clients : List Client}
    (same : clients.Perm s.clients) : Keeps P Q log notices { s with clients } :=
  ⟨fun c hc => h.client c (same.mem_iff.1 hc), h.visited, h.unvisited, h.notice_lt⟩

/-- A client that has the next number notices something; the others do not. -/
theorem Keeps.notice (h : Keeps P Q log notices s) (htracks : Tracks I log s)
    (events : List ServerEvent) (hsent : events.flatMap ServerEvent.data <+: turnedAway.encode)
    (service : Service) :
    Keeps P Q log (notices ++ events.map (s.nextNumber, ·))
      { s with service, nextNumber := s.nextNumber + 1 } := by
  have hothers (number : Nat) (hne : number ≠ s.nextNumber) :
      sentTo number (notices ++ events.map (s.nextNumber, ·)) = sentTo number notices := by
    have hnone : sentTo number (events.map (s.nextNumber, ·)) = [] := by
      refine sentTo_of_unnoticed fun notice hnotice => ?_
      obtain ⟨event, -, rfl⟩ := List.mem_map.1 hnotice
      exact hne.symm
    rw [sentTo_append, hnone, List.append_nil]
  refine ⟨?_, ?_, ?_, ?_⟩
  · intro c hc
    rw [hothers c.number (htracks.number_lt c hc).ne]
    exact h.client c hc
  · intro v hv
    rw [hothers v.number (htracks.visit_lt v hv).ne]
    exact h.visited v hv
  · intro number hnumber
    by_cases hn : number = s.nextNumber
    · have hbefore : sentTo s.nextNumber notices = [] :=
        sentTo_of_unnoticed fun notice hnotice => (h.notice_lt notice hnotice).ne
      have hall : (events.map (s.nextNumber, ·)).filter (·.1 = s.nextNumber) =
          events.map (s.nextNumber, ·) := by
        simp [List.filter_eq_self]
      rw [hn, sentTo_append, hbefore, List.nil_append, sentTo, hall, List.flatMap_map]
      exact hsent
    · rw [hothers number hn]
      exact h.unvisited number hnumber
  · intro notice hnotice
    rcases List.mem_append.1 hnotice with hnotice | hnotice
    · exact Nat.lt_succ_of_lt (h.notice_lt notice hnotice)
    · obtain ⟨event, -, rfl⟩ := List.mem_map.1 hnotice
      exact Nat.lt_succ_self _

theorem keeps_accept (hP : Client.Invariant settings P Q) (h : Keeps P Q log notices s)
    (htracks : Tracks I log s) (ready : Ready) :
    Keeps P Q log (notices ++ (s.accept ready).1) (s.accept ready).2 := by
  rcases accept_cases s ready with ⟨service, -, haccept⟩ | haccept | haccept
  · rw [haccept, List.append_nil]
    exact h.service_of service
  · rw [haccept]
    refine h.notice htracks [.accept, _, .close] ?_ _
    have htaken := taken_isPrefix turnedAway.encode (ready.sending s.nextNumber)
    simpa using htaken
  · have hnext := h.notice htracks [.accept] List.nil_prefix s.service
    have hlog : exchangesWith s.nextNumber log = [] :=
      exchangesWith_of_not_visited fun v hv => (htracks.visit_lt v hv).ne
    have hnotices : sentTo s.nextNumber notices = [] :=
      sentTo_of_unnoticed fun notice hnotice => (h.notice_lt notice hnotice).ne
    have hnothing : sentTo s.nextNumber [(s.nextNumber, .accept)] = [] := by simp [sentTo]
    rw [haccept]
    refine ⟨List.forall_mem_cons.2 ⟨?_, hnext.client⟩, hnext.visited, hnext.unvisited,
      hnext.notice_lt⟩
    dsimp only
    rw [hlog, sentTo_append, hnotices, hnothing]
    exact hP.fresh s.nextNumber

theorem keeps_turns (hP : Client.Invariant s.settings P Q) (h : Keeps P Q log notices s)
    (htracks : Tracks I log s) (ready : Ready) :
    Keeps P Q
      (log ++ visits s.settings s.clients.length ready s.clients s.service)
      (notices ++ (turns s.settings s.clients.length ready s.clients s.service).1)
      { s with
        service := (turns s.settings s.clients.length ready s.clients s.service).2.2
        clients := (turns s.settings s.clients.length ready s.clients s.service).2.1 } := by
  obtain ⟨hall, hleft⟩ := takesTurn s.settings s.clients.length ready htracks.nodup s.service
  have hnumbers := visits_numbers s.settings s.clients.length ready s.clients s.service
  have hnotices := number_of_mem_turns s.settings s.clients.length ready s.clients s.service
  have hapart (number : Nat) (hn : number ∉ s.clients.map (·.number)) :=
    apart_of_not_mem hn s.settings s.clients.length ready s.service
  generalize visits s.settings s.clients.length ready s.clients s.service = vs at *
  generalize turns s.settings s.clients.length ready s.clients s.service = result at *
  have hothers (number : Nat) (hn : number ∉ s.clients.map (·.number)) :
      exchangesWith number (log ++ vs) = exchangesWith number log ∧
        sentTo number (notices ++ result.1) = sentTo number notices := by
    obtain ⟨hvisits, hsent⟩ := hapart number hn
    rw [exchangesWith_append, sentTo_append, hvisits, hsent, List.append_nil, List.append_nil]
    exact ⟨rfl, rfl⟩
  refine ⟨?_, ?_, ?_, ?_⟩
  · intro c' hc'
    obtain ⟨c, hc, service, ht, hopen, rfl⟩ := hleft c' hc'
    rw [turn_number, exchangesWith_append, sentTo_append, ht.exchanges, ht.sent]
    exact (hP.turn s.clients.length ready service (h.client c hc)).2 hopen
  · intro v hv
    by_cases hn : v.number ∈ s.clients.map (·.number)
    · obtain ⟨c, hc, heq⟩ := List.mem_map.1 hn
      obtain ⟨service, ht⟩ := hall c hc
      rw [← heq, exchangesWith_append, sentTo_append, ht.exchanges, ht.sent]
      exact (hP.turn s.clients.length ready service (h.client c hc)).1
    · have hold : v ∈ log := by
        rcases List.mem_append.1 hv with hv | hv
        · exact hv
        · exact absurd (hnumbers ▸ List.mem_map_of_mem hv) hn
      rw [(hothers v.number hn).1, (hothers v.number hn).2]
      exact h.visited v hold
  · intro number hnumber
    have hn : number ∉ s.clients.map (·.number) := by
      rw [← hnumbers]
      intro hmem
      obtain ⟨v, hv, heq⟩ := List.mem_map.1 hmem
      exact hnumber v (List.mem_append_right _ hv) heq
    rw [(hothers number hn).2]
    exact h.unvisited number fun v hv => hnumber v (List.mem_append_left _ hv)
  · intro notice hnotice
    rcases List.mem_append.1 hnotice with hnotice | hnotice
    · exact h.notice_lt notice hnotice
    · obtain ⟨c, hc, heq⟩ := List.mem_map.1 (hnotices notice hnotice)
      rw [← heq]
      exact htracks.number_lt c hc

theorem settings_accept (s : Server) (ready : Ready) :
    (s.accept ready).2.settings = s.settings := by
  rcases accept_cases s ready with ⟨service, -, haccept⟩ | haccept | haccept <;> rw [haccept]

theorem settings_act (s : Server) (a : Act) : (s.act a).settings = s.settings := by
  cases a with
  | sweep => rfl
  | pause micros => rfl
  | fail e => rfl
  | pass ready => exact settings_accept s ready

theorem settings_runs (h : Runs s acts log notices s') : s'.settings = s.settings := by
  induction h with
  | start => rfl
  | act _ a ih => exact (settings_act _ a).trans ih
  | reorder _ _ ih => exact ih

theorem keeps_act (hI : Service.Invariant I) (hP : Client.Invariant s.settings P Q)
    (h : Keeps P Q log notices s) (htracks : Tracks I log s) (a : Act) :
    Keeps P Q (log ++ s.visitsOf a) (notices ++ s.noticesOf a) (s.act a) := by
  cases a with
  | sweep =>
    rw [visitsOf, noticesOf, List.append_nil, List.append_nil]
    exact h.service_of _
  | pause micros =>
    rw [visitsOf, noticesOf, List.append_nil, List.append_nil]
    exact h.service_of _
  | fail e =>
    rw [visitsOf, noticesOf, List.append_nil, List.append_nil]
    exact h.service_of _
  | pass ready =>
    have haccepted := keeps_accept hP h htracks ready
    rw [← settings_accept s ready] at hP
    have hturns := keeps_turns hP haccepted (tracks_accept hI htracks ready) ready
    rw [List.append_assoc] at hturns
    exact hturns

/-- **What every turn of a client keeps holds of every client in every run.** -/
theorem keeps_runs (hP : Client.Invariant settings P Q) {host : Host}
    (hrun : Runs (ofHost settings host) acts log notices s) : Keeps P Q log notices s := by
  induction hrun with
  | start => exact keeps_ofHost settings host
  | act run a ih =>
    have htracks := tracks_runs Service.invariant_true (tracks_ofHost settings trivial) run
    have hsettings := settings_runs run
    exact keeps_act Service.invariant_true (hsettings ▸ hP) ih htracks a
  | reorder _ same ih => exact ih.reorder same

/-! ### A server that keeps its records in memory -/

/-- A store in memory, with no network. -/
def memoryHost (settings : Settings) : Host :=
  ⟨.memory (.empty settings.memory), RemoteStore.Linked.networkOf []⟩

/-- A server with such a store, when it begins to listen. -/
def inMemory (settings : Settings) : Server := start settings (memoryHost settings)

end Server

end CoherentCache
