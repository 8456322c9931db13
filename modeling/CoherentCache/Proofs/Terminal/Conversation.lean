import CoherentCache.Proofs.Network.Traffic
import CoherentCache.Proofs.Resp.Command
import CoherentCache.Proofs.Resp.Reading
import CoherentCache.Terminal

/-!
# Conversations at the terminal

A terminal asks one request after the other and shows each reply before it asks the next.  What was
received for one request and not used up is kept for the next one, so the replies that are shown are
those that were received, in order, wherever the receives cut them.

The sends are a different matter.  A request is handed to one send, and what that send does not take
is never sent.  So the requests went out as they are only if no send took less than it was given
(`Terminal.short_send_unnoticed`).  On a connection of the remote store what is left is sent again
(`Connection.deliver_spec`).

* `Terminal.requests` : the requests of the lines that are typed.
* `Talk.ask`, `Talk.run` : one request, and all of them, one after the other.
* `Terminal.converse_eq` : the terminal asks the requests of the lines.
* `Talk.shown` : the replies, each with the moment at which it is shown.
* `Talk.Asked` : the invariant, kept by each request that gets a reply (`Talk.Asked.ask`) and so up
  to each of the moments (`Talk.Asked.shown`).
* `Terminal.replies_shown` : **what was sent and received when a reply is shown.**
-/

namespace CoherentCache

open Network (bytesSent bytesReceived)

namespace Terminal

/-- The requests of the lines that are typed: the words of each line that has any, up to the line
`quit`. -/
def requests (lines : List Bytes) : List (List Bytes) :=
  ((lines.takeWhile (· ≠ Bytes.ofString "quit")).map Bytes.words).filter (· ≠ [])

/-- A conversation under way. -/
structure Talk where
  /-- The connection. -/
  link : Link
  /-- What was received and not used up. -/
  replies : ReplyStream
  /-- The network. -/
  network : Network

namespace Talk

/-- Asks a request and waits for its reply.  Without a reply the run is over. -/
def ask (t : Talk) (request : List Bytes) : Except Outcome (Reply × Talk) :=
  match Sending.taken (Wire.command request) t.link.sendings.head? with
  | none => .error (finish 0 [] t.network)
  | some [] => .error (finish 0 [] (t.network.note (.send [])))
  | some taken =>
    match listen (t.network.note (.send taken)) t.replies t.link.receipts with
    | (.malformed, _, _, n) => .error (finish 1 (Bytes.ofString "malformed reply" ++ [10]) n)
    | (.silence, _, _, n) => .error (finish 0 [] n)
    | (.reply reply, receipts, replies, n) =>
      .ok (reply, ⟨⟨t.link.sendings.tail, receipts⟩, replies, n⟩)

/-- Asks one request after the other. -/
def run : List (List Bytes) → Talk → Outcome
  | [], t => finish 0 [] t.network
  | request :: rest, t =>
    match t.ask request with
    | .error outcome => outcome
    | .ok (reply, t) => (run rest t).after (reply.display [])

/-- The replies that are shown, each with the conversation at that moment. -/
def shown : List (List Bytes) → Talk → List (Reply × Talk)
  | [], _ => []
  | request :: rest, t =>
    match t.ask request with
    | .error _ => []
    | .ok (reply, t) => (reply, t) :: shown rest t

end Talk

theorem requests_cons (line : Bytes) (rest : List Bytes) :
    requests (line :: rest) =
      if line = Bytes.ofString "quit" then []
      else if Bytes.words line = [] then requests rest
      else Bytes.words line :: requests rest := by
  unfold requests
  by_cases hquit : line = Bytes.ofString "quit"
  · rw [if_pos hquit, List.takeWhile_cons_of_neg (by simpa using hquit)]
    rfl
  · rw [if_neg hquit, List.takeWhile_cons_of_pos (by simpa using hquit), List.map_cons]
    by_cases hblank : Bytes.words line = []
    · rw [if_pos hblank, List.filter_cons_of_neg (by simpa using hblank)]
    · rw [if_neg hblank, List.filter_cons_of_pos (by simpa using hblank)]

/-- **The terminal asks the requests of the lines**, one after the other. -/
theorem converse_eq (lines : List Bytes) (link : Link) (replies : ReplyStream) (n : Network) :
    converse lines link replies n = Talk.run (requests lines) ⟨link, replies, n⟩ := by
  induction lines generalizing link replies n with
  | nil => rfl
  | cons line rest ih =>
    rw [requests_cons, converse]
    split
    · rfl
    · split
      · exact ih link replies n
      · simp only [Talk.run, Talk.ask]
        cases Sending.taken (Wire.command (Bytes.words line)) link.sendings.head? with
        | none => rfl
        | some taken =>
          cases taken with
          | nil => rfl
          | cons b taken =>
            dsimp only
            obtain ⟨heard, receipts, replies', n'⟩ :=
              listen (n.note (.send (b :: taken))) replies link.receipts
            cases heard with
            | reply reply => exact congrArg (Outcome.after _) (ih _ _ _)
            | malformed => rfl
            | silence => rfl

/-! ### What the sends take -/

/-- What the sends take of the requests, one send for each. -/
def taken : List (List Bytes) → List Sending → Bytes
  | [], _ => []
  | request :: rest, sendings =>
    (Sending.taken (Wire.command request) sendings.head?).getD [] ++ taken rest sendings.tail

theorem taken_concat (asked : List (List Bytes)) (request : List Bytes) (sendings : List Sending) :
    taken (asked ++ [request]) sendings =
      taken asked sendings ++
        (Sending.taken (Wire.command request) (sendings.drop asked.length).head?).getD [] := by
  induction asked generalizing sendings with
  | nil => exact List.append_nil _
  | cons first rest ih =>
    rw [List.cons_append, taken, ih, taken, List.append_assoc, List.drop_tail, List.length_cons]

/-- A send takes a beginning. -/
theorem taken_isPrefix (data : Bytes) (sending : Option Sending) :
    (Sending.taken data sending).getD [] <+: data := by
  match sending with
  | none => exact List.prefix_refl _
  | some (.takes limit) => exact List.take_prefix ..
  | some (.fails _) => exact List.nil_prefix

theorem length_taken_le (asked : List (List Bytes)) (sendings : List Sending) :
    (taken asked sendings).length ≤ (asked.flatMap Wire.command).length := by
  induction asked generalizing sendings with
  | nil => exact Nat.le_refl _
  | cons request rest ih =>
    rw [taken, List.flatMap_cons, List.length_append, List.length_append]
    exact Nat.add_le_add (taken_isPrefix _ _).length_le (ih _)

/-- **The requests go out as they are exactly if every send takes all that it is given.**  Nothing
that a later send takes makes up for what one before it left. -/
theorem taken_eq_iff (asked : List (List Bytes)) (sendings : List Sending) :
    taken asked sendings = asked.flatMap Wire.command ↔
      ∀ (j : Nat) (request : List Bytes), asked[j]? = some request →
        Sending.taken (Wire.command request) sendings[j]? = some (Wire.command request) := by
  induction asked generalizing sendings with
  | nil => simp [taken]
  | cons request rest ih =>
    have hfirst : (Sending.taken (Wire.command request) sendings.head?).getD [] =
        Wire.command request ↔
          Sending.taken (Wire.command request) sendings.head? = some (Wire.command request) := by
      cases Sending.taken (Wire.command request) sendings.head? with
      | none => simp [Wire.command_ne_nil.symm]
      | some data => simp
    have hsplit : taken (request :: rest) sendings = (request :: rest).flatMap Wire.command ↔
        (Sending.taken (Wire.command request) sendings.head?).getD [] = Wire.command request ∧
          taken rest sendings.tail = rest.flatMap Wire.command := by
      rw [taken, List.flatMap_cons]
      constructor
      · intro h
        have hlength := congrArg List.length h
        rw [List.length_append, List.length_append] at hlength
        have hle := (taken_isPrefix (Wire.command request) sendings.head?).length_le
        have hle' := length_taken_le rest sendings.tail
        exact List.append_inj h (by omega)
      · rintro ⟨h, h'⟩
        rw [h, h']
    rw [hsplit, hfirst, ih]
    constructor
    · rintro ⟨h, h'⟩ j request' hj
      cases j with
      | zero =>
        cases hj
        rwa [← List.head?_eq_getElem?]
      | succ j =>
        rw [← List.getElem?_tail]
        exact h' j request' hj
    · intro h
      refine ⟨?_, fun j request' hj => ?_⟩
      · rw [List.head?_eq_getElem?]
        exact h 0 request rfl
      · rw [List.getElem?_tail]
        exact h (j + 1) request' hj

/-- The same for the requests up to a position. -/
theorem taken_take_eq_iff (asked : List (List Bytes)) (sendings : List Sending) (i : Nat) :
    taken (asked.take (i + 1)) sendings = (asked.take (i + 1)).flatMap Wire.command ↔
      ∀ j ≤ i, ∀ request, asked[j]? = some request →
        Sending.taken (Wire.command request) sendings[j]? = some (Wire.command request) := by
  rw [taken_eq_iff]
  constructor
  · intro h j hj request hrequest
    refine h j request ?_
    rwa [List.getElem?_take_of_lt (Nat.lt_succ_of_le hj)]
  · intro h j request hrequest
    rw [List.getElem?_take] at hrequest
    split at hrequest
    · next hj => exact h j (Nat.le_of_lt_succ hj) request hrequest
    · cases hrequest

/-! ### One request -/

variable {n : Network} {received : Bytes} {before : List Reply}

/-- **Listening sends nothing.**  Either it takes the next reply, or there is none complete in all
that was received. -/
theorem listen_spec (receipts : List Receipt) {replies : ReplyStream}
    (hreplies : replies.Holds received before) :
    ∃ new, (listen n replies receipts).2.2.2.events = new ++ n.events ∧ bytesSent new = [] ∧
      match (listen n replies receipts).1 with
      | .reply reply =>
        (listen n replies receipts).2.2.1.Holds (received ++ bytesReceived new) (before ++ [reply])
      | .malformed | .silence => Reply.completeIn (received ++ bytesReceived new) = before := by
  -- Up to here nothing was received, and nothing of what was there is complete.
  have hnone {replies replies' : ReplyStream} {received : Bytes}
      (hreplies : replies.Holds received before) (hnext : replies.next = (none, replies')) :
      Reply.completeIn (received ++ bytesReceived []) = before := by
    obtain ⟨hholds, hahead⟩ := hreplies.next_none hnext
    rw [bytesReceived, List.append_nil]
    exact hholds.completeIn_eq hahead
  fun_induction listen n replies receipts generalizing received with
  | case1 receipts n replies reply replies' hnext =>
    refine ⟨[], rfl, rfl, ?_⟩
    rw [bytesReceived, List.append_nil]
    exact hreplies.next_some hnext
  | case2 receipts n replies replies' hnext => exact ⟨[], rfl, rfl, hnone hreplies hnext⟩
  | case3 n replies replies' hnext => exact ⟨[], rfl, rfl, hnone hreplies hnext⟩
  | case4 n replies replies' hnext _ bytes rest ih =>
    obtain ⟨new, hnew, hsent, hheard⟩ := ih ((hreplies.next_none hnext).1.feed bytes)
    refine ⟨new ++ [.receive bytes], ?_, ?_, ?_⟩
    · rw [hnew, List.append_assoc]
      rfl
    · rw [Network.bytesSent_append, hsent]
      rfl
    · rw [Network.bytesReceived_append, ← List.append_assoc]
      exact hheard
  | case5 n replies replies' hnext _ micros rest ih => exact ih (hreplies.next_none hnext).1
  | case6 n replies replies' hnext => exact ⟨[], rfl, rfl, hnone hreplies hnext⟩
  | case7 n replies replies' hnext => exact ⟨[], rfl, rfl, hnone hreplies hnext⟩

namespace Talk

variable {start t t' : Talk} {request : List Bytes} {asked : List (List Bytes)}
  {replies : List Reply} {reply : Reply} {outcome : Outcome}

/-- **What asking one request does.**  With a reply, that reply is the next one, and what was sent
is what one send takes of the request.  Without one, nothing is shown, and nothing was sent or there
is no further reply complete in all that was received. -/
theorem ask_spec (t : Talk) (request : List Bytes) (hreplies : t.replies.Holds received before) :
    match t.ask request with
    | .ok (reply, t') =>
      t'.link.sendings = t.link.sendings.tail ∧
        ∃ new, t'.network.events = new ++ t.network.events ∧
          Sending.taken (Wire.command request) t.link.sendings.head? = some (bytesSent new) ∧
          t'.replies.Holds (received ++ bytesReceived new) (before ++ [reply])
    | .error outcome =>
      outcome.output = [] ∧
        ∃ new, outcome.network.events = new ++ t.network.events ∧
          ((Sending.taken (Wire.command request) t.link.sendings.head?).getD [] = [] ∨
            Reply.completeIn (received ++ bytesReceived new) = before) := by
  simp only [ask]
  cases hsent : Sending.taken (Wire.command request) t.link.sendings.head? with
  | none => exact ⟨rfl, [.close], rfl, .inl rfl⟩
  | some data =>
    cases data with
    | nil => exact ⟨rfl, [.close, .send []], rfl, .inl rfl⟩
    | cons b rest =>
      dsimp only
      have hheard := listen_spec (n := t.network.note (.send (b :: rest))) t.link.receipts hreplies
      generalize listen (t.network.note (.send (b :: rest))) t.replies t.link.receipts = found
        at hheard ⊢
      obtain ⟨heard, receipts, replies', n'⟩ := found
      obtain ⟨new, hnew, hquiet, hheard⟩ := hheard
      have hevents : n'.events = (new ++ [.send (b :: rest)]) ++ t.network.events := by
        rw [List.append_assoc]
        exact hnew
      have hsentNew : bytesSent (new ++ [.send (b :: rest)]) = b :: rest := by
        rw [Network.bytesSent_append, hquiet, List.append_nil]
        rfl
      have hreceivedNew : bytesReceived (new ++ [.send (b :: rest)]) = bytesReceived new :=
        Network.bytesReceived_append ..
      rw [← hreceivedNew] at hheard
      cases heard with
      | reply reply => exact ⟨rfl, _, hevents, congrArg some hsentNew.symm, hheard⟩
      | malformed => exact ⟨rfl, .close :: _, congrArg _ hevents, .inr hheard⟩
      | silence => exact ⟨rfl, .close :: _, congrArg _ hevents, .inr hheard⟩

/-! ### Many requests -/

/-- Since the start of the conversation the requests were asked, and each got one of the replies.
What was sent is what the sends took of the requests, and the replies were taken off what was
received. -/
structure Asked (start t : Talk) (asked : List (List Bytes)) (replies : List Reply) : Prop where
  /-- Each request was handed to one send. -/
  sendings : t.link.sendings = start.link.sendings.drop asked.length
  /-- There is one reply for each request. -/
  length_eq : replies.length = asked.length
  /-- What was sent and received. -/
  log : ∃ new, t.network.events = new ++ start.network.events ∧
    bytesSent new = taken asked start.link.sendings ∧
    t.replies.Holds (bytesReceived new) replies

theorem asked_start (h : start.replies = .empty) : Asked start start [] [] :=
  ⟨rfl, rfl, [], rfl, rfl, h ▸ ReplyStream.holds_empty⟩

/-- **A request that gets a reply is one more.** -/
theorem Asked.ask (h : Asked start t asked replies) (hask : t.ask request = .ok (reply, t')) :
    Asked start t' (asked ++ [request]) (replies ++ [reply]) := by
  obtain ⟨hsendings, hlength, new, hnew, hsent, hholds⟩ := h
  have hspec := t.ask_spec request hholds
  rw [hask] at hspec
  obtain ⟨htail, more, hmore, htaken, hholds'⟩ := hspec
  refine ⟨?_, by simp [hlength], more ++ new, ?_, ?_, ?_⟩
  · rw [htail, hsendings, List.tail_drop, List.length_append, List.length_singleton]
  · rw [hmore, hnew, List.append_assoc]
  · rw [Network.bytesSent_append, hsent, taken_concat, ← hsendings, htaken]
    rfl
  · rw [Network.bytesReceived_append]
    exact hholds'

/-- **It is so whenever a reply is shown.** -/
theorem Asked.shown (h : Asked start t asked replies) {rest : List (List Bytes)} {i : Nat}
    (hi : (Talk.shown rest t)[i]? = some (reply, t')) :
    Asked start t' (asked ++ rest.take (i + 1))
      (replies ++ ((Talk.shown rest t).take (i + 1)).map Prod.fst) := by
  induction rest generalizing t asked replies i with
  | nil => cases hi
  | cons request rest ih =>
    rw [Talk.shown] at hi ⊢
    cases hask : t.ask request with
    | error outcome =>
      rw [hask] at hi
      cases hi
    | ok next =>
      rw [hask] at hi
      cases i with
      | zero =>
        cases hi
        exact h.ask hask
      | succ i =>
        have hnext := ih (h.ask hask) hi
        rw [List.append_assoc, List.append_assoc] at hnext
        exact hnext

/-- What is written is the replies that are shown. -/
theorem output_run (h : t.replies.Holds received before) (rest : List (List Bytes)) :
    (run rest t).output = (Talk.shown rest t).flatMap fun x => x.1.display [] := by
  induction rest generalizing t received before with
  | nil => rfl
  | cons request rest ih =>
    have hspec := t.ask_spec request h
    rw [run, Talk.shown]
    cases hask : t.ask request with
    | error outcome =>
      rw [hask] at hspec
      exact hspec.1
    | ok next =>
      rw [hask] at hspec
      obtain ⟨-, new, -, -, hholds⟩ := hspec
      rw [List.flatMap_cons, ← ih hholds]
      rfl

/-- Nothing is taken from the log, and a reply is shown while the run is under way. -/
theorem events_run (h : t.replies.Holds received before) (rest : List (List Bytes)) :
    t.network.events <:+ (run rest t).network.events ∧
      ∀ x ∈ Talk.shown rest t, x.2.network.events <:+ (run rest t).network.events := by
  induction rest generalizing t received before with
  | nil => exact ⟨List.suffix_cons .., List.forall_mem_nil _⟩
  | cons request rest ih =>
    have hspec := t.ask_spec request h
    rw [run, Talk.shown]
    cases hask : t.ask request with
    | error outcome =>
      rw [hask] at hspec
      obtain ⟨-, new, hnew, -⟩ := hspec
      exact ⟨⟨new, hnew.symm⟩, List.forall_mem_nil _⟩
    | ok next =>
      rw [hask] at hspec
      obtain ⟨-, new, hnew, -, hholds⟩ := hspec
      obtain ⟨hfirst, hrest⟩ := ih hholds
      have hearlier : t.network.events <:+ next.2.network.events := ⟨new, hnew.symm⟩
      exact ⟨hearlier.trans hfirst, List.forall_mem_cons.2 ⟨hfirst, hrest⟩⟩

/-- **A run stops early only** if a send takes nothing or if no further reply is complete in all
that was received. -/
theorem Asked.stops (h : Asked start t asked replies) {rest after : List (List Bytes)}
    (hrest : rest.drop (Talk.shown rest t).length = request :: after) :
    ∃ new, (run rest t).network.events = new ++ start.network.events ∧
      ((Sending.taken (Wire.command request) (start.link.sendings.drop
          (asked.length + (Talk.shown rest t).length)).head?).getD [] = [] ∨
        Reply.completeIn (bytesReceived new) = replies ++ (Talk.shown rest t).map Prod.fst) := by
  induction rest generalizing t asked replies with
  | nil => cases hrest
  | cons first rest ih =>
    rw [run]
    rw [Talk.shown] at hrest ⊢
    cases hask : t.ask first with
    | error outcome =>
      rw [hask] at hrest
      obtain ⟨rfl, rfl⟩ := List.cons.inj hrest
      obtain ⟨hsendings, -, new, hnew, -, hholds⟩ := h
      have hspec := t.ask_spec first hholds
      rw [hask] at hspec
      obtain ⟨-, more, hmore, hwhy⟩ := hspec
      rw [hsendings] at hwhy
      refine ⟨more ++ new, ?_, hwhy.imp_right fun hnone => ?_⟩
      · rw [hmore, hnew, List.append_assoc]
      · rw [Network.bytesReceived_append, hnone]
        exact (List.append_nil _).symm
    | ok next =>
      rw [hask] at hrest
      obtain ⟨new, hnew, hwhy⟩ := ih (h.ask hask) hrest
      rw [List.length_append, List.length_singleton, Nat.add_assoc, Nat.add_comm 1,
        List.append_assoc] at hwhy
      exact ⟨new, hnew, hwhy⟩

end Talk

/-! ### Runs -/

/-- **Requests and replies at the terminal.**  The terminal writes the replies that are shown.  When
the reply at a position is shown:

* What was sent is what the sends took of the requests up to that position.  These are the requests
  as they are, one after the other, exactly if each of the sends took all that it was given.
* The reply is the one at its position in what was received, then and ever after.

If there are fewer replies than requests, then the send of the next request took nothing, or no
further reply is complete in all that was received. -/
theorem replies_shown (lines : List Bytes) (link : Link) (n : Network) :
    let outcome := converse lines link .empty n
    let shown := Talk.shown (requests lines) ⟨link, .empty, n⟩
    outcome.output = shown.flatMap (fun x => x.1.display []) ∧
      (∀ (i : Nat) (reply : Reply) (t : Talk), shown[i]? = some (reply, t) →
        ∃ earlier later, t.network.events = earlier ++ n.events ∧
          outcome.network.events = later ++ t.network.events ∧
          bytesSent earlier = taken ((requests lines).take (i + 1)) link.sendings ∧
          (bytesSent earlier = ((requests lines).take (i + 1)).flatMap Wire.command ↔
            ∀ j ≤ i, ∀ request, (requests lines)[j]? = some request →
              Sending.taken (Wire.command request) link.sendings[j]? =
                some (Wire.command request)) ∧
          ∀ more, (Reply.completeIn (bytesReceived earlier ++ more))[i]? = some reply) ∧
      ∀ request after, (requests lines).drop shown.length = request :: after →
        ∃ new, outcome.network.events = new ++ n.events ∧
          ((Sending.taken (Wire.command request) link.sendings[shown.length]?).getD [] = [] ∨
            Reply.completeIn (bytesReceived new) = shown.map Prod.fst) := by
  intro outcome shown
  have houtcome : outcome = Talk.run (requests lines) ⟨link, .empty, n⟩ := converse_eq ..
  have hstart : Talk.Asked ⟨link, .empty, n⟩ ⟨link, .empty, n⟩ [] [] := Talk.asked_start rfl
  rw [houtcome]
  refine ⟨Talk.output_run ReplyStream.holds_empty _, fun i reply t hi => ?_,
    fun request after hrest => ?_⟩
  · obtain ⟨-, hlength, earlier, hearlier, hsent, hholds⟩ := hstart.shown hi
    obtain ⟨later, hlater⟩ := (Talk.events_run (t := ⟨link, .empty, n⟩) ReplyStream.holds_empty _).2
      _ (List.mem_of_getElem? hi)
    rw [List.nil_append] at hsent hholds
    have hreply : ((shown.take (i + 1)).map Prod.fst)[i]? = some reply := by
      rw [List.getElem?_map, List.getElem?_take_of_lt (Nat.lt_succ_self i), hi]
      rfl
    refine ⟨earlier, later, hearlier, hlater.symm, hsent, ?_, hholds.getElem?_completeIn hreply⟩
    rw [hsent]
    exact taken_take_eq_iff ..
  · obtain ⟨new, hnew, hwhy⟩ := hstart.stops hrest
    rw [List.length_nil, Nat.zero_add, List.head?_drop] at hwhy
    exact ⟨new, hnew, hwhy⟩

/-- A network on which nothing happened. -/
def idle : Network := ⟨⟨0⟩, .ok 0, [], [], none⟩

/-- A connection with sends that have room for a request, and with two replies that arrive in three
pieces. -/
def roomy : Link :=
  ⟨[.takes 64, .takes 64], [.data (Bytes.ofString "+O"), .data (Bytes.ofString "K\r\n$1\r\n"),
    .data (Bytes.ofString "b\r\n")]⟩

/-- What is typed, with an empty line and with a line after `quit`. -/
def typed : List Bytes := ["SET  a b", "", "GET a", "quit", "PING"].map Bytes.ofString

/-- When the second reply is shown, the two requests were sent as they are, and nothing else was. -/
theorem replies_shown_roomy :
    ∃ reply t earlier, (Talk.shown (requests typed) ⟨roomy, .empty, idle⟩)[1]? = some (reply, t) ∧
      t.network.events = earlier ++ idle.events ∧
      bytesSent earlier =
        Wire.command (["SET", "a", "b"].map Bytes.ofString) ++
          Wire.command (["GET", "a"].map Bytes.ofString) ∧
      (Reply.completeIn (bytesReceived earlier))[1]? = some reply := by
  obtain ⟨-, hshown, -⟩ := replies_shown typed roomy idle
  have hsecond : ((Talk.shown (requests typed) ⟨roomy, .empty, idle⟩)[1]?).isSome := by
    decide +kernel
  obtain ⟨⟨reply, t⟩, hreply⟩ := Option.isSome_iff_exists.1 hsecond
  obtain ⟨earlier, later, hearlier, -, -, hwhole, hcomplete⟩ := hshown 1 reply t hreply
  have hroom : ∀ j ≤ 1, ∀ request, (requests typed)[j]? = some request →
      Sending.taken (Wire.command request) roomy.sendings[j]? = some (Wire.command request) := by
    have hrequests : requests typed =
        [["SET", "a", "b"].map Bytes.ofString, ["GET", "a"].map Bytes.ofString] := by
      decide +kernel
    intro j hj request hrequest
    rw [hrequests] at hrequest
    obtain rfl | rfl : j = 0 ∨ j = 1 := by omega
    · cases hrequest
      decide +kernel
    · cases hrequest
      decide +kernel
  have hall := hcomplete []
  rw [List.append_nil] at hall
  exact ⟨reply, t, earlier, hreply, hearlier, (hwhole.2 hroom).trans (by decide +kernel), hall⟩

/-- **A send that takes less goes unnoticed.**  The reply is shown although the request was not sent
as a whole. -/
theorem short_send_unnoticed :
    let link : Link := ⟨[.takes 5], [.data (Bytes.ofString "+PONG\r\n")]⟩
    let lines := [Bytes.ofString "PING"]
    (converse lines link .empty idle).output = Bytes.ofString "PONG\n" ∧
      (Talk.shown (requests lines) ⟨link, .empty, idle⟩).map
        (fun x => bytesSent x.2.network.events) = [Bytes.ofString "*1\r\n$"] ∧
      bytesSent (converse lines link .empty idle).network.events = Bytes.ofString "*1\r\n$" ∧
      (requests lines).flatMap Wire.command = Bytes.ofString "*1\r\n$4\r\nPING\r\n" := by
  decide +kernel

end Terminal

end CoherentCache
