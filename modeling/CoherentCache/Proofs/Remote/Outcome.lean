import CoherentCache.Proofs.Remote.Reaches
import Mathlib.Control.Monad.Basic

/-!
# What the answer of a remote store says

An operation on a remote store is answered from the reply to the last request of the call, or it
fails.  When it fails because no attempt was left, and one of the requests that called the procedure
was lost, the message says that the outcome is unknown.  A call that lost a request in one attempt
and got a refusal in a later one says nothing of the request that was lost.

* `RemoteStore.Linked.execute_spec` : an operation is answered from the reply to its last request,
  or it fails.
* `RemoteStore.Linked.execute_tells_of_lost` : what is said of a lost request.
* `RemoteStore.Linked.execute_silent_on_lost` : a lost request of which nothing is said.
-/

namespace CoherentCache

namespace RemoteStore

namespace Linked

/-! ### Uses of a store -/

/-- What a store is used for, and what befalls the system around it. -/
inductive Use where
  /-- Run an operation. -/
  | execute (key : Bytes) (op : Operation)
  /-- Look at a record. -/
  | inspect (key : Bytes)
  /-- Ask for a sign of life. -/
  | ping
  /-- Close the connection. -/
  | close
  /-- Time passes, in microseconds. -/
  | pause (micros : Int64)
  /-- Time passes, in nanoseconds. -/
  | advance (nanos : Int64)
  /-- A call to the system fails elsewhere. -/
  | fail (e : SystemError)

/-- The store after it was used once. -/
def use (l : Linked) : Use → Linked
  | .execute key op => (l.execute key op).2
  | .inspect key => (l.inspect key).2
  | .ping => l.ping.2
  | .close => l.close
  | .pause micros => { l with network := l.network.pause micros }
  | .advance nanos => { l with network := l.network.advance nanos }
  | .fail e => { l with network := l.network.fail e }

/-- The store after it was used many times. -/
def after (l : Linked) (uses : List Use) : Linked := uses.foldl use l

/-- A store that was not used yet, on a network with an empty log. -/
def fresh (settings : RemoteSettings) (n : Network) : Linked := ⟨ofSettings settings, n.forget⟩

variable {l m : Linked} {p : Procedure} {key : Bytes} {arguments : List Bytes} {reply : Reply}
  {cause : Cause} {e : StoreError}

theorem paired_of_network {requests : List (List Bytes)} {replies : List Reply}
    (h : l.store.connection.Paired l.network requests replies)
    (hconnection : m.store.connection = l.store.connection)
    (hevents : m.network.events = l.network.events) :
    m.store.connection.Paired m.network requests replies := by
  have htraffic := Network.traffic_eq hevents
  exact ⟨hconnection ▸ h.isOpen_eq, hconnection ▸ htraffic ▸ h.session, h.length_eq⟩

theorem inStep_of_network (h : l.InStep) (hconnection : m.store.connection = l.store.connection)
    (hevents : m.network.events = l.network.events) : m.InStep := by
  rcases h with hshut | ⟨requests, replies, hpaired⟩
  · exact .inl ⟨hconnection ▸ hshut.isOpen_eq, Network.traffic_eq hevents ▸ hshut.current⟩
  · exact .inr ⟨requests, replies, paired_of_network hpaired hconnection hevents⟩

theorem inStep_use (h : l.InStep) (use : Use) : (l.use use).InStep := by
  cases use with
  | execute key op => exact (reaches_execute l key op).inStep h
  | inspect key => exact (reaches_inspect l key).inStep h
  | ping => exact (reaches_ping l).inStep h
  | close =>
    rcases h with hshut | ⟨requests, replies, hpaired⟩
    · have hclose : (l.use .close).network = l.network := by
        simp [use, Linked.close, Connection.close, hshut.isOpen_eq]
      exact .inl ⟨rfl, by rw [hclose, hshut.current]⟩
    · obtain ⟨received, hcurrent, -⟩ := hpaired.session
      exact .inl (Connection.close_of_current hpaired.isOpen_eq hcurrent).1
  | pause micros => exact inStep_of_network h rfl rfl
  | advance nanos => exact inStep_of_network h rfl rfl
  | fail e => exact inStep_of_network h rfl rfl

theorem inStep_fresh (settings : RemoteSettings) (n : Network) : (fresh settings n).InStep :=
  .inl ⟨rfl, rfl⟩

theorem settings_use (l : Linked) (use : Use) :
    (l.use use).store.settings = l.store.settings := by
  cases use with
  | execute key op => exact (reaches_execute l key op).settings_eq
  | inspect key => exact (reaches_inspect l key).settings_eq
  | ping => exact (reaches_ping l).settings_eq
  | close | pause _ | advance _ | fail _ => rfl

/-- **Every use keeps the connection in step**, and the settings. -/
theorem inStep_after (h : l.InStep) (uses : List Use) :
    (l.after uses).InStep ∧ (l.after uses).store.settings = l.store.settings := by
  induction uses generalizing l with
  | nil => exact ⟨h, rfl⟩
  | cons use uses ih =>
    obtain ⟨hstep, hsettings⟩ := ih (inStep_use h use)
    exact ⟨hstep, hsettings.trans (settings_use l use)⟩

/-! ### Replies -/

/-- The request is the last one on the open connection, it was sent in full as the last thing that
was sent since `l`, and the reply at its position was read. -/
structure Got (l m : Linked) (request : List Bytes) (reply : Reply) : Prop where
  /-- The request and the reply are the last ones on the connection. -/
  paired : ∃ requests replies,
    m.store.connection.Paired m.network (requests ++ [request]) (replies ++ [reply])
  /-- The request was sent since `l`. -/
  sent : ∃ later earlier, m.network.events = later ++ earlier ++ l.network.events ∧
    Network.bytesSent later = Wire.command request

/-- The requests on an open connection and their replies are determined by what went over it. -/
theorem Paired.unique {c : Connection} {n : Network} {as bs : List (List Bytes)}
    {rs ss : List Reply} (h : c.Paired n as rs) (g : c.Paired n bs ss) : as = bs ∧ rs = ss := by
  obtain ⟨received, hcurrent, hholds⟩ := h.session
  obtain ⟨received', hcurrent', hholds'⟩ := g.session
  have hsession := Option.some.inj (hcurrent.symm.trans hcurrent')
  obtain ⟨hsent, rfl⟩ := Session.mk.inj hsession
  exact ⟨Wire.commands_inj hsent, Framing.Holds.unique hholds hholds'⟩

theorem got_unique {k : Linked} {a b : List Bytes} {r s : Reply} (h : Got l m a r)
    (g : Got k m b s) : a = b ∧ r = s := by
  obtain ⟨requests, replies, hpaired⟩ := h.paired
  obtain ⟨requests', replies', hpaired'⟩ := g.paired
  obtain ⟨hrequests, hreplies⟩ := Paired.unique hpaired hpaired'
  exact ⟨(List.append_inj' hrequests rfl).2 |> List.singleton_inj.1,
    (List.append_inj' hreplies rfl).2 |> List.singleton_inj.1⟩

/-- A call that gets a reply, after steps from `l`. -/
theorem got_of_call {Q : List Bytes → Prop} {request : List Bytes} (hl : l.InStep)
    (h : Reaches Q l m) (hcall : (m.call request).1 = .ok reply) :
    Got l (m.call request).2 request reply := by
  rcases h.inStep hl with hshut | ⟨requests, replies, hpaired⟩
  · rw [call_of_shut hshut] at hcall
    cases hcall
  · have hspec := Connection.call_of_paired hpaired request
    obtain ⟨earlier, hearlier⟩ := h.events_isSuffix hl
    simp only [call] at hcall ⊢
    split at hspec
    · next found c n heq =>
      rw [heq] at hcall ⊢
      cases hcall
      obtain ⟨later, hlater, hsent⟩ := hspec.sent
      refine ⟨⟨_, _, hspec.paired⟩, later, earlier, ?_, hsent⟩
      rw [hlater, ← hearlier, List.append_assoc]
    · next failure c n heq =>
      rw [heq] at hcall
      cases hcall

/-! ### The end of a run -/

theorem callOnce_ok (h : (l.callOnce p key arguments).1 = .ok reply) :
    ∃ m handle, Reaches (Asks key arguments) l m ∧
      (m.call (request handle key arguments)).1 = .ok reply ∧
      (l.callOnce p key arguments).2 = (m.call (request handle key arguments)).2 := by
  rcases callOnce_spec l p key arguments with ⟨cause, -, heq⟩ | ⟨handle, heq⟩
  · rw [heq] at h
    cases h
  · rw [heq] at h ⊢
    refine ⟨_, handle, l.reaches_ready.mono fun _ => .inl, ?_, rfl⟩
    cases hcall : (l.ready.2.call (request handle key arguments)).1 with
    | ok found =>
      rw [hcall] at h
      cases h
      rfl
    | error failure =>
      rw [hcall] at h
      cases h

theorem attempt_ok {reloaded : Bool} (h : (l.attempt reloaded p key arguments).1 = .ok reply) :
    ∃ m handle, Reaches (Asks key arguments) l m ∧
      (m.call (request handle key arguments)).1 = .ok reply ∧
      (l.attempt reloaded p key arguments).2.2 = (m.call (request handle key arguments)).2 := by
  obtain ⟨k, hk, hresult, hlast⟩ := attempt_spec l reloaded p key arguments
  have hbefore : Reaches (Asks key arguments) l k := by
    rcases hk with rfl | ⟨-, rfl⟩
    · exact .refl
    · exact (reaches_callOnce l p key arguments).keep rfl rfl rfl
  obtain ⟨m, handle, hm, hcall, heq⟩ := callOnce_ok (hresult ▸ h)
  exact ⟨m, handle, hbefore.trans hm, hcall, hlast.trans heq⟩

/-- A run that gives a reply ends with the call that got it. -/
theorem runFrom_ok {retries : Nat} {reloaded unsure : Bool}
    (h : (l.runFrom retries reloaded unsure p key arguments).1 = .ok reply) :
    ∃ m handle, Reaches (Asks key arguments) l m ∧
      (m.call (request handle key arguments)).1 = .ok reply ∧
      (l.runFrom retries reloaded unsure p key arguments).2 =
        (m.call (request handle key arguments)).2 := by
  obtain ⟨k, unsure', reloaded', hk, hend⟩ := runFrom_spec retries reloaded unsure l p key arguments
  rcases hend with ⟨found, r, m, hattempt, heq⟩ | ⟨cause, r, m, hattempt, heq⟩
  · rw [heq] at h ⊢
    cases h
    have hok : (k.attempt reloaded' p key arguments).1 = .ok reply := by rw [hattempt]
    obtain ⟨j, handle, hj, hcall, hlast⟩ := attempt_ok hok
    rw [hattempt] at hlast
    exact ⟨j, handle, hk.reaches.trans hj, hcall, hlast⟩
  · rw [heq] at h
    cases h

/-- No connection is open, or the last request on it sent a procedure. -/
def Unserved (l : Linked) : Prop :=
  l.store.connection.isOpen = false ∨
    ∃ requests replies p, l.store.connection.Paired l.network (requests ++ [loadRequest p]) replies

theorem Unserved.congr (h : m.Unserved) (hconnection : l.store.connection = m.store.connection)
    (hnetwork : l.network = m.network) : l.Unserved := by
  unfold Unserved
  rwa [hconnection, hnetwork]

theorem not_got_of_unserved {handle : Bytes} (h : m.Unserved) :
    ¬ Got l m (request handle key arguments) reply := by
  rintro ⟨⟨requests, replies, hpaired⟩, -⟩
  rcases h with hclosed | ⟨requests', replies', p, hload⟩
  · rw [hpaired.isOpen_eq] at hclosed
    cases hclosed
  · obtain ⟨hrequests, -⟩ := Paired.unique hpaired hload
    have hlast := (List.append_inj' hrequests rfl).2 |> List.singleton_inj.1
    exact not_isLoad_request handle key arguments ⟨p, hlast⟩

theorem isOpen_call_error {failure : Connection.Failure} {request : List Bytes} (h : l.InStep)
    (hcall : (l.call request).1 = .error failure) :
    (l.call request).2.store.connection.isOpen = false := by
  rcases h with hshut | ⟨requests, replies, hpaired⟩
  · rw [call_of_shut hshut]
    exact hshut.isOpen_eq
  · have hspec := Connection.call_of_paired hpaired request
    simp only [call] at hcall ⊢
    split at hspec
    · next heq =>
      rw [heq] at hcall
      cases hcall
    · next heq =>
      rw [heq]
      exact hspec.shut.isOpen_eq

theorem EndsWithLoad.unserved (h : EndsWithLoad l m) (hl : l.InStep) : m.Unserved := by
  obtain ⟨k, p, hk, rfl⟩ := h
  cases hcall : (k.call (loadRequest p)).1 with
  | error failure => exact .inl (isOpen_call_error (hk.inStep hl) hcall)
  | ok reply =>
    obtain ⟨requests, replies, hpaired⟩ := (got_of_call hl hk hcall).paired
    exact .inr ⟨requests, _, p, hpaired⟩

theorem callOnce_error (hl : l.InStep) (h : (l.callOnce p key arguments).1 = .error cause) :
    (l.callOnce p key arguments).2.Unserved := by
  rcases callOnce_spec l p key arguments with ⟨cause', hready, heq⟩ | ⟨handle, heq⟩
  · rw [heq]
    exact (ready_error hready).elim .inl (·.unserved hl)
  · rw [heq] at h ⊢
    cases hcall : (l.ready.2.call (request handle key arguments)).1 with
    | ok found =>
      rw [hcall] at h
      cases h
    | error failure => exact .inl (isOpen_call_error (l.reaches_ready.inStep hl) hcall)

theorem attempt_error {reloaded : Bool} (hl : l.InStep)
    (h : (l.attempt reloaded p key arguments).1 = .error cause) :
    (l.attempt reloaded p key arguments).2.2.Unserved := by
  obtain ⟨k, hk, hresult, hlast⟩ := attempt_spec l reloaded p key arguments
  rw [hlast]
  rw [hresult] at h
  rcases hk with rfl | ⟨-, rfl⟩
  · exact callOnce_error hl h
  · have hfirst := (reaches_callOnce l p key arguments).inStep hl
    exact callOnce_error (inStep_of_network hfirst rfl rfl) h

/-- A run that gives no reply leaves no call of a procedure as the last request. -/
theorem runFrom_error {retries : Nat} {reloaded unsure : Bool} (hl : l.InStep)
    (h : (l.runFrom retries reloaded unsure p key arguments).1 = .error e) :
    (l.runFrom retries reloaded unsure p key arguments).2.Unserved ∧ e.kind = .unavailable := by
  obtain ⟨k, unsure', reloaded', hk, hend⟩ := runFrom_spec retries reloaded unsure l p key arguments
  rcases hend with ⟨found, r, m, hattempt, heq⟩ | ⟨cause, r, m, hattempt, heq⟩
  · rw [heq] at h
    cases h
  · rw [heq] at h ⊢
    cases h
    have herror : (k.attempt reloaded' p key arguments).1 = .error cause := by rw [hattempt]
    have hunserved := attempt_error (hk.reaches.inStep hl) herror
    rw [hattempt] at hunserved
    exact ⟨hunserved.congr (countCause_connection ..) (countCause_network ..), rfl⟩

/-! ### Answers -/

/-- What a reply says in answer to an operation: whether a write was accepted, or what a read is
served. -/
def Says (op : Operation) (reply : Reply) (answer : Answer) : Prop :=
  match op with
  | .get =>
    (∀ value, answer.value = some value ↔ reply = .bulk value) ∧
      (answer.value = none ↔ reply = .null)
  | .set _ _ | .invalidate _ =>
    (answer.outcome = .accepted ↔ reply = .integer 1) ∧
      (answer.outcome = .rejected ↔ ∃ v, v ≠ 1 ∧ reply = .integer v)

/-- A reply is turned into an answer just when it says one. -/
theorem answerOf_spec (op : Operation) (reply : Reply) :
    match answerOf op reply with
    | .ok answer => Says op reply answer
    | .error e => e.kind ≠ .none ∧ ∀ answer, ¬ Says op reply answer := by
  cases op with
  | get =>
    cases reply with
    | bulk _ | null => simp [answerOf, Says]
    | simple _ | error _ | integer _ | array _ =>
      refine ⟨by simp [unavailable], fun answer => ?_⟩
      cases hvalue : answer.value <;> simp [Says, hvalue]
  | set _ _ | invalidate _ =>
    cases reply with
    | integer v => by_cases hv : v = 1 <;> simp [answerOf, Says, hv]
    | simple _ | error _ | bulk _ | null | array _ =>
      refine ⟨by simp [unavailable], fun answer => ?_⟩
      cases houtcome : answer.outcome <;> simp [Says, houtcome]

theorem not_says_error (op : Operation) (text : Bytes) (answer : Answer) :
    ¬ Says op (.error text) answer := by
  have hspec := answerOf_spec op (.error text)
  cases op <;> exact hspec.2 answer

theorem refusal_kind (text : Bytes) : (refusal text).kind ≠ .none := by
  unfold refusal
  split <;> simp [unavailable]

theorem run_ok (hl : l.InStep) (h : l.run p key arguments = (.ok reply, m)) :
    ∃ handle, Got l m (request handle key arguments) reply := by
  rw [run_eq] at h
  obtain ⟨k, handle, hk, hcall, hlast⟩ := runFrom_ok (congrArg Prod.fst h)
  obtain rfl : m = (k.call (request handle key arguments)).2 :=
    (congrArg Prod.snd h).symm.trans hlast
  exact ⟨handle, got_of_call hl (l.reaches_started.trans hk) hcall⟩

theorem run_error (hl : l.InStep) (h : l.run p key arguments = (.error e, m)) :
    m.Unserved ∧ e.kind = .unavailable := by
  rw [run_eq] at h
  have hend := runFrom_error (l := l.started) hl (congrArg Prod.fst h)
  rwa [h] at hend

/-- An operation is a run of its procedure.  What it gives depends on the reply, and it closes no
connection and sends nothing after that. -/
theorem execute_cases (l : Linked) (key : Bytes) (op : Operation) :
    ∃ m, ((∃ e, l.run (callOf l.store.settings.retention op).1 key
          (callOf l.store.settings.retention op).2 = (.error e, m) ∧
          l.execute key op = (.error e, m)) ∨
        ∃ reply m', l.run (callOf l.store.settings.retention op).1 key
          (callOf l.store.settings.retention op).2 = (.ok reply, m) ∧
          m'.network = m.network ∧ m'.store.connection = m.store.connection ∧
          (l.execute key op = (answerOf op reply, m') ∨
            ∃ text, reply = .error text ∧ l.execute key op = (.error (refusal text), m'))) := by
  unfold execute
  dsimp only
  cases hrun : l.run (callOf l.store.settings.retention op).1 key
    (callOf l.store.settings.retention op).2 with
  | mk result m =>
    refine ⟨m, ?_⟩
    cases result with
    | error e => exact .inl ⟨e, rfl, rfl⟩
    | ok reply =>
      cases reply with
      | error text =>
        refine .inr ⟨_, _, rfl, ?_, ?_, .inr ⟨text, rfl, rfl⟩⟩ <;> split <;> rfl
      | simple _ | integer _ | bulk _ | null | array _ =>
        exact .inr ⟨_, m, rfl, rfl, rfl, .inl rfl⟩

/-- What an operation leads to: an answer that the reply to its last request says, or an error, with
a reply that says no answer or with none. -/
theorem execute_spec (hl : l.InStep) (key : Bytes) (op : Operation) :
    match l.execute key op with
    | (.ok answer, m) => ∃ handle reply,
        Got l m (request handle key (callOf l.store.settings.retention op).2) reply ∧
        Says op reply answer
    | (.error e, m) => e.kind ≠ .none ∧
        (m.Unserved ∨ ∃ handle reply,
          Got l m (request handle key (callOf l.store.settings.retention op).2) reply ∧
          ∀ answer, ¬ Says op reply answer) := by
  obtain ⟨m, ⟨e, hrun, heq⟩ | ⟨reply, m', hrun, hnetwork, hconnection, hend⟩⟩ :=
    execute_cases l key op
  · rw [heq]
    obtain ⟨hunserved, hkind⟩ := run_error hl hrun
    exact ⟨by rw [hkind]; decide, .inl hunserved⟩
  · obtain ⟨handle, hgot⟩ := run_ok hl hrun
    replace hgot :
        Got l m' (request handle key (callOf l.store.settings.retention op).2) reply := by
      obtain ⟨hpaired, hsent⟩ := hgot
      rw [← hnetwork, ← hconnection] at hpaired
      rw [← hnetwork] at hsent
      exact ⟨hpaired, hsent⟩
    rcases hend with heq | ⟨text, rfl, heq⟩
    · rw [heq]
      have hanswer := answerOf_spec op reply
      cases hresult : answerOf op reply with
      | ok answer =>
        rw [hresult] at hanswer
        exact ⟨handle, reply, hgot, hanswer⟩
      | error e =>
        rw [hresult] at hanswer
        exact ⟨hanswer.1, .inr ⟨handle, reply, hgot, hanswer.2⟩⟩
    · rw [heq]
      exact ⟨refusal_kind text, .inr ⟨handle, .error text, hgot, not_says_error op text⟩⟩

/-! ### Lost requests -/

/-- No connection was closed since `l` on which a call of a procedure was lost. -/
def LosesNoCall (l m : Linked) : Prop :=
  ∃ new, m.network.traffic.broken = new ++ l.network.traffic.broken ∧
    ∀ s ∈ new, ∀ request, s.Lost request → IsLoad request

namespace LosesNoCall

theorem of_broken (h : m.network.traffic.broken = l.network.traffic.broken) : LosesNoCall l m :=
  ⟨[], h, by simp⟩

theorem trans {k : Linked} (h : LosesNoCall l m) (g : LosesNoCall m k) : LosesNoCall l k := by
  obtain ⟨new, hnew, hloads⟩ := h
  obtain ⟨more, hmore, hloads'⟩ := g
  refine ⟨more ++ new, by rw [hmore, hnew, List.append_assoc], ?_⟩
  intro s hs
  rcases List.mem_append.1 hs with hs | hs
  · exact hloads' s hs
  · exact hloads s hs

end LosesNoCall

/-- Of a call whose failure is not told as possibly harmful, nothing is lost but the text of a
procedure. -/
theorem losesNoCall_call {request : List Bytes} (hl : l.InStep)
    (h : IsLoad request ∨ ∀ failure, (l.call request).1 = .error failure →
      failure.mayHaveArrived = false) :
    LosesNoCall l (l.call request).2 := by
  rcases hl with hshut | ⟨requests, replies, hpaired⟩
  · rw [call_of_shut hshut]
    exact .of_broken rfl
  · have hspec := Connection.call_of_paired hpaired request
    simp only [call] at h ⊢
    split at hspec
    · next heq =>
      rw [heq]
      exact .of_broken hspec.broken
    · next failure c n heq =>
      rw [heq] at h ⊢
      obtain ⟨s, hs, -, hbroken⟩ := hspec.broken
      refine ⟨[s], hbroken, ?_⟩
      intro t ht lost hlost
      obtain rfl := List.mem_singleton.1 ht
      obtain rfl := hs.eq_of_lost hlost
      rcases h with hload | hharmless
      · exact hload
      · have hnever := hharmless failure rfl
        rw [hspec.mayHaveArrived] at hnever
        cases hnever

theorem losesNoCall_of_reaches (hl : l.InStep) (h : Reaches IsLoad l m) : LosesNoCall l m := by
  induction h with
  | refl => exact .of_broken rfl
  | keep before settings connection network ih => exact ih.trans (.of_broken (by rw [network]))
  | connect before shut ih =>
    rcases before.inStep hl with hshut | ⟨requests, replies, hpaired⟩
    · exact ih.trans (.of_broken (Connection.connect_of_shut hshut _).broken)
    · rw [hpaired.isOpen_eq] at shut
      cases shut
  | call before allowed ih => exact ih.trans (losesNoCall_call (before.inStep hl) (.inl allowed))

/-- Calling a procedure loses no call unless it is reported that the remote store may have run
it. -/
theorem losesNoCall_callOnce (hl : l.InStep)
    (h : ∀ cause, (l.callOnce p key arguments).1 = .error cause → cause.mayHaveRun = false) :
    LosesNoCall l (l.callOnce p key arguments).2 := by
  have hready := losesNoCall_of_reaches hl l.reaches_ready
  rcases callOnce_spec l p key arguments with ⟨cause, -, heq⟩ | ⟨handle, heq⟩
  · rw [heq]
    exact hready
  · rw [heq] at h ⊢
    refine hready.trans (losesNoCall_call (l.reaches_ready.inStep hl) (.inr ?_))
    intro failure hcall
    exact h (.callFailed failure) (by rw [hcall]; rfl)

theorem losesNoCall_attempt {reloaded : Bool} (hl : l.InStep)
    (h : ∀ cause, (l.attempt reloaded p key arguments).1 = .error cause →
      cause.mayHaveRun = false) :
    LosesNoCall l (l.attempt reloaded p key arguments).2.2 := by
  obtain ⟨k, hk, hresult, hlast⟩ := attempt_spec l reloaded p key arguments
  rw [hresult] at h
  rw [hlast]
  rcases hk with rfl | ⟨⟨reply, hreply⟩, rfl⟩
  · exact losesNoCall_callOnce hl h
  · -- The first call got a reply, so it lost nothing.
    have hfirst : LosesNoCall l (l.callOnce p key arguments).2 :=
      losesNoCall_callOnce hl (by rw [hreply]; simp)
    have hstep := (reaches_callOnce l p key arguments).inStep hl
    exact hfirst.trans (losesNoCall_callOnce (inStep_of_network hstep rfl rfl) h)

/-- As long as it is not reported that the remote store may have run the procedure, no attempt lost
a call of it. -/
theorem Retried.losesNoCall {unsure unsure' : Bool} (hl : l.InStep)
    (h : Retried p key arguments l unsure m unsure') (hsure : unsure' = false) :
    LosesNoCall l m ∧ unsure = false := by
  induction h with
  | none l unsure => exact ⟨.of_broken rfl, hsure⟩
  | @again l m k reloaded _ unsure _ cause failed rest ih =>
    have hattempt := (reaches_attempt l reloaded p key arguments).inStep hl
    rw [failed] at hattempt
    obtain ⟨hrest, hboth⟩ := ih ((reaches_beforeRetry (Q := IsLoad) cause).inStep hattempt) hsure
    rw [Bool.or_eq_false_iff] at hboth
    have hfirst : LosesNoCall l (l.attempt reloaded p key arguments).2.2 :=
      losesNoCall_attempt hl (by rw [failed]; rintro _ ⟨⟩; exact hboth.2)
    rw [failed] at hfirst
    have hcount := losesNoCall_of_reaches hattempt (reaches_beforeRetry cause)
    exact ⟨(hfirst.trans hcount).trans hrest, hboth.1⟩

/-- The message says that the outcome is unknown. -/
def SaysUnknown (e : StoreError) : Prop :=
  Bytes.ofString "outcome unknown" <:+: e.message

theorem givenUp_saysUnknown (target : RemoteSettings) (cause : Cause) :
    SaysUnknown (givenUp target cause true) := by
  have hwarning : Bytes.ofString "outcome unknown" <:+:
      Bytes.ofString " (outcome unknown, re-read the key)" :=
    ⟨Bytes.ofString " (", Bytes.ofString ", re-read the key)", by decide⟩
  exact hwarning.trans (List.suffix_append ..).isInfix

theorem run_error_of_lost (hl : l.InStep) (h : l.run p key arguments = (.error e, m)) :
    LosesNoCall l m ∨ SaysUnknown e := by
  obtain ⟨k, unsure, reloaded, hk, ⟨reply, r, n, hattempt, heq⟩ | ⟨cause, r, n, hattempt, heq⟩⟩ :=
    runFrom_spec l.store.settings.maxRetries false false l.started p key arguments
  · rw [run_eq, heq] at h
    cases h
  · rw [run_eq, heq] at h
    cases h
    cases hunsure : unsure || cause.mayHaveRun with
    | true => exact .inr (givenUp_saysUnknown ..)
    | false =>
      rw [Bool.or_eq_false_iff] at hunsure
      have hbefore := (hk.losesNoCall (l := l.started) hl hunsure.1).1
      have hlast : LosesNoCall k (k.attempt reloaded p key arguments).2.2 :=
        losesNoCall_attempt (hk.reaches.inStep hl)
          (by rw [hattempt]; rintro _ ⟨⟩; exact hunsure.2)
      rw [hattempt] at hlast
      have hcount : LosesNoCall n (n.countCause cause) := .of_broken (by rw [countCause_network])
      exact .inl ((hbefore.trans hlast).trans hcount)

/-- A call of a procedure was lost: since `l` a connection was closed, the last request on it was
the call, which was sent in full, and its reply was not complete. -/
def LosesCall (l m : Linked) (key : Bytes) (arguments : List Bytes) : Prop :=
  ∃ new, m.network.traffic.broken = new ++ l.network.traffic.broken ∧
    ∃ s ∈ new, ∃ handle, s.Lost (request handle key arguments)

theorem LosesNoCall.not_losesCall (h : LosesNoCall l m) : ¬ LosesCall l m key arguments := by
  obtain ⟨new, hnew, hloads⟩ := h
  rintro ⟨new', hnew', s, hs, handle, hlost⟩
  rw [hnew] at hnew'
  obtain rfl := List.append_cancel_right hnew'
  exact not_isLoad_request handle key arguments (hloads s hs _ hlost)

/-- **What is said of a lost request.**  When an operation fails and one of its requests was sent in
full on a connection that was closed before the reply, the message says that the outcome is unknown,
unless a later attempt got a reply, which is a refusal or of the wrong kind. -/
theorem execute_tells_of_lost (settings : RemoteSettings) (n : Network) (uses : List Use)
    (key : Bytes) (op : Operation)
    (h : ((fresh settings n).after uses).execute key op = (.error e, m))
    (hlost : LosesCall ((fresh settings n).after uses) m key (callOf settings.retention op).2) :
    SaysUnknown e ∨ ∃ handle reply,
      Got ((fresh settings n).after uses) m
        (request handle key (callOf settings.retention op).2) reply ∧
      ∀ answer, ¬ Says op reply answer := by
  obtain ⟨hl, hsettings⟩ := inStep_after (inStep_fresh settings n) uses
  have hspec := execute_spec hl key op
  rw [h, hsettings] at hspec
  generalize (fresh settings n).after uses = l at *
  rcases hspec.2 with hunserved | hgot
  · obtain ⟨k, ⟨e', hrun, heq⟩ | ⟨reply, k', hrun, hnetwork, hconnection, hend⟩⟩ :=
      execute_cases l key op
    · obtain ⟨⟨rfl⟩, rfl⟩ := Prod.mk.inj (h.symm.trans heq)
      rcases run_error_of_lost hl hrun with hnone | hsays
      · exact absurd hlost hnone.not_losesCall
      · exact .inl hsays
    · -- With a reply the last request was one that calls the procedure.
      have hsame : m = k' := by
        rcases hend with heq | ⟨text, -, heq⟩ <;> exact congrArg Prod.snd (h.symm.trans heq)
      subst hsame
      obtain ⟨handle, hgot⟩ := run_ok hl hrun
      exact absurd hgot (not_got_of_unserved (hunserved.congr hconnection.symm hnetwork.symm))
  · exact .inr hgot

/-! ### A refusal after a lost request -/

namespace LosesCall

variable {k : Linked}

theorem later (h : LosesCall l m key arguments)
    (hevents : m.network.events <:+ k.network.events) : LosesCall l k key arguments := by
  obtain ⟨new, hnew, s, hs, hlost⟩ := h
  obtain ⟨more, hmore⟩ := Network.broken_isSuffix hevents
  exact ⟨more ++ new, by rw [← hmore, hnew, List.append_assoc], s, List.mem_append_right _ hs,
    hlost⟩

theorem earlier (h : LosesCall m k key arguments)
    (hevents : l.network.events <:+ m.network.events) : LosesCall l k key arguments := by
  obtain ⟨new, hnew, s, hs, hlost⟩ := h
  obtain ⟨before, hbefore⟩ := Network.broken_isSuffix hevents
  exact ⟨new ++ before, by rw [hnew, ← hbefore, List.append_assoc], s, List.mem_append_left _ hs,
    hlost⟩

end LosesCall

theorem losesCall_call {failure : Connection.Failure} {handle : Bytes} (hl : l.InStep)
    (h : (l.call (request handle key arguments)).1 = .error failure)
    (hafter : failure.isAfterSending = true) :
    LosesCall l (l.call (request handle key arguments)).2 key arguments := by
  rcases hl with hshut | ⟨requests, replies, hpaired⟩
  · rw [call_of_shut hshut] at h
    cases h
    cases hafter
  · have hspec := Connection.call_of_paired hpaired (request handle key arguments)
    simp only [call] at h ⊢
    split at hspec
    · next heq =>
      rw [heq] at h
      cases h
    · next heq =>
      rw [heq] at h ⊢
      cases h
      obtain ⟨s, -, hlost, hbroken⟩ := hspec.broken
      exact ⟨[s], hbroken, s, List.mem_singleton_self s, handle, hlost hafter⟩

/-- The store gets ready, and the call of the procedure fails after it was sent. -/
def FirstCallFails (l : Linked) (p : Procedure) (key : Bytes) (arguments : List Bytes) : Bool :=
  match l.ready with
  | (.error _, _) => false
  | (.ok handles, l) =>
    match (l.call (request (handles.of p) key arguments)).1 with
    | .error failure => failure.isAfterSending
    | .ok _ => false

theorem losesCall_callOnce (hl : l.InStep) (h : l.FirstCallFails p key arguments = true) :
    ∃ failure m, l.callOnce p key arguments = (.error (.callFailed failure), m) ∧ m.InStep ∧
      LosesCall l m key arguments := by
  have hready := l.reaches_ready
  unfold FirstCallFails at h
  split at h
  · cases h
  · next handles m heq =>
    rw [heq] at hready
    have hm := hready.inStep hl
    cases hcall : (m.call (request (handles.of p) key arguments)).1 with
    | ok reply => simp [hcall] at h
    | error failure =>
      rw [hcall] at h
      refine ⟨failure, _, ?_, inStep_call hm _,
        (losesCall_call hm hcall h).earlier (hready.events_isSuffix hl)⟩
      simp [callOnce, heq, hcall, Except.mapError]

/-- When the first call of a run fails after it was sent, it is lost, whatever comes of later
attempts. -/
theorem losesCall_runFrom {retries : Nat} {reloaded unsure : Bool} (hl : l.InStep)
    (h : l.FirstCallFails p key arguments = true) :
    LosesCall l (l.runFrom retries reloaded unsure p key arguments).2 key arguments := by
  obtain ⟨failure, m, hcall, hm, hlost⟩ := losesCall_callOnce hl h
  have hattempt : l.attempt reloaded p key arguments =
      (.error (.callFailed failure), reloaded, m) := by
    simp [attempt, hcall, isUnknownHandle]
  cases retries with
  | zero =>
    rw [runFrom, hattempt]
    exact hlost.later (by simp)
  | succ retries =>
    rw [runFrom, hattempt]
    have hrest := (reaches_beforeRetry (l := m) (.callFailed failure)).trans
      (reaches_runFrom retries reloaded (unsure || failure.mayHaveArrived) _ p key arguments)
    exact hlost.later (hrest.events_isSuffix hm)

theorem losesCall_execute (hl : l.InStep) (key : Bytes) (op : Operation)
    (h : l.started.FirstCallFails (callOf l.store.settings.retention op).1 key
      (callOf l.store.settings.retention op).2 = true) :
    LosesCall l (l.execute key op).2 key (callOf l.store.settings.retention op).2 := by
  have hlost : LosesCall l (l.run (callOf l.store.settings.retention op).1 key
      (callOf l.store.settings.retention op).2).2 key (callOf l.store.settings.retention op).2 :=
    losesCall_runFrom (l := l.started) hl h
  obtain ⟨m, ⟨e, hrun, heq⟩ | ⟨reply, m', hrun, hnetwork, -, hend⟩⟩ := execute_cases l key op
  · rw [hrun] at hlost
    rwa [heq]
  · rw [hrun] at hlost
    have hlast : (l.execute key op).2 = m' := by
      rcases hend with heq | ⟨text, -, heq⟩ <;> rw [heq]
    exact hlost.later (by simp [hlast, hnetwork])

/-- A connection that opens at once.  It receives the handles `h0` to `h3`, and then one thing
more. -/
def handlesThen (receipt : Receipt) : Attempt :=
  .opens false
    ⟨[], [.data (Bytes.ofString "$2\r\nh0\r\n$2\r\nh1\r\n$2\r\nh2\r\n$2\r\nh3\r\n"), receipt]⟩

/-- A network with one address, on which connections can be made. -/
def networkOf (attempts : List Attempt) : Network := ⟨⟨0⟩, .ok 1, attempts, [], none⟩

/-- The only attempt ends after the request was sent, and the message warns. -/
theorem execute_tells_of_lost_once :
    let l := fresh { maxRetries := 0 } (networkOf [handlesThen .ended])
    let result := l.execute (Bytes.ofString "k") (.invalidate ⟨1, 0⟩)
    let e := givenUp { maxRetries := 0 } (.callFailed .closedByPeer) true
    result.1 = .error e ∧ SaysUnknown e := by
  intro l result e
  have herror : result.1 = .error e := by decide +kernel
  refine ⟨herror, ?_⟩
  have hfails : l.started.FirstCallFails .invalidate (Bytes.ofString "k")
      [Bytes.ofString "1", Bytes.ofString "0", Bytes.ofString "120000"] = true := by
    decide +kernel
  have hlost := losesCall_execute (inStep_fresh _ _) _ (.invalidate ⟨1, 0⟩) hfails
  have hclosed : result.2.store.connection.isOpen = false := by decide +kernel
  have hresult : result = (.error e, result.2) := by
    rw [← herror]
  rcases execute_tells_of_lost { maxRetries := 0 } (networkOf [handlesThen .ended]) []
    (Bytes.ofString "k") (.invalidate ⟨1, 0⟩) hresult hlost with hsays | ⟨handle, reply, hgot, -⟩
  · exact hsays
  · exact absurd hgot (not_got_of_unserved (.inl hclosed))

/-- **A lost request of which nothing is said.**  The first attempt ends after the request was sent
in full, the second is refused, and the message tells of the refusal alone. -/
theorem execute_silent_on_lost :
    let l := fresh {} (networkOf
      [handlesThen .ended, handlesThen (.data (Bytes.ofString "-ERR busy\r\n"))])
    let result := l.execute (Bytes.ofString "k") (.set (Bytes.ofString "v") ⟨1, 0⟩)
    let e : StoreError := ⟨.unavailable, Bytes.ofString "redis: ERR busy"⟩
    result.1 = .error e ∧ ¬ SaysUnknown e ∧
      LosesCall l result.2 (Bytes.ofString "k")
        [Bytes.ofString "v", Bytes.ofString "1", Bytes.ofString "0"] := by
  intro l result e
  have herror : result.1 = .error e := by decide +kernel
  have hsilent : ¬ SaysUnknown e := by
    unfold SaysUnknown
    decide +kernel
  have hfails : l.started.FirstCallFails .set (Bytes.ofString "k")
      [Bytes.ofString "v", Bytes.ofString "1", Bytes.ofString "0"] = true := by decide +kernel
  exact ⟨herror, hsilent,
    losesCall_execute (inStep_fresh _ _) _ (.set (Bytes.ofString "v") ⟨1, 0⟩) hfails⟩

end Linked

end RemoteStore

end CoherentCache
