import CoherentCache.Proofs.Remote.Outcome

/-!
# Which handle a procedure is called by

A handle is good on the connection on which the remote store gave it, and only until the procedures
are sent again.  A store keeps its handles over many calls, during which connections break and are
made anew, and sending the procedures may fail half way.  Still a procedure is only ever called by
the handle that came back for it when all procedures were last sent on the connection in use.

* `RemoteStore.Handles.Latest` : the handles are those of the last time that all procedures were
  sent.
* `RemoteStore.Linked.Equipped` : the handles that are kept are so, if a connection is open.
* `RemoteStore.Linked.Leads` : steps that keep the store equipped, and only send what is allowed.
* `RemoteStore.Linked.use_proceeds` : **after any uses of a store, the next one calls procedures by
  such handles only.**
-/

namespace CoherentCache

namespace RemoteStore

/-- All procedures, in the order in which they are sent. -/
def procedures : List Procedure := [.set, .invalidate, .get, .inspect]

/-- The handles that a store keeps, one for each procedure, or none at all. -/
def handleTexts (r : RemoteStore) : List Bytes :=
  match r.handles with
  | none => []
  | some handles => procedures.map handles.of

theorem handleTexts_length (r : RemoteStore) : r.handleTexts = [] ∨ r.handleTexts.length = 4 := by
  unfold handleTexts
  split
  · exact .inl rfl
  · exact .inr rfl

/-- A procedure has its handle at its place among those that are kept. -/
theorem handleTexts_idxOf {r : RemoteStore} {handles : Handles} (h : r.handles = some handles)
    (p : Procedure) : r.handleTexts[procedures.idxOf p]? = some (handles.of p) := by
  rw [handleTexts, h]
  cases p <;> rfl

namespace Handles

/-- The texts of all procedures were sent, and these handles came back. -/
def round (handles : Handles) : List (List Bytes × Reply) :=
  procedures.map fun p => (loadRequest p, .bulk (handles.of p))

/-- Among the requests and their replies, the last ones that sent a procedure sent all of them, and
these handles came back. -/
def Latest (handles : Handles) (exchanges : List (List Bytes × Reply)) : Prop :=
  ∃ before after, exchanges = before ++ handles.round ++ after ∧ ∀ e ∈ after, ¬ IsLoad e.1

variable {handles : Handles} {exchanges : List (List Bytes × Reply)}

theorem latest_round (before : List (List Bytes × Reply)) :
    handles.Latest (before ++ handles.round) :=
  ⟨before, [], (List.append_nil _).symm, by simp⟩

/-- Other requests leave the handles as they are. -/
theorem Latest.concat (h : handles.Latest exchanges) {request : List Bytes}
    (hrequest : ¬ IsLoad request) (reply : Reply) :
    handles.Latest (exchanges ++ [(request, reply)]) := by
  obtain ⟨before, after, rfl, hafter⟩ := h
  refine ⟨before, after ++ [(request, reply)], List.append_assoc .., ?_⟩
  intro e he
  rcases List.mem_append.1 he with he | he
  · exact hafter e he
  · rw [List.mem_singleton.1 he]
    exact hrequest

end Handles

namespace Linked

variable {l m k : Linked} {handles : Handles} {request : List Bytes}

/-! ### Handles that are kept -/

/-- The connection is open, and the handles are those that came back when all procedures were last
sent on it. -/
def Loaded (l : Linked) (handles : Handles) : Prop :=
  ∃ requests replies, l.store.connection.Paired l.network requests replies ∧
    handles.Latest (requests.zip replies)

/-- The connection is in step, and if it is open, then the handles that are kept were loaded on
it. -/
structure Equipped (l : Linked) : Prop where
  /-- The connection is in step. -/
  inStep : l.InStep
  /-- The handles were loaded on the connection. -/
  loaded : ∀ handles, l.store.handles = some handles → l.store.connection.isOpen = true →
    l.Loaded handles

theorem Loaded.congr (h : l.Loaded handles)
    (hconnection : m.store.connection = l.store.connection)
    (hevents : m.network.events = l.network.events) : m.Loaded handles := by
  obtain ⟨requests, replies, hpaired, hlatest⟩ := h
  exact ⟨requests, replies, paired_of_network hpaired hconnection hevents, hlatest⟩

theorem not_isLoad_ping : ¬ IsLoad [Bytes.ofString "PING"] := by
  rintro ⟨p, hp⟩
  have hhead : Bytes.ofString "PING" = Bytes.ofString "SCRIPT" := (List.cons.inj hp).1
  exact absurd hhead (by decide)

@[simp] theorem handles_call (l : Linked) (request : List Bytes) :
    (l.call request).2.store.handles = l.store.handles := rfl

@[simp] theorem handles_load (l : Linked) (p : Procedure) :
    (l.load p).2.store.handles = l.store.handles := by rw [load_snd, handles_call]

/-- A call that gets a reply adds to the requests and the replies. -/
theorem call_paired {requests : List (List Bytes)} {replies : List Reply} {reply : Reply}
    (h : l.store.connection.Paired l.network requests replies)
    (hcall : l.call request = (.ok reply, m)) :
    m.store.connection.Paired m.network (requests ++ [request]) (replies ++ [reply]) := by
  have hspec := Connection.call_of_paired h request
  unfold call at hcall
  generalize l.store.connection.call l.network request = result at hspec hcall
  obtain ⟨found, c, n⟩ := result
  cases hcall
  exact hspec.paired

theorem call_loaded (h : l.Loaded handles) (hrequest : ¬ IsLoad request)
    (hopen : (l.call request).2.store.connection.isOpen = true) :
    (l.call request).2.Loaded handles := by
  obtain ⟨requests, replies, hpaired, hlatest⟩ := h
  cases hcall : l.call request with
  | mk result m =>
    cases result with
    | error failure =>
      have hclosed := isOpen_call_error (.inr ⟨_, _, hpaired⟩) (congrArg Prod.fst hcall)
      rw [hopen] at hclosed
      cases hclosed
    | ok reply =>
      refine ⟨_, _, call_paired hpaired hcall, ?_⟩
      rw [List.zip_append hpaired.length_eq.symm]
      exact hlatest.concat hrequest reply

namespace Equipped

/-- A request that sends no procedure keeps the handles good, or the connection breaks. -/
theorem call (h : l.Equipped) (hrequest : ¬ IsLoad request) : (l.call request).2.Equipped where
  inStep := inStep_call h.inStep request
  loaded handles hhandles hopen := by
    have hbefore : l.store.connection.isOpen = true := by
      rcases h.inStep with hshut | ⟨_, _, hpaired⟩
      · rw [call_of_shut hshut] at hopen
        exact hopen
      · exact hpaired.isOpen_eq
    exact call_loaded (h.loaded handles hhandles hbefore) hrequest hopen

theorem of_none (h : l.InStep) (hhandles : l.store.handles = none) : l.Equipped where
  inStep := h
  loaded handles hl := by
    rw [hhandles] at hl
    cases hl

theorem of_closed (h : l.InStep) (hclosed : l.store.connection.isOpen = false) : l.Equipped where
  inStep := h
  loaded handles _ hopen := by
    rw [hclosed] at hopen
    cases hopen

/-- Handles that are kept stay good, and it does no harm to forget them. -/
theorem keep (h : l.Equipped) (hconnection : m.store.connection = l.store.connection)
    (hevents : m.network.events = l.network.events)
    (hhandles : m.store.handles = l.store.handles ∨ m.store.handles = none) : m.Equipped := by
  have hstep := inStep_of_network h.inStep hconnection hevents
  rcases hhandles with hsame | hnone
  · refine ⟨hstep, ?_⟩
    intro handles hm hopen
    rw [hsame] at hm
    rw [hconnection] at hopen
    exact (h.loaded handles hm hopen).congr hconnection hevents
  · exact .of_none hstep hnone

end Equipped

/-! ### Getting ready -/

theorem connect_equipped (h : l.Equipped) :
    l.connect.2.Equipped ∧
      (l.connect.1 = .ok () → l.connect.2.store.connection.isOpen = true) := by
  have hstep := (reaches_connect (Q := fun _ => True) l).inStep h.inStep
  unfold connect at hstep ⊢
  split
  · next hopen => exact ⟨h, fun _ => hopen⟩
  · next hclosed =>
    rw [if_neg hclosed] at hstep
    dsimp only at hstep ⊢
    split
    · next hopen =>
      -- A new connection: all that was kept is forgotten.
      rw [if_pos hopen] at hstep
      exact ⟨.of_none hstep rfl, fun _ => hopen⟩
    · next hfailed =>
      rw [if_neg hfailed] at hstep
      exact ⟨.of_closed hstep (by simpa using hfailed), by rintro ⟨⟩⟩

theorem load_ok {p : Procedure} {handle : Bytes} (h : l.load p = (.ok handle, m)) :
    l.call (loadRequest p) = (.ok (.bulk handle), m) := by
  unfold load at h
  unfold loadRequest
  split at h
  · cases h
  · next heq =>
    cases h
    exact heq
  · cases h

/-- When all texts were sent, each of them was answered with a handle. -/
theorem loadAll_ok (h : l.loadAll = (.ok handles, m)) :
    ∃ l₁ l₂ l₃, l.load .set = (.ok handles.set, l₁) ∧
      l₁.load .invalidate = (.ok handles.invalidate, l₂) ∧
      l₂.load .get = (.ok handles.get, l₃) ∧ l₃.load .inspect = (.ok handles.inspect, m) := by
  unfold loadAll at h
  split at h
  · cases h
  · next l₁ hset =>
    split at h
    · cases h
    · next l₂ hinvalidate =>
      split at h
      · cases h
      · next l₃ hget =>
        split at h
        · cases h
        · next hinspect =>
          cases h
          exact ⟨l₁, l₂, l₃, hset, hinvalidate, hget, hinspect⟩

/-- **Sending all texts loads the handles.** -/
theorem loadAll_loaded (hl : l.InStep) (h : l.loadAll = (.ok handles, m)) : m.Loaded handles := by
  obtain ⟨l₁, l₂, l₃, hset, hinvalidate, hget, hinspect⟩ := loadAll_ok h
  rcases hl with hshut | ⟨requests, replies, hpaired⟩
  · have hcall := load_ok hset
    rw [call_of_shut hshut] at hcall
    cases hcall
  · have hset := call_paired hpaired (load_ok hset)
    have hinvalidate := call_paired hset (load_ok hinvalidate)
    have hget := call_paired hinvalidate (load_ok hget)
    have hinspect := call_paired hget (load_ok hinspect)
    refine ⟨_, _, hinspect, ?_⟩
    simp only [List.append_assoc]
    rw [List.zip_append hpaired.length_eq.symm]
    exact Handles.latest_round _

theorem handles_loadAll (l : Linked) : l.loadAll.2.store.handles = l.store.handles := by
  have hload {l m : Linked} {p : Procedure} {result : Except Cause Bytes}
      (h : l.load p = (result, m)) : m.store.handles = l.store.handles := by
    rw [← handles_load l p, h]
  unfold loadAll
  split
  · next heq => exact hload heq
  · next hset =>
    split
    · next heq => exact (hload heq).trans (hload hset)
    · next hinvalidate =>
      have htwo := (hload hinvalidate).trans (hload hset)
      split
      · next heq => exact (hload heq).trans htwo
      · next hget =>
        split <;> next heq => exact (hload heq).trans ((hload hget).trans htwo)

/-- The handles that are given are kept, and they were loaded on the connection. -/
theorem handles_equipped (h : l.Equipped) (hopen : l.store.connection.isOpen = true) :
    l.handles.2.Equipped ∧ ∀ handles, l.handles.1 = .ok handles →
      l.handles.2.store.handles = some handles ∧ l.handles.2.Loaded handles := by
  unfold Linked.handles
  split
  · next kept hkept =>
    refine ⟨h, ?_⟩
    rintro _ ⟨⟩
    exact ⟨hkept, h.loaded kept hkept hopen⟩
  · next hnone =>
    have hstep := (endsWithLoad_loadAll l).reaches.inStep h.inStep
    have hkept := handles_loadAll l
    split
    · next cause m heq =>
      rw [heq] at hstep hkept
      exact ⟨.of_none hstep (hkept.trans hnone), by rintro _ ⟨⟩⟩
    · next handles m heq =>
      rw [heq] at hstep
      have hloaded := loadAll_loaded h.inStep heq
      refine ⟨⟨inStep_of_network hstep rfl rfl, ?_⟩, ?_⟩
      · rintro _ ⟨⟩ -
        exact hloaded.congr rfl rfl
      · rintro _ ⟨⟩
        exact ⟨rfl, hloaded.congr rfl rfl⟩

/-- **A store that is ready has handles that were loaded on its connection.** -/
theorem ready_equipped (h : l.Equipped) :
    l.ready.2.Equipped ∧ ∀ handles, l.ready.1 = .ok handles →
      l.ready.2.store.handles = some handles ∧ l.ready.2.Loaded handles := by
  obtain ⟨hequipped, hopen⟩ := connect_equipped h
  unfold ready
  split
  · next heq =>
    rw [heq] at hequipped
    exact ⟨hequipped, by rintro _ ⟨⟩⟩
  · next m heq =>
    rw [heq] at hequipped hopen
    exact handles_equipped hequipped (hopen rfl)

/-! ### Steps -/

/-- Nothing was sent on the way from one to the other. -/
def SendsNothing (l m : Linked) : Prop :=
  ∃ new, m.network.events = new ++ l.network.events ∧ Network.bytesSent new = []

theorem sendsNothing_of_network (h : m.network.events = l.network.events) : l.SendsNothing m :=
  ⟨[], h, rfl⟩

/-- The store came to this point by sending requests, each of which was allowed when it was sent.
The log of the network holds all that was sent on the way, so it is these requests and nothing
else. -/
inductive Proceeds (Q : Linked → List Bytes → Prop) (l : Linked) : Linked → Prop where
  /-- Nothing was done. -/
  | refl : Proceeds Q l l
  /-- Something was done, but nothing was sent. -/
  | silent {m m' : Linked} (before : Proceeds Q l m) (quiet : m.SendsNothing m') : Proceeds Q l m'
  /-- A request was sent. -/
  | call {m : Linked} {request : List Bytes} (before : Proceeds Q l m) (allowed : Q m request) :
      Proceeds Q l (m.call request).2

namespace Proceeds

variable {Q Q' : Linked → List Bytes → Prop}

theorem trans (h : Proceeds Q l m) (g : Proceeds Q m k) : Proceeds Q l k := by
  induction g with
  | refl => exact h
  | silent _ quiet ih => exact ih.silent quiet
  | call _ allowed ih => exact ih.call allowed

end Proceeds

/-- Steps that send certain requests only, whatever comes of them. -/
theorem Reaches.proceeds {P : List Bytes → Prop} {Q : Linked → List Bytes → Prop} (hl : l.InStep)
    (h : Reaches P l m) (hQ : ∀ m request, P request → Q m request) : Proceeds Q l m := by
  induction h with
  | refl => exact .refl
  | keep _ settings connection network ih =>
    exact ih.silent (sendsNothing_of_network (by rw [network]))
  | connect before shut ih =>
    rcases before.inStep hl with hshut | ⟨requests, replies, hpaired⟩
    · exact ih.silent (Connection.connect_of_shut hshut _).sent
    · rw [hpaired.isOpen_eq] at shut
      cases shut
  | call _ allowed ih => exact ih.call (hQ _ _ allowed)

/-- From an equipped store the requests on the way are allowed, and in the end it is equipped
again. -/
def Leads (Q : Linked → List Bytes → Prop) (l m : Linked) : Prop :=
  l.Equipped → Proceeds Q l m ∧ m.Equipped

section
variable {Q : Linked → List Bytes → Prop}

theorem Leads.trans (h : Leads Q l m) (g : Leads Q m k) : Leads Q l k := by
  intro hl
  obtain ⟨hfirst, hm⟩ := h hl
  obtain ⟨hsecond, hk⟩ := g hm
  exact ⟨hfirst.trans hsecond, hk⟩

theorem leads_keep (hconnection : m.store.connection = l.store.connection)
    (hevents : m.network.events = l.network.events)
    (hhandles : m.store.handles = l.store.handles ∨ m.store.handles = none) : Leads Q l m :=
  fun hl => ⟨.silent .refl (sendsNothing_of_network hevents), hl.keep hconnection hevents hhandles⟩

theorem leads_count (f : Counters → Counters) : Leads Q l (l.count f) :=
  leads_keep rfl rfl (.inl rfl)

theorem countCause_handles (l : Linked) (cause : Cause) :
    (l.countCause cause).store.handles = l.store.handles := by
  unfold countCause
  split <;> rfl

theorem leads_countCause (cause : Cause) : Leads Q l (l.countCause cause) :=
  leads_keep (countCause_connection ..) (congrArg Network.events (countCause_network ..))
    (.inl (countCause_handles ..))

end

/-! ### Calls of procedures -/

/-- The request sends a procedure, or it calls the given one on the key, by the handle at the place
of the procedure among those that are kept.  That one came back for it when all procedures were last
sent on the connection. -/
def Calls (p : Procedure) (key : Bytes) (arguments : List Bytes) (l : Linked)
    (request : List Bytes) : Prop :=
  IsLoad request ∨ ∃ handles : Handles, l.Loaded handles ∧
    l.store.handleTexts[procedures.idxOf p]? = some (handles.of p) ∧
    request = Linked.request (handles.of p) key arguments

section
variable {p : Procedure} {key : Bytes} {arguments : List Bytes}

theorem leads_callOnce (l : Linked) (p : Procedure) (key : Bytes) (arguments : List Bytes) :
    Leads (Calls p key arguments) l (l.callOnce p key arguments).2 := by
  intro hl
  obtain ⟨hequipped, hhandles⟩ := ready_equipped hl
  have hready : Proceeds (Calls p key arguments) l l.ready.2 :=
    l.reaches_ready.proceeds hl.inStep fun _ _ => .inl
  unfold callOnce
  split
  · next cause m heq =>
    rw [heq] at hequipped hready
    exact ⟨hready, hequipped⟩
  · next handles m heq =>
    rw [heq] at hequipped hready hhandles
    obtain ⟨hkept, hloaded⟩ := hhandles handles rfl
    exact ⟨hready.call (.inr ⟨handles, hloaded, handleTexts_idxOf hkept p, rfl⟩),
      hequipped.call (not_isLoad_request _ _ _)⟩

theorem leads_attempt (l : Linked) (reloaded : Bool) (p : Procedure) (key : Bytes)
    (arguments : List Bytes) :
    Leads (Calls p key arguments) l (l.attempt reloaded p key arguments).2.2 := by
  obtain ⟨m, hm, -, hlast⟩ := attempt_spec l reloaded p key arguments
  rw [hlast]
  rcases hm with rfl | ⟨-, rfl⟩
  · exact leads_callOnce m p key arguments
  · have hfirst := leads_callOnce l p key arguments
    have hforget : Leads (Calls p key arguments) (l.callOnce p key arguments).2
        (l.callOnce p key arguments).2.forgetHandles := leads_keep rfl rfl (.inr rfl)
    exact (hfirst.trans hforget).trans (leads_callOnce _ p key arguments)

theorem Retried.leads {unsure unsure' : Bool} (h : Retried p key arguments l unsure m unsure') :
    Leads (Calls p key arguments) l m := by
  induction h with
  | none l unsure => exact fun hl => ⟨.refl, hl⟩
  | @again l m k reloaded _ _ _ cause failed rest ih =>
    have hattempt := leads_attempt l reloaded p key arguments
    rw [failed] at hattempt
    exact ((hattempt.trans (leads_countCause cause)).trans (leads_count _)).trans ih

theorem leads_run (l : Linked) (p : Procedure) (key : Bytes) (arguments : List Bytes) :
    Leads (Calls p key arguments) l (l.run p key arguments).2 := by
  obtain ⟨k, unsure', reloaded', hk, hend⟩ :=
    runFrom_spec l.store.settings.maxRetries false false l.started p key arguments
  have hbefore := (leads_count _).trans hk.leads
  have hattempt := hbefore.trans (leads_attempt k reloaded' p key arguments)
  rw [run_eq]
  rcases hend with ⟨reply, r, m, hlast, heq⟩ | ⟨cause, r, m, hlast, heq⟩
  · rw [hlast] at hattempt
    rwa [heq]
  · rw [hlast] at hattempt
    rw [heq]
    exact hattempt.trans (leads_countCause cause)

end

theorem leads_countCorrupt {Q : Linked → List Bytes → Prop} (l : Linked) :
    Leads Q l l.countCorrupt :=
  leads_count _

theorem leads_execute (l : Linked) (key : Bytes) (op : Operation) :
    Leads (Calls (callOf l.store.settings.retention op).1 key
      (callOf l.store.settings.retention op).2) l (l.execute key op).2 := by
  have hrun := leads_run l (callOf l.store.settings.retention op).1 key
    (callOf l.store.settings.retention op).2
  rcases l.execute_snd key op with h | h
  · rwa [h]
  · rw [h]
    exact hrun.trans (leads_countCorrupt _)

theorem leads_inspect (l : Linked) (key : Bytes) :
    Leads (Calls .inspect key []) l (l.inspect key).2 := by
  have hrun := leads_run l .inspect key []
  rcases l.inspect_snd key with h | h
  · rwa [h]
  · rw [h]
    exact hrun.trans (leads_countCorrupt _)

theorem leads_ping (l : Linked) :
    Leads (fun _ request => request = [Bytes.ofString "PING"]) l l.ping.2 := by
  intro hl
  have hconnect := (connect_equipped hl).1
  refine ⟨l.reaches_ping.proceeds hl.inStep fun _ _ => id, ?_⟩
  rcases l.ping_snd with h | h
  · rwa [h]
  · rw [h]
    exact hconnect.call not_isLoad_ping

/-! ### Uses of a store -/

/-- What is sent in a use of a store: an operation or a look at a record calls a procedure, and
asking for a sign of life is a request of its own.  Nothing else is sent. -/
def Use.Allows (retention : UInt64) : Use → Linked → List Bytes → Prop
  | .execute key op => Calls (callOf retention op).1 key (callOf retention op).2
  | .inspect key => Calls .inspect key []
  | .ping => fun _ request => request = [Bytes.ofString "PING"]
  | .close | .pause _ | .advance _ | .fail _ => fun _ _ => False

/-- **Each use of a store sends what is allowed**, and leaves the store equipped. -/
theorem leads_use (l : Linked) (use : Use) :
    Leads (use.Allows l.store.settings.retention) l (l.use use) := by
  cases use with
  | execute key op => exact leads_execute l key op
  | inspect key => exact leads_inspect l key
  | ping => exact leads_ping l
  | close =>
    intro hl
    refine ⟨.silent .refl ?_, .of_closed (inStep_use hl.inStep .close) rfl⟩
    simp only [use, close, Connection.close]
    split
    · exact ⟨[.close], rfl, rfl⟩
    · exact ⟨[], rfl, rfl⟩
  | pause micros | advance nanos | fail e => exact leads_keep rfl rfl (.inl rfl)

theorem equipped_after (h : l.Equipped) (uses : List Use) : (l.after uses).Equipped := by
  induction uses generalizing l with
  | nil => exact h
  | cons use uses ih => exact ih (leads_use l use h).2

/-- **A procedure is called by the handle that was loaded for it.**  A store has a handle for each
procedure or none at all, after any uses, on any network.  Whatever it is used for next, each
request that calls a procedure is sent on an open connection, and its handle is the one with which
the remote store answered when the text of the same procedure was sent on the same connection, in
the last round in which all texts were sent and answered so; no text was sent after that. -/
theorem use_proceeds (settings : RemoteSettings) (n : Network) (uses : List Use) (use : Use) :
    let l := (fresh settings n).after uses
    (l.store.handleTexts = [] ∨ l.store.handleTexts.length = 4) ∧
      Proceeds (use.Allows settings.retention) l (l.use use) := by
  intro l
  have hfresh : (fresh settings n).Equipped := .of_none (inStep_fresh settings n) rfl
  have hsettings : l.store.settings = settings := (inStep_after hfresh.inStep uses).2
  have huse := (leads_use l use (equipped_after hfresh uses)).1
  rw [hsettings] at huse
  exact ⟨handleTexts_length l.store, huse⟩

/-- The remote store has forgotten the procedures by the time that one is called, so they are sent
again, and the handles of the second time are kept. -/
example :
    let replies := "$2\r\nh0\r\n$2\r\nh1\r\n$2\r\nh2\r\n$2\r\nh3\r\n-NOSCRIPT\r\n" ++
      "$2\r\nk0\r\n$2\r\nk1\r\n$2\r\nk2\r\n$2\r\nk3\r\n:1\r\n"
    let l := fresh {} (networkOf [.opens false ⟨[], [.data (Bytes.ofString replies)]⟩])
    let m := l.use (.execute (Bytes.ofString "k") (.invalidate ⟨1, 0⟩))
    m.store.handleTexts = ["k0", "k1", "k2", "k3"].map Bytes.ofString := by decide +kernel

end Linked

end RemoteStore

end CoherentCache
