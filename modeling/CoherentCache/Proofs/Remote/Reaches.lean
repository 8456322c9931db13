import CoherentCache.Proofs.Remote.Call
import CoherentCache.Remote

/-!
# What a remote store does on its connection

Everything that a remote store does is made of three steps: it opens a connection when none is open,
it makes a call, and it keeps its own books.  What each step keeps, every run of the store keeps.

* `RemoteStore.Linked.Reaches` : one store comes from another by such steps.
* `RemoteStore.Linked.Reaches.inStep` : steps keep the connection in step.
* `RemoteStore.Linked.callOnce_spec` : calling a procedure once is sending the procedures, if need
  be, and then one call.
* `RemoteStore.Linked.attempt_spec`, `RemoteStore.Linked.runFrom_spec` : an attempt ends with one
  such call, and a run is some failed attempts and one more.
* `RemoteStore.Linked.reaches_execute`, `RemoteStore.Linked.reaches_inspect`,
  `RemoteStore.Linked.reaches_ping` : all uses of the store are made of steps.
-/

namespace CoherentCache

namespace RemoteStore

/-- The request that sends the text of a procedure. -/
def loadRequest (p : Procedure) : List Bytes :=
  [Bytes.ofString "SCRIPT", Bytes.ofString "LOAD", p.text]

/-- The request sends the text of a procedure. -/
def IsLoad (request : List Bytes) : Prop := ∃ p, request = loadRequest p

namespace Linked

/-- The request calls a procedure on the key. -/
def IsRequest (key : Bytes) (arguments request : List Bytes) : Prop :=
  ∃ handle, request = Linked.request handle key arguments

theorem not_isLoad_request (handle key : Bytes) (arguments : List Bytes) :
    ¬ IsLoad (request handle key arguments) := by
  rintro ⟨p, hp⟩
  have hhead : Bytes.ofString "EVALSHA" = Bytes.ofString "SCRIPT" := (List.cons.inj hp).1
  exact absurd hhead (by decide)

/-- The store came to this point by steps of its own, and all requests that it sent have the
property. -/
inductive Reaches (Q : List Bytes → Prop) (l : Linked) : Linked → Prop where
  /-- Nothing was done. -/
  | refl : Reaches Q l l
  /-- The store kept its books. -/
  | keep {m m' : Linked} (before : Reaches Q l m)
      (settings : m'.store.settings = m.store.settings)
      (connection : m'.store.connection = m.store.connection)
      (network : m'.network = m.network) : Reaches Q l m'
  /-- A connection was asked for. -/
  | connect {m : Linked} (before : Reaches Q l m) (shut : m.store.connection.isOpen = false) :
      Reaches Q l { m with
        store.connection := (m.store.connection.connect m.store.settings m.network).2.1
        network := (m.store.connection.connect m.store.settings m.network).2.2 }
  /-- A request was sent. -/
  | call {m : Linked} {request : List Bytes} (before : Reaches Q l m) (allowed : Q request) :
      Reaches Q l (m.call request).2

/-- As many replies were read on the open connection as requests were sent. -/
def InStep (l : Linked) : Prop := l.store.connection.InStep l.network

variable {Q Q' : List Bytes → Prop} {l m k : Linked}

theorem call_of_shut (h : l.store.connection.Shut l.network) (request : List Bytes) :
    l.call request = (.error .notConnected, l) := by
  have hlink : l.store.connection.link = none := by
    simpa [Connection.isOpen] using h.isOpen_eq
  simp [call, Connection.call, hlink]

theorem inStep_call (h : l.InStep) (request : List Bytes) : (l.call request).2.InStep := by
  rcases h with hshut | ⟨requests, replies, hpaired⟩
  · rw [call_of_shut hshut]
    exact .inl hshut
  · have hcall := Connection.call_of_paired hpaired request
    simp only [call]
    split at hcall
    · next reply c n heq =>
      rw [heq]
      exact .inr ⟨_, _, hcall.paired⟩
    · next failure c n heq =>
      rw [heq]
      exact .inl hcall.shut

theorem events_call (h : l.InStep) (request : List Bytes) :
    l.network.events <:+ (l.call request).2.network.events := by
  rcases h with hshut | ⟨requests, replies, hpaired⟩
  · simp [call_of_shut hshut]
  · have hcall := Connection.call_of_paired hpaired request
    simp only [call]
    split at hcall
    · next reply c n heq =>
      rw [heq]
      obtain ⟨new, hnew, -⟩ := hcall.sent
      exact ⟨new, hnew.symm⟩
    · next failure c n heq =>
      rw [heq]
      exact hcall.events

namespace Reaches

theorem trans (h : Reaches Q l m) (g : Reaches Q m k) : Reaches Q l k := by
  induction g with
  | refl => exact h
  | keep _ settings connection network ih => exact ih.keep settings connection network
  | connect _ shut ih => exact ih.connect shut
  | call _ allowed ih => exact ih.call allowed

theorem mono (h : Reaches Q l m) (hQ : ∀ request, Q request → Q' request) : Reaches Q' l m := by
  induction h with
  | refl => exact .refl
  | keep _ settings connection network ih => exact ih.keep settings connection network
  | connect _ shut ih => exact ih.connect shut
  | call _ allowed ih => exact ih.call (hQ _ allowed)

/-- **Steps keep the connection in step.** -/
theorem inStep (h : Reaches Q l m) (hl : l.InStep) : m.InStep := by
  induction h with
  | refl => exact hl
  | keep _ settings connection network ih =>
    unfold InStep at ih ⊢
    rwa [connection, network]
  | connect _ shut ih =>
    rcases ih with hshut | ⟨requests, replies, hpaired⟩
    · rcases (Connection.connect_of_shut hshut _).inStep with hnone | hnew
      · exact .inl hnone
      · exact .inr ⟨_, _, hnew⟩
    · rw [hpaired.isOpen_eq] at shut
      cases shut
  | call _ allowed ih => exact inStep_call ih _

theorem settings_eq (h : Reaches Q l m) : m.store.settings = l.store.settings := by
  induction h with
  | refl => rfl
  | keep _ settings connection network ih => rw [settings, ih]
  | connect _ shut ih => exact ih
  | call _ allowed ih => exact ih

theorem events_isSuffix (h : Reaches Q l m) (hl : l.InStep) :
    l.network.events <:+ m.network.events := by
  induction h with
  | refl => exact List.suffix_refl _
  | keep _ settings connection network ih => rwa [network]
  | connect before shut ih =>
    rcases before.inStep hl with hshut | ⟨requests, replies, hpaired⟩
    · obtain ⟨new, hnew, -⟩ := (Connection.connect_of_shut hshut _).sent
      exact ih.trans ⟨new, hnew.symm⟩
    · rw [hpaired.isOpen_eq] at shut
      cases shut
  | call before allowed ih => exact ih.trans (events_call (before.inStep hl) _)

end Reaches

/-! ### Getting ready -/

theorem reaches_connect (l : Linked) : Reaches Q l l.connect.2 := by
  unfold connect
  split
  · exact .refl
  · next hclosed =>
    have hconnect := Reaches.refl (Q := Q) (l := l) |>.connect (by simpa using hclosed)
    dsimp only
    split
    · exact hconnect.keep rfl rfl rfl
    · exact hconnect

theorem isOpen_connect {faults : List ConnectFault} (h : l.connect.1 = .error faults) :
    l.connect.2.store.connection.isOpen = false := by
  unfold connect at h ⊢
  split at h
  · cases h
  · split
    · contradiction
    · dsimp only at h ⊢
      split at h
      · cases h
      · next hclosed =>
        rw [if_neg hclosed]
        simpa using hclosed

theorem load_snd (l : Linked) (p : Procedure) : (l.load p).2 = (l.call (loadRequest p)).2 := by
  unfold load loadRequest
  split <;> simp_all

/-- The last request was one that sends the text of a procedure. -/
def EndsWithLoad (l m : Linked) : Prop :=
  ∃ k p, Reaches IsLoad l k ∧ m = (k.call (loadRequest p)).2

theorem EndsWithLoad.reaches (h : EndsWithLoad l m) : Reaches IsLoad l m := by
  obtain ⟨k, p, hk, rfl⟩ := h
  exact hk.call ⟨p, rfl⟩

theorem reaches_load (h : Reaches IsLoad l m) (p : Procedure) : Reaches IsLoad l (m.load p).2 := by
  rw [load_snd]
  exact h.call ⟨p, rfl⟩

/-- Sending the texts of all procedures ends with sending one of them, and fails only as that
does. -/
theorem loadAll_spec (l : Linked) :
    ∃ k p, Reaches IsLoad l k ∧ l.loadAll.2 = (k.load p).2 ∧
      ∀ cause, l.loadAll.1 = .error cause → (k.load p).1 = .error cause := by
  unfold loadAll
  split
  · next heq => exact ⟨l, .set, .refl, by rw [heq], by simp [heq]⟩
  · next l₁ heq =>
    have hset : Reaches IsLoad l l₁ := by simpa [heq] using reaches_load (.refl (l := l)) .set
    split
    · next heq => exact ⟨l₁, .invalidate, hset, by rw [heq], by simp [heq]⟩
    · next l₂ heq =>
      have hinvalidate : Reaches IsLoad l l₂ := by simpa [heq] using reaches_load hset .invalidate
      split
      · next heq => exact ⟨l₂, .get, hinvalidate, by rw [heq], by simp [heq]⟩
      · next l₃ heq =>
        have hget : Reaches IsLoad l l₃ := by simpa [heq] using reaches_load hinvalidate .get
        split
        · next heq => exact ⟨l₃, .inspect, hget, by rw [heq], by simp [heq]⟩
        · next heq => exact ⟨l₃, .inspect, hget, by rw [heq], by simp⟩

theorem endsWithLoad_loadAll (l : Linked) : EndsWithLoad l l.loadAll.2 := by
  obtain ⟨k, p, hk, hlast, -⟩ := loadAll_spec l
  exact ⟨k, p, hk, hlast.trans (load_snd k p)⟩

/-- Getting ready sends the procedures at most. -/
theorem reaches_ready (l : Linked) : Reaches IsLoad l l.ready.2 := by
  have hconnect := reaches_connect (Q := IsLoad) l
  unfold ready
  split
  · next heq => rwa [heq] at hconnect
  · next m heq =>
    rw [heq] at hconnect
    refine hconnect.trans ?_
    have hload := (endsWithLoad_loadAll m).reaches
    unfold handles
    split
    · exact .refl
    · split
      · next hl => rwa [hl] at hload
      · next hl =>
        rw [hl] at hload
        exact hload.keep rfl rfl rfl

/-- When the store does not get ready, no connection is open, or the last request sent a
procedure. -/
theorem ready_error {cause : Cause} (h : l.ready.1 = .error cause) :
    l.ready.2.store.connection.isOpen = false ∨ EndsWithLoad l l.ready.2 := by
  have hconnect := reaches_connect (Q := IsLoad) l
  unfold ready at h ⊢
  split at h
  · next faults m heq =>
    have hfaults : l.connect.1 = .error faults := by rw [heq]
    have hclosed := isOpen_connect hfaults
    rw [heq] at hclosed
    exact .inl hclosed
  · next m heq =>
    rw [heq] at hconnect
    obtain ⟨k, p, hk, hlast⟩ := endsWithLoad_loadAll m
    unfold handles at h ⊢
    split at h
    · cases h
    · split at h
      · next hl =>
        rw [hl] at hlast
        exact .inr ⟨k, p, hconnect.trans hk, hlast⟩
      · cases h

/-! ### Running procedures -/

section
variable {p : Procedure} {key : Bytes} {arguments : List Bytes} {reply : Reply} {cause : Cause}

/-- Calling a procedure once fails before the call, or it ends with the call. -/
theorem callOnce_spec (l : Linked) (p : Procedure) (key : Bytes) (arguments : List Bytes) :
    (∃ cause, l.ready.1 = .error cause ∧
      l.callOnce p key arguments = (.error cause, l.ready.2)) ∨
    ∃ handle, l.callOnce p key arguments =
      ((l.ready.2.call (request handle key arguments)).1.mapError .callFailed,
        (l.ready.2.call (request handle key arguments)).2) := by
  unfold callOnce
  split
  · next cause m heq => exact .inl ⟨cause, by rw [heq], by rw [heq]⟩
  · next handles m heq => exact .inr ⟨handles.of p, by rw [heq]⟩

/-- The requests of a run of a procedure: those that send procedures, and those that call one. -/
def Asks (key : Bytes) (arguments request : List Bytes) : Prop :=
  IsLoad request ∨ IsRequest key arguments request

theorem reaches_callOnce (l : Linked) (p : Procedure) (key : Bytes) (arguments : List Bytes) :
    Reaches (Asks key arguments) l (l.callOnce p key arguments).2 := by
  have hready : Reaches (Asks key arguments) l l.ready.2 := l.reaches_ready.mono fun _ => .inl
  rcases callOnce_spec l p key arguments with ⟨cause, -, heq⟩ | ⟨handle, heq⟩
  · rw [heq]
    exact hready
  · rw [heq]
    exact hready.call (.inr ⟨handle, rfl⟩)

/-- An attempt is one call of the procedure, the last one, after steps that lead to it.  On the
way the procedure was called once and the remote store did not know it, or it was not called. -/
theorem attempt_spec (l : Linked) (reloaded : Bool) (p : Procedure) (key : Bytes)
    (arguments : List Bytes) :
    ∃ m : Linked, (m = l ∨ (∃ reply, (l.callOnce p key arguments).1 = .ok reply) ∧
        m = (l.callOnce p key arguments).2.forgetHandles) ∧
      (l.attempt reloaded p key arguments).1 = (m.callOnce p key arguments).1 ∧
      (l.attempt reloaded p key arguments).2.2 = (m.callOnce p key arguments).2 := by
  unfold attempt
  dsimp only
  split
  · next hunknown =>
    refine ⟨_, .inr ⟨?_, rfl⟩, rfl, rfl⟩
    cases hresult : (l.callOnce p key arguments).1 with
    | ok reply => exact ⟨reply, rfl⟩
    | error cause => simp [hresult, isUnknownHandle] at hunknown
  · exact ⟨l, .inl rfl, rfl, rfl⟩

theorem reaches_attempt (l : Linked) (reloaded : Bool) (p : Procedure) (key : Bytes)
    (arguments : List Bytes) :
    Reaches (Asks key arguments) l (l.attempt reloaded p key arguments).2.2 := by
  obtain ⟨m, hm, -, hlast⟩ := attempt_spec l reloaded p key arguments
  rw [hlast]
  rcases hm with rfl | ⟨-, rfl⟩
  · exact reaches_callOnce m p key arguments
  · have hfirst : Reaches (Asks key arguments) l (l.callOnce p key arguments).2.forgetHandles :=
      (reaches_callOnce l p key arguments).keep rfl rfl rfl
    exact hfirst.trans (reaches_callOnce _ p key arguments)

theorem reaches_count (f : Counters → Counters) : Reaches Q l (l.count f) :=
  .keep .refl rfl rfl rfl

@[simp] theorem countCause_settings (l : Linked) (cause : Cause) :
    (l.countCause cause).store.settings = l.store.settings := by
  unfold countCause
  split <;> rfl

@[simp] theorem countCause_connection (l : Linked) (cause : Cause) :
    (l.countCause cause).store.connection = l.store.connection := by
  unfold countCause
  split <;> rfl

@[simp] theorem countCause_network (l : Linked) (cause : Cause) :
    (l.countCause cause).network = l.network := by
  unfold countCause
  split <;> rfl

theorem reaches_countCause (cause : Cause) : Reaches Q l (l.countCause cause) :=
  .keep .refl (countCause_settings ..) (countCause_connection ..) (countCause_network ..)

/-- The store before the attempt that comes after a failed one. -/
def beforeRetry (l : Linked) (cause : Cause) : Linked :=
  (l.countCause cause).count fun c => { c with retries := c.retries + 1 }

/-- Some attempts to run a procedure failed, one after the other.  The flags say whether the remote
store may have run the procedure, before them and after them. -/
inductive Retried (p : Procedure) (key : Bytes) (arguments : List Bytes) :
    Linked → Bool → Linked → Bool → Prop where
  /-- There was no attempt. -/
  | none (l : Linked) (unsure : Bool) : Retried p key arguments l unsure l unsure
  /-- An attempt failed, and then some more. -/
  | again {l m k : Linked} {reloaded reloaded' unsure unsure' : Bool} {cause : Cause}
      (failed : l.attempt reloaded p key arguments = (.error cause, reloaded', m))
      (rest : Retried p key arguments (m.beforeRetry cause) (unsure || cause.mayHaveRun) k
        unsure') :
      Retried p key arguments l unsure k unsure'

/-- A run is some failed attempts and then one more, the outcome of which is that of the run. -/
theorem runFrom_spec (retries : Nat) (reloaded unsure : Bool) (l : Linked) (p : Procedure)
    (key : Bytes) (arguments : List Bytes) :
    ∃ k unsure' reloaded', Retried p key arguments l unsure k unsure' ∧
      ((∃ reply r m, k.attempt reloaded' p key arguments = (.ok reply, r, m) ∧
          l.runFrom retries reloaded unsure p key arguments = (.ok reply, m)) ∨
        ∃ cause r m, k.attempt reloaded' p key arguments = (.error cause, r, m) ∧
          l.runFrom retries reloaded unsure p key arguments =
            (.error (givenUp (m.countCause cause).store.settings cause
              (unsure' || cause.mayHaveRun)), m.countCause cause)) := by
  induction retries generalizing reloaded unsure l with
  | zero =>
    refine ⟨l, unsure, reloaded, .none l unsure, ?_⟩
    rw [runFrom]
    split
    · next reply r m heq => exact .inl ⟨reply, r, m, heq, rfl⟩
    · next cause r m heq => exact .inr ⟨cause, r, m, heq, rfl⟩
  | succ retries ih =>
    rw [runFrom]
    split
    · next reply r m heq =>
      exact ⟨l, unsure, reloaded, .none l unsure, .inl ⟨reply, r, m, heq, rfl⟩⟩
    · next cause r m heq =>
      obtain ⟨k, unsure', reloaded', hk, hlast⟩ :=
        ih r (unsure || cause.mayHaveRun) (m.beforeRetry cause)
      exact ⟨k, unsure', reloaded', .again heq hk, hlast⟩

theorem reaches_beforeRetry (cause : Cause) : Reaches Q l (l.beforeRetry cause) :=
  .keep .refl (countCause_settings ..) (countCause_connection ..) (countCause_network ..)

theorem Retried.reaches {unsure unsure' : Bool}
    (h : Retried p key arguments l unsure m unsure') : Reaches (Asks key arguments) l m := by
  induction h with
  | none l unsure => exact .refl
  | @again l m k reloaded _ _ _ cause failed rest ih =>
    have hattempt := reaches_attempt l reloaded p key arguments
    rw [failed] at hattempt
    exact (hattempt.trans (reaches_beforeRetry cause)).trans ih

theorem reaches_runFrom (retries : Nat) (reloaded unsure : Bool) (l : Linked) (p : Procedure)
    (key : Bytes) (arguments : List Bytes) :
    Reaches (Asks key arguments) l (l.runFrom retries reloaded unsure p key arguments).2 := by
  obtain ⟨k, unsure', reloaded', hk, hend⟩ := runFrom_spec retries reloaded unsure l p key arguments
  have hattempt := hk.reaches.trans (reaches_attempt k reloaded' p key arguments)
  rcases hend with ⟨reply, r, m, hlast, heq⟩ | ⟨cause, r, m, hlast, heq⟩
  · rw [hlast] at hattempt
    rwa [heq]
  · rw [hlast] at hattempt
    rw [heq]
    exact hattempt.trans (reaches_countCause cause)

/-- The store at the first attempt of a run. -/
def started (l : Linked) : Linked := l.count fun c => { c with calls := c.calls + 1 }

theorem reaches_started (l : Linked) : Reaches Q l l.started := reaches_count _

theorem run_eq (l : Linked) (p : Procedure) (key : Bytes) (arguments : List Bytes) :
    l.run p key arguments =
      l.started.runFrom l.store.settings.maxRetries false false p key arguments := rfl

theorem reaches_run (l : Linked) (p : Procedure) (key : Bytes) (arguments : List Bytes) :
    Reaches (Asks key arguments) l (l.run p key arguments).2 :=
  l.reaches_started.trans (reaches_runFrom ..)

end

/-! ### Whole runs -/

/-- An operation leads where the run of its procedure leads; it may count a corrupt record. -/
theorem execute_snd (l : Linked) (key : Bytes) (op : Operation) :
    let m := (l.run (callOf l.store.settings.retention op).1 key
      (callOf l.store.settings.retention op).2).2
    (l.execute key op).2 = m ∨ (l.execute key op).2 = m.countCorrupt := by
  unfold execute
  dsimp only
  split
  · next heq => exact .inl (by rw [heq])
  · next heq =>
    rw [heq]
    split
    · exact .inr rfl
    · exact .inl rfl
  · next heq => exact .inl (by rw [heq])

/-- Looking at a record leads where the run of its procedure leads; it may count a corrupt
record. -/
theorem inspect_snd (l : Linked) (key : Bytes) :
    let m := (l.run .inspect key []).2
    (l.inspect key).2 = m ∨ (l.inspect key).2 = m.countCorrupt := by
  unfold inspect
  dsimp only
  split
  · next heq => exact .inl (by rw [heq])
  · next heq => exact .inl (by rw [heq])
  · next heq => exact .inl (by rw [heq])
  · next heq =>
    rw [heq]
    split
    · exact .inr rfl
    · exact .inl rfl
  · next heq => exact .inl (by rw [heq])

/-- Asking for a sign of life makes a connection, if need be, and sends one request on it. -/
theorem ping_snd (l : Linked) :
    l.ping.2 = l.connect.2 ∨ l.ping.2 = (l.connect.2.call [Bytes.ofString "PING"]).2 := by
  unfold ping
  split
  · next heq => exact .inl (by rw [heq])
  · next m heq =>
    rw [heq]
    right
    split <;> next hcall => exact (congrArg Prod.snd hcall).symm

theorem reaches_countCorrupt (l : Linked) : Reaches Q l l.countCorrupt := reaches_count _

theorem reaches_execute (l : Linked) (key : Bytes) (op : Operation) :
    Reaches (Asks key (callOf l.store.settings.retention op).2) l (l.execute key op).2 := by
  rcases l.execute_snd key op with h | h
  · rw [h]
    exact l.reaches_run ..
  · rw [h]
    exact (l.reaches_run ..).trans (reaches_countCorrupt _)

theorem reaches_inspect (l : Linked) (key : Bytes) :
    Reaches (Asks key []) l (l.inspect key).2 := by
  rcases l.inspect_snd key with h | h
  · rw [h]
    exact l.reaches_run ..
  · rw [h]
    exact (l.reaches_run ..).trans (reaches_countCorrupt _)

theorem reaches_ping (l : Linked) : Reaches (· = [Bytes.ofString "PING"]) l l.ping.2 := by
  rcases l.ping_snd with h | h
  · rw [h]
    exact reaches_connect l
  · rw [h]
    exact (reaches_connect l).call rfl

end Linked

end RemoteStore

end CoherentCache
