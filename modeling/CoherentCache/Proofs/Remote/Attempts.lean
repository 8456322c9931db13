import CoherentCache.Proofs.Remote.Deeds

/-!
# How often a remote store is asked

A run of a procedure goes round a loop.  An attempt that fails takes one of the retries; one whose
handle the remote store does not know takes none, but the procedures are sent again, and this is
done once.  So the pair of the retries and the reloads that are left goes down lexicographically,
and each turn of the loop asks for one connection, sends four texts and makes one call at most.

* `RemoteStore.Linked.Spent` : the expense of a part of an attempt; parts add up (`Spent.andThen`).
* `RemoteStore.Linked.Tried` : the expense of one attempt, and of the reload that it may use.
* `RemoteStore.Linked.Within` : the expense of a run with so many retries and reloads left.
* `RemoteStore.Linked.within_runFrom` : a run keeps within the retries and reloads that it has.
* `RemoteStore.Linked.calls_within` : **every operation keeps within the limit of attempts, and the
  counters say what was done.**
-/

namespace CoherentCache

namespace RemoteStore

namespace Linked

variable {key : Bytes} {arguments : List Bytes} {l m k : Linked} {deeds deeds' : List Deed}

/-! ### One attempt -/

/-- How many failures a result stands for. -/
def failures {ε α : Type} : Except ε α → Nat
  | .ok _ => 0
  | .error _ => 1

/-- Neither a call of a procedure nor a retry was counted. -/
def SameCounts (l m : Linked) : Prop :=
  m.store.counters.calls = l.store.counters.calls ∧
    m.store.counters.retries = l.store.counters.retries

/-- A part of an attempt came off with the result, by these deeds: not more than that many
connections, texts and calls, and no failure but the one that is the result.  If it succeeded, a
connection is open. -/
structure Spent {α : Type} (key : Bytes) (arguments : List Bytes)
    (connects loads evaluations : Nat) (l : Linked) (deeds : List Deed) (result : Except Cause α)
    (m : Linked) : Prop where
  /-- These are the deeds. -/
  course : Course key arguments l deeds m
  /-- So many connections are asked for at most. -/
  connects_le : deeds.countP Deed.isConnect ≤ connects
  /-- So many texts are sent at most. -/
  loads_le : deeds.countP Deed.isLoad ≤ loads
  /-- So many calls are made at most. -/
  evaluations_le : deeds.countP Deed.isEvaluate ≤ evaluations
  /-- The only failure is the one in the result. -/
  failures_eq : deeds.countP Deed.fails = failures result
  /-- What succeeded leaves an open connection. -/
  isOpen : ∀ a, result = .ok a → m.store.connection.isOpen = true
  /-- Nothing is counted that concerns whole attempts. -/
  counts : SameCounts l m

namespace Spent

variable {α β : Type} {c lo e c' lo' e' : Nat} {result : Except Cause β}

/-- One part after another. -/
theorem andThen {a : α} (h : Spent key arguments c lo e l deeds (.ok a) m)
    (g : Spent key arguments c' lo' e' m deeds' result k) :
    Spent key arguments (c + c') (lo + lo') (e + e') l (deeds ++ deeds') result k where
  course := h.course.trans g.course
  connects_le := by
    rw [List.countP_append]
    exact Nat.add_le_add h.connects_le g.connects_le
  loads_le := by
    rw [List.countP_append]
    exact Nat.add_le_add h.loads_le g.loads_le
  evaluations_le := by
    rw [List.countP_append]
    exact Nat.add_le_add h.evaluations_le g.evaluations_le
  failures_eq := by
    rw [List.countP_append, h.failures_eq, g.failures_eq]
    exact Nat.zero_add _
  isOpen := g.isOpen
  counts := ⟨g.counts.1.trans h.counts.1, g.counts.2.trans h.counts.2⟩

/-- A part that fails is the last. -/
theorem stop {cause : Cause} (h : Spent key arguments c lo e l deeds (.error cause : Except _ α) m)
    (lo' e' : Nat) :
    Spent key arguments c (lo + lo') (e + e') l deeds (.error cause : Except _ β) m where
  course := h.course
  connects_le := h.connects_le
  loads_le := Nat.le_add_right_of_le h.loads_le
  evaluations_le := Nat.le_add_right_of_le h.evaluations_le
  failures_eq := h.failures_eq
  isOpen := by
    rintro a ⟨⟩
  counts := h.counts

/-- There was nothing to do. -/
theorem nothing (a : β) (h : l.store.connection.isOpen = true) (c lo e : Nat) :
    Spent key arguments c lo e l [] (.ok a) l where
  course := .refl
  connects_le := Nat.zero_le _
  loads_le := Nat.zero_le _
  evaluations_le := Nat.zero_le _
  failures_eq := rfl
  isOpen := fun _ _ => h
  counts := ⟨rfl, rfl⟩

theorem keep (h : Spent key arguments c lo e l deeds result m)
    (settings : k.store.settings = m.store.settings)
    (connection : k.store.connection = m.store.connection) (network : k.network = m.network)
    (counts : SameCounts m k) :
    Spent key arguments c lo e l deeds result k where
  course := h.course.keep settings connection network
  connects_le := h.connects_le
  loads_le := h.loads_le
  evaluations_le := h.evaluations_le
  failures_eq := h.failures_eq
  isOpen := by
    intro a ha
    rw [connection]
    exact h.isOpen a ha
  counts := ⟨counts.1.trans h.counts.1, counts.2.trans h.counts.2⟩

theorem mono (h : Spent key arguments c lo e l deeds result m) (hc : c ≤ c') (hlo : lo ≤ lo')
    (he : e ≤ e') : Spent key arguments c' lo' e' l deeds result m where
  course := h.course
  connects_le := Nat.le_trans h.connects_le hc
  loads_le := Nat.le_trans h.loads_le hlo
  evaluations_le := Nat.le_trans h.evaluations_le he
  failures_eq := h.failures_eq
  isOpen := h.isOpen
  counts := h.counts

/-- Without a call there is no unknown handle. -/
theorem unknowns_eq_zero (h : Spent key arguments c lo 0 l deeds result m) :
    deeds.countP Deed.isUnknown = 0 := by
  have hle : deeds.countP Deed.isUnknown ≤ deeds.countP Deed.isEvaluate :=
    List.countP_mono_left fun _ _ => Deed.isEvaluate_of_isUnknown
  exact Nat.le_zero.1 (Nat.le_trans hle h.evaluations_le)

end Spent

/-- How many connections have to be asked for. -/
def connectsNeeded (l : Linked) : Nat := if l.store.connection.isOpen then 0 else 1

theorem connectsNeeded_le (l : Linked) : l.connectsNeeded ≤ 1 := by
  unfold connectsNeeded
  split <;> omega

theorem spent_connect (key : Bytes) (arguments : List Bytes) (l : Linked) :
    ∃ deeds, Spent key arguments l.connectsNeeded 0 0 l deeds
      (l.connect.1.mapError .unreachable) l.connect.2 := by
  unfold connect connectsNeeded
  split
  · next hopen => exact ⟨[], .nothing () hopen ..⟩
  · next hshut =>
    have hcourse := (Course.refl : Course key arguments l [] l).connect (by simpa using hshut)
    dsimp only
    refine ⟨[.connect (l.store.connection.connect l.store.settings l.network).2.1.isOpen], ?_⟩
    split
    · next hmade =>
      refine ⟨hcourse.keep rfl rfl rfl, by simp, by simp, by simp, ?_, fun _ _ => hmade, rfl, rfl⟩
      show [Deed.connect _].countP Deed.fails = 0
      simp [hmade]
    · next hmade =>
      refine ⟨hcourse, by simp, by simp, by simp, ?_, by rintro _ ⟨⟩, rfl, rfl⟩
      show [Deed.connect _].countP Deed.fails = 1
      simp [hmade]

theorem spent_load (key : Bytes) (arguments : List Bytes)
    (h : l.store.connection.isOpen = true) (p : Procedure) :
    ∃ deeds, Spent key arguments 0 1 0 l deeds (l.load p).1 (l.load p).2 := by
  have hcourse := (Course.refl : Course key arguments l [] l).load h p
  rw [← load_snd] at hcourse
  refine ⟨[.load p (l.call (loadRequest p)).1], hcourse, by simp, by simp, by simp, ?_, ?_,
    by rw [load_snd]; exact ⟨rfl, rfl⟩⟩
  · unfold load loadRequest
    split
    · next heq => simp [heq, failures]
    · next heq => simp [heq, failures]
    · next reply _ hbulk heq =>
      cases reply with
      | bulk handle => exact absurd rfl (hbulk handle)
      | _ => simp [heq, failures]
  · intro handle hhandle
    rw [load_snd]
    unfold load at hhandle
    split at hhandle
    · cases hhandle
    · next heq =>
      exact isOpen_call_ok (congrArg Prod.fst heq)
    · cases hhandle

theorem spent_loadAll (key : Bytes) (arguments : List Bytes)
    (h : l.store.connection.isOpen = true) :
    ∃ deeds, Spent key arguments 0 4 0 l deeds l.loadAll.1 l.loadAll.2 := by
  obtain ⟨d₁, h₁⟩ := spent_load key arguments h .set
  unfold loadAll
  split
  · next heq =>
    rw [heq] at h₁
    exact ⟨d₁, h₁.stop 3 0⟩
  · next l₁ heq =>
    rw [heq] at h₁
    obtain ⟨d₂, h₂⟩ := spent_load key arguments (h₁.isOpen _ rfl) .invalidate
    split
    · next heq =>
      rw [heq] at h₂
      exact ⟨_, h₁.andThen (h₂.stop 2 0)⟩
    · next l₂ heq =>
      rw [heq] at h₂
      obtain ⟨d₃, h₃⟩ := spent_load key arguments (h₂.isOpen _ rfl) .get
      split
      · next heq =>
        rw [heq] at h₃
        exact ⟨_, h₁.andThen (h₂.andThen (h₃.stop 1 0))⟩
      · next l₃ heq =>
        rw [heq] at h₃
        obtain ⟨d₄, h₄⟩ := spent_load key arguments (h₃.isOpen _ rfl) .inspect
        split
        · next heq =>
          rw [heq] at h₄
          exact ⟨_, h₁.andThen (h₂.andThen (h₃.andThen (h₄.stop 0 0)))⟩
        · next l₄ heq =>
          rw [heq] at h₄
          have hall := h₁.andThen (h₂.andThen (h₃.andThen h₄))
          exact ⟨_, hall.andThen (.nothing _ (hall.isOpen _ rfl) 0 0 0)⟩

theorem spent_handles (key : Bytes) (arguments : List Bytes)
    (h : l.store.connection.isOpen = true) :
    ∃ deeds, Spent key arguments 0 4 0 l deeds l.handles.1 l.handles.2 := by
  unfold handles
  split
  · next handles heq => exact ⟨[], .nothing handles h ..⟩
  · obtain ⟨deeds, hall⟩ := spent_loadAll key arguments h
    split
    · next heq =>
      rw [heq] at hall
      exact ⟨deeds, hall⟩
    · next heq =>
      rw [heq] at hall
      exact ⟨deeds, hall.keep rfl rfl rfl ⟨rfl, rfl⟩⟩

theorem spent_ready (key : Bytes) (arguments : List Bytes) (l : Linked) :
    ∃ deeds, Spent key arguments l.connectsNeeded 4 0 l deeds l.ready.1 l.ready.2 := by
  obtain ⟨deeds, hconnect⟩ := spent_connect key arguments l
  unfold ready
  split
  · next heq =>
    rw [heq] at hconnect
    exact ⟨deeds, hconnect.stop 4 0⟩
  · next heq =>
    rw [heq] at hconnect
    obtain ⟨deeds', hhandles⟩ := spent_handles key arguments (hconnect.isOpen () rfl)
    exact ⟨deeds ++ deeds', hconnect.andThen hhandles⟩

/-- The deeds end with a call that gets the reply. -/
def EndsWith (deeds : List Deed) (reply : Reply) : Prop :=
  ∃ handle, deeds.getLast? = some (.evaluate handle (.ok reply))

/-- How many unknown handles a result stands for. -/
def unknowns (result : Except Cause Reply) : Nat := if isUnknownHandle result then 1 else 0

theorem spent_evaluate (h : l.store.connection.isOpen = true) (handle : Bytes) :
    let call := l.call (request handle key arguments)
    Spent key arguments 0 0 1 l [.evaluate handle call.1] (call.1.mapError .callFailed) call.2 := by
  intro call
  have hcourse := (Course.refl : Course key arguments l [] l).evaluate h handle
  refine ⟨hcourse, by simp, by simp, by simp, ?_, ?_, rfl, rfl⟩
  · cases call.1 with
    | ok reply => rfl
    | error failure => rfl
  · intro reply hreply
    cases hcall : call.1 with
    | ok reply' => exact isOpen_call_ok hcall
    | error failure =>
      rw [hcall] at hreply
      cases hreply

theorem isUnknown_evaluate (handle : Bytes) (result : Except Connection.Failure Reply) :
    [Deed.evaluate handle result].countP Deed.isUnknown =
      unknowns (result.mapError .callFailed) := by
  cases result with
  | ok reply =>
    simp only [List.countP_singleton, Deed.isUnknown]
    rfl
  | error failure => rfl

theorem endsWith_evaluate {handle : Bytes} {result : Except Connection.Failure Reply}
    {reply : Reply} (h : result.mapError Cause.callFailed = .ok reply) (deeds : List Deed) :
    EndsWith (deeds ++ [.evaluate handle result]) reply := by
  cases result with
  | ok reply' =>
    cases h
    exact ⟨handle, by simp⟩
  | error failure => cases h

/-- Calling a procedure once makes one connection, if there is none, and one call. -/
theorem spent_callOnce (l : Linked) (p : Procedure) (key : Bytes) (arguments : List Bytes) :
    ∃ deeds, Spent key arguments l.connectsNeeded 4 1 l deeds (l.callOnce p key arguments).1
        (l.callOnce p key arguments).2 ∧
      deeds.countP Deed.isUnknown = unknowns (l.callOnce p key arguments).1 ∧
      ∀ reply, (l.callOnce p key arguments).1 = .ok reply → EndsWith deeds reply := by
  obtain ⟨deeds, hready⟩ := spent_ready key arguments l
  unfold callOnce
  split
  · next heq =>
    rw [heq] at hready
    exact ⟨deeds, hready.stop 0 1, hready.unknowns_eq_zero, by rintro _ ⟨⟩⟩
  · next handles m heq =>
    rw [heq] at hready
    refine ⟨_, hready.andThen (spent_evaluate (hready.isOpen handles rfl) (handles.of p)), ?_, ?_⟩
    · rw [List.countP_append, hready.unknowns_eq_zero, isUnknown_evaluate]
      exact Nat.zero_add _
    · intro reply hreply
      exact endsWith_evaluate hreply deeds

theorem exists_of_isUnknownHandle {result : Except Cause Reply}
    (h : isUnknownHandle result = true) : ∃ reply, result = .ok reply := by
  cases result with
  | ok reply => exact ⟨reply, rfl⟩
  | error cause => cases h

/-- How many times the procedures may still be sent again. -/
def reloadsLeft (reloaded : Bool) : Nat := if reloaded then 0 else 1

/-- An attempt came off with the result, by these deeds: it used so many reloads, and so many are
left.  It makes one call, and one more for each reload that it uses. -/
structure Tried (key : Bytes) (arguments : List Bytes) (used left : Nat) (l : Linked)
    (deeds : List Deed) (result : Except Cause Reply) (m : Linked) : Prop where
  /-- It keeps within the expense of one attempt and of the reloads. -/
  spent : Spent key arguments 1 (4 * (1 + used)) (1 + used) l deeds result m
  /-- Each reload is for an unknown handle, and the result may be one more. -/
  unknowns_eq : deeds.countP Deed.isUnknown = used + unknowns result
  /-- An unknown handle is the result only if no reload is left. -/
  left_eq : isUnknownHandle result = true → left = 0
  /-- A reply is that of the last call. -/
  ends : ∀ reply, result = .ok reply → EndsWith deeds reply

theorem tried_attempt (l : Linked) (reloaded : Bool) (p : Procedure) (key : Bytes)
    (arguments : List Bytes) :
    let tried := l.attempt reloaded p key arguments
    ∃ deeds used, reloadsLeft reloaded = used + reloadsLeft tried.2.1 ∧
      Tried key arguments used (reloadsLeft tried.2.1) l deeds tried.1 tried.2.2 := by
  obtain ⟨deeds, hfirst, hunknowns, hends⟩ := l.spent_callOnce p key arguments
  have hone := l.connectsNeeded_le
  unfold attempt
  dsimp only
  split
  · next hunknown =>
    -- The call was answered, so that the connection is open when it is made again.
    simp only [Bool.and_eq_true, Bool.not_eq_true'] at hunknown
    obtain ⟨hunknown, rfl⟩ := hunknown
    obtain ⟨reply, hreply⟩ := exists_of_isUnknownHandle hunknown
    have hopen := hfirst.isOpen reply hreply
    rw [hreply] at hfirst
    obtain ⟨deeds', hsecond, hunknowns', hends'⟩ :=
      (l.callOnce p key arguments).2.forgetHandles.spent_callOnce p key arguments
    have hnone : (l.callOnce p key arguments).2.forgetHandles.connectsNeeded = 0 := if_pos hopen
    rw [hnone] at hsecond
    have hforgotten : Spent key arguments l.connectsNeeded 4 1 l deeds
        (.ok reply : Except Cause Reply) (l.callOnce p key arguments).2.forgetHandles :=
      hfirst.keep rfl rfl rfl ⟨rfl, rfl⟩
    refine ⟨deeds ++ deeds', 1, rfl,
      (hforgotten.andThen hsecond).mono hone (by omega) (by omega), ?_, fun _ => rfl, ?_⟩
    · rw [List.countP_append, hunknowns, hunknowns']
      exact congrArg (· + _) (if_pos hunknown)
    · intro reply' hreply'
      obtain ⟨handle, hlast⟩ := hends' reply' hreply'
      exact ⟨handle, by rw [List.getLast?_append, hlast]; rfl⟩
  · next hknown =>
    refine ⟨deeds, 0, (Nat.zero_add _).symm, hfirst.mono hone (by omega) (by omega), ?_, ?_, hends⟩
    · rw [hunknowns, Nat.zero_add]
    · intro hunknown
      have hreloaded : reloaded = true := by simpa [hunknown] using hknown
      exact if_pos hreloaded

/-! ### The loop -/

/-- The expense of a run with so many retries and reloads left, which does these deeds and ends with
the result. -/
structure Within (key : Bytes) (arguments : List Bytes) (retries reloads : Nat) (l : Linked)
    (deeds : List Deed) (result : Except StoreError Reply) (m : Linked) : Prop where
  /-- These are the deeds. -/
  course : Course key arguments l deeds m
  /-- One connection is asked for in each attempt, at most. -/
  connects_le : deeds.countP Deed.isConnect ≤ retries + 1
  /-- The procedures are sent once in each attempt and once for each reload, at most. -/
  loads_le : deeds.countP Deed.isLoad ≤ 4 * (retries + 1 + reloads)
  /-- A procedure is called once in each attempt and once for each reload, at most. -/
  evaluations_le : deeds.countP Deed.isEvaluate ≤ retries + 1 + reloads
  /-- Unknown handles are met once for each reload, and once more at most. -/
  unknowns_le : deeds.countP Deed.isUnknown ≤ reloads + 1
  /-- The one that is met without a reload left is the reply of the run. -/
  unknowns_eq_iff : deeds.countP Deed.isUnknown = reloads + 1 ↔
    ∃ text, result = .ok (.error text) ∧ Bytes.ofString "NOSCRIPT" <+: text
  /-- A reply is that of the last call; every failure before it took one retry. -/
  replied : ∀ reply, result = .ok reply → EndsWith deeds reply ∧
    deeds.countP Deed.fails ≤ retries ∧
    m.store.counters.retries = l.store.counters.retries + deeds.countP Deed.fails
  /-- Without a reply all attempts failed, one more than there were retries. -/
  givenUp : ∀ e, result = .error e → deeds.countP Deed.fails = retries + 1 ∧
    m.store.counters.retries = l.store.counters.retries + retries
  /-- No call of another procedure is counted. -/
  calls_eq : m.store.counters.calls = l.store.counters.calls

theorem isUnknownHandle_iff (reply : Reply) :
    isUnknownHandle (.ok reply) = true ↔
      ∃ text, reply = .error text ∧ Bytes.ofString "NOSCRIPT" <+: text := by
  cases reply with
  | error text => simp [isUnknownHandle]
  | _ => simp [isUnknownHandle]

namespace Within

variable {used left retries : Nat} {reply : Reply} {cause : Cause}
  {result : Except StoreError Reply}

/-- An attempt that gets a reply ends the run, whatever is left. -/
theorem of_reply (h : Tried key arguments used left l deeds (.ok reply) m) (retries : Nat) :
    Within key arguments retries (used + left) l deeds (.ok reply) m := by
  have hunknown : unknowns (.ok reply) = 1 ↔
      ∃ text, reply = .error text ∧ Bytes.ofString "NOSCRIPT" <+: text := by
    rw [← isUnknownHandle_iff, unknowns]
    split <;> simp_all
  have hleft : unknowns (.ok reply) = 1 → left = 0 := by
    intro hone
    apply h.left_eq
    rwa [isUnknownHandle_iff, ← hunknown]
  have hle : unknowns (.ok reply) ≤ 1 := by
    unfold unknowns
    split <;> omega
  have hconnects := h.spent.connects_le
  have hloads := h.spent.loads_le
  have hevaluations := h.spent.evaluations_le
  have hunknowns := h.unknowns_eq
  have hfailures : deeds.countP Deed.fails = 0 := h.spent.failures_eq
  refine ⟨h.spent.course, by omega, by omega, by omega, by omega, ?_, ?_, by rintro _ ⟨⟩,
    h.spent.counts.1⟩
  · have hcount : deeds.countP Deed.isUnknown = used + left + 1 ↔ unknowns (.ok reply) = 1 := by
      omega
    simp only [hcount, hunknown, Except.ok.injEq]
  · rintro _ ⟨⟩
    refine ⟨h.ends reply rfl, by omega, ?_⟩
    rw [hfailures]
    exact h.spent.counts.2

/-- An attempt that fails ends the run when no retry is left. -/
theorem of_failure (h : Tried key arguments used left l deeds (.error cause) m) (e : StoreError) :
    Within key arguments 0 (used + left) l deeds (.error e) (m.countCause cause) := by
  have hconnects := h.spent.connects_le
  have hloads := h.spent.loads_le
  have hevaluations := h.spent.evaluations_le
  have hunknowns : deeds.countP Deed.isUnknown = used := h.unknowns_eq
  have hcounts : SameCounts m (m.countCause cause) := by
    unfold countCause
    split <;> exact ⟨rfl, rfl⟩
  refine ⟨h.spent.course.keep (countCause_settings ..) (countCause_connection ..)
    (countCause_network ..), by omega, by omega, by omega, by omega, ?_, by rintro _ ⟨⟩, ?_,
    hcounts.1.trans h.spent.counts.1⟩
  · constructor
    · intro hcount
      omega
    · rintro ⟨_, ⟨⟩, _⟩
  · rintro _ ⟨⟩
    exact ⟨h.spent.failures_eq, hcounts.2.trans h.spent.counts.2⟩

/-- An attempt that fails takes one of the retries. -/
theorem again (h : Tried key arguments used left l deeds (.error cause) m)
    (rest : Within key arguments retries left (m.beforeRetry cause) deeds' result k) :
    Within key arguments (retries + 1) (used + left) l (deeds ++ deeds') result k := by
  have hconnects := h.spent.connects_le
  have hloads := h.spent.loads_le
  have hevaluations := h.spent.evaluations_le
  have hunknowns : deeds.countP Deed.isUnknown = used := h.unknowns_eq
  have hfailures : deeds.countP Deed.fails = 1 := h.spent.failures_eq
  have hcalls : (m.beforeRetry cause).store.counters.calls = l.store.counters.calls := by
    rw [← h.spent.counts.1]
    unfold beforeRetry countCause
    split <;> rfl
  have hretries : (m.beforeRetry cause).store.counters.retries =
      l.store.counters.retries + 1 := by
    rw [← h.spent.counts.2]
    unfold beforeRetry countCause
    split <;> rfl
  have hconnects' := rest.connects_le
  have hloads' := rest.loads_le
  have hevaluations' := rest.evaluations_le
  have hunknowns' := rest.unknowns_le
  have hcourse : Course key arguments l deeds (m.beforeRetry cause) :=
    h.spent.course.keep (countCause_settings ..) (countCause_connection ..)
      (countCause_network ..)
  refine ⟨hcourse.trans rest.course, ?_, ?_, ?_, ?_, ?_, ?_, ?_,
    rest.calls_eq.trans hcalls⟩ <;> simp only [List.countP_append]
  · omega
  · omega
  · omega
  · omega
  · rw [← rest.unknowns_eq_iff]
    omega
  · intro reply hreply
    obtain ⟨⟨handle, hlast⟩, hle, hcount⟩ := rest.replied reply hreply
    exact ⟨⟨handle, by rw [List.getLast?_append, hlast]; rfl⟩, by omega, by omega⟩
  · intro e he
    obtain ⟨hall, hcount⟩ := rest.givenUp e he
    exact ⟨by omega, by omega⟩

end Within

/-- **A run keeps within the retries and the reloads that it has.** -/
theorem within_runFrom (retries : Nat) (reloaded unsure : Bool) (l : Linked) (p : Procedure)
    (key : Bytes) (arguments : List Bytes) :
    let run := l.runFrom retries reloaded unsure p key arguments
    ∃ deeds, Within key arguments retries (reloadsLeft reloaded) l deeds run.1 run.2 := by
  induction retries generalizing reloaded unsure l with
  | zero =>
    obtain ⟨deeds, used, hused, htried⟩ := l.tried_attempt reloaded p key arguments
    rw [hused, runFrom]
    split
    · next heq =>
      rw [heq] at htried ⊢
      exact ⟨deeds, .of_reply htried 0⟩
    · next heq =>
      rw [heq] at htried ⊢
      exact ⟨deeds, .of_failure htried _⟩
  | succ retries ih =>
    obtain ⟨deeds, used, hused, htried⟩ := l.tried_attempt reloaded p key arguments
    rw [hused, runFrom]
    split
    · next heq =>
      rw [heq] at htried ⊢
      exact ⟨deeds, .of_reply htried _⟩
    · next cause reloaded' m heq =>
      rw [heq] at htried ⊢
      obtain ⟨deeds', hrest⟩ :=
        ih reloaded' (unsure || cause.mayHaveRun) (m.beforeRetry cause)
      exact ⟨deeds ++ deeds', .again htried hrest⟩

/-! ### Whole calls -/

/-- The call of a procedure that led to `m` kept within the limit of attempts, and the counters and
the log of the network say what was done. -/
structure Accounted (l : Linked) (p : Procedure) (key : Bytes) (arguments : List Bytes)
    (deeds : List Deed) (m : Linked) : Prop where
  /-- It kept within the retries of the settings and one reload. -/
  within : Within key arguments l.store.settings.maxRetries 1 l.started deeds
    (l.run p key arguments).1 m
  /-- So it came to an end. -/
  length_le : deeds.length ≤ 6 * l.store.settings.maxRetries + 11
  /-- The log shows the connections that were asked for. -/
  lookups_eq : m.network.lookups = l.network.lookups + deeds.countP Deed.isConnect
  /-- One call was counted. -/
  calls_eq : m.store.counters.calls = l.store.counters.calls + 1

theorem accounted_run (l : Linked) (p : Procedure) (key : Bytes) (arguments : List Bytes) :
    ∃ deeds, l.Accounted p key arguments deeds (l.run p key arguments).2 := by
  obtain ⟨deeds, hwithin⟩ :=
    l.started.within_runFrom l.store.settings.maxRetries false false p key arguments
  have hconnects := hwithin.connects_le
  have hloads := hwithin.loads_le
  have hevaluations := hwithin.evaluations_le
  have hlength : deeds.length ≤ 6 * l.store.settings.maxRetries + 11 := by
    rw [Deed.length_eq]
    have hone : reloadsLeft false = 1 := rfl
    rw [hone] at hloads hevaluations
    omega
  exact ⟨deeds, hwithin, hlength, hwithin.course.lookups_eq, hwithin.calls_eq⟩

theorem Accounted.countCorrupt {p : Procedure} (h : l.Accounted p key arguments deeds m) :
    l.Accounted p key arguments deeds m.countCorrupt where
  within := { h.within with course := h.within.course.keep rfl rfl rfl }
  length_le := h.length_le
  lookups_eq := h.lookups_eq
  calls_eq := h.calls_eq

/-- **Every operation, and every look at a record, keeps within the limit of attempts.**  It calls
one procedure, from whatever state and on whatever network, by a list of deeds on the connection:
it asks for one connection more than there are retries and makes two calls more, at most.  The
second unknown handle is its reply.  Without a reply every attempt failed, and this is what is
reported. -/
theorem calls_within (l : Linked) (key : Bytes) :
    (∀ op,
      let call := callOf l.store.settings.retention op
      (∃ deeds, l.Accounted call.1 key call.2 deeds (l.execute key op).2) ∧
        ∀ e, (l.run call.1 key call.2).1 = .error e → (l.execute key op).1 = .error e) ∧
    (∃ deeds, l.Accounted .inspect key [] deeds (l.inspect key).2) ∧
      ∀ e, (l.run .inspect key []).1 = .error e → (l.inspect key).1 = .error e := by
  refine ⟨fun op => ?_, ?_, fun e he => ?_⟩
  · intro call
    refine ⟨?_, fun e he => ?_⟩
    · obtain ⟨deeds, hrun⟩ := l.accounted_run call.1 key call.2
      rcases l.execute_snd key op with heq | heq
      · exact ⟨deeds, heq ▸ hrun⟩
      · exact ⟨deeds, heq ▸ hrun.countCorrupt⟩
    · have hrun : l.run call.1 key call.2 = (.error e, (l.run call.1 key call.2).2) := by
        rw [← he]
      unfold execute
      dsimp only
      rw [hrun]
  · obtain ⟨deeds, hrun⟩ := l.accounted_run .inspect key []
    rcases l.inspect_snd key with heq | heq
    · exact ⟨deeds, heq ▸ hrun⟩
    · exact ⟨deeds, heq ▸ hrun.countCorrupt⟩
  · have hrun : l.run .inspect key [] = (.error e, (l.run .inspect key []).2) := by rw [← he]
    unfold inspect
    rw [hrun]

end Linked

end RemoteStore

end CoherentCache
