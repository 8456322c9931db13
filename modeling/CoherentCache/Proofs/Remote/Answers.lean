import CoherentCache.Proofs.Remote.Handles

/-!
# What an answer rests on

An operation is put to the remote store in one request: the handle of the procedure that does it,
the key, and what the operation says, with numbers in decimal.  Nothing else makes an answer.  The
request is the last thing that the call sent, it was sent in full, its handle is the one that came
back when the text of the procedure was last sent on the same connection, and the reply that is
answered from is the one at the place of the request.

* `RemoteStore.Linked.words`, `RemoteStore.Linked.procedureText` : the request for an operation, and
  the text of the procedure that it calls.
* `RemoteStore.Linked.Handed` : a text was last answered with a handle.
* `RemoteStore.Linked.run_loaded` : a run calls its procedure by the handle that was loaded for it.
* `RemoteStore.Linked.execute_answers` : **an operation is answered from the reply to such a
  request, or it fails.**
-/

namespace CoherentCache

theorem Procedure.text_injective : Function.Injective Procedure.text := by
  have hdistinct : ([.set, .invalidate, .get, .inspect] : List Procedure).Pairwise
      fun p q => p.text ≠ q.text := by
    -- Three of the texts begin alike, so what follows is compared.
    simp only [List.pairwise_cons, List.forall_mem_cons, text, ne_eq, List.append_cancel_left_eq]
    decide +kernel
  intro p q hpq
  cases p <;> cases q <;> simp_all

namespace RemoteStore

namespace Linked

variable {l m k : Linked} {p : Procedure} {key handle : Bytes} {arguments : List Bytes}
  {reply : Reply} {retention : UInt64} {op : Operation} {answer : Answer}

/-! ### Requests for operations -/

/-- The request for an operation.  It says by which handle, that one key follows, and the key.  For
a write it goes on with the value, if there is one, and with the seconds and the nanoseconds of the
timestamp; an invalidation ends with the time that a tombstone is kept. -/
def words (retention : UInt64) (handle key : Bytes) : Operation → List Bytes
  | .set value ts =>
    [Bytes.ofString "EVALSHA", handle, Bytes.ofString "1", key, value,
      Bytes.ofString (toString ts.seconds.toInt), Bytes.ofString (toString ts.nanoseconds.toInt)]
  | .invalidate ts =>
    [Bytes.ofString "EVALSHA", handle, Bytes.ofString "1", key,
      Bytes.ofString (toString ts.seconds.toInt), Bytes.ofString (toString ts.nanoseconds.toInt),
      Bytes.ofString (toString retention.toNat)]
  | .get => [Bytes.ofString "EVALSHA", handle, Bytes.ofString "1", key]

/-- The text of the procedure that does the operation. -/
def procedureText : Operation → Bytes
  | .set _ _ => Procedure.text .set
  | .invalidate _ => Procedure.text .invalidate
  | .get => Procedure.text .get

/-- Among the requests and their replies, the last one that sent the text of a procedure was
answered with the handle. -/
def Handed (text handle : Bytes) (exchanges : List (List Bytes × Reply)) : Prop :=
  ∃ before after,
    exchanges = before ++
      ([Bytes.ofString "SCRIPT", Bytes.ofString "LOAD", text], .bulk handle) :: after ∧
    ∀ e ∈ after, e.1 ≠ [Bytes.ofString "SCRIPT", Bytes.ofString "LOAD", text]

/-- The operation was put to the remote store since `l`, as the last thing that was sent, by the
handle that was given for the text of its procedure on the same connection; and the reply is the
last thing that was read. -/
structure Put (l m : Linked) (retention : UInt64) (key : Bytes) (op : Operation) (handle : Bytes)
    (reply : Reply) : Prop where
  /-- The request was sent in full, and the reply at its place was read. -/
  got : Got l m (words retention handle key op) reply
  /-- The handle belongs to the procedure. -/
  handed : ∃ requests replies, m.store.connection.Paired m.network requests replies ∧
    Handed (procedureText op) handle (requests.zip replies)

/-- The request that a call makes for an operation is the one for it. -/
theorem request_callOf (retention : UInt64) (handle key : Bytes) (op : Operation) :
    request handle key (callOf retention op).2 = words retention handle key op := by
  cases op with
  | set value ts => simp only [request, callOf, words, Decimal.ofInt_eq_ofString]
  | invalidate ts =>
    simp only [request, callOf, words, Decimal.ofInt_eq_ofString, Decimal.ofNat_eq_ofString]
  | get => rfl

theorem text_callOf (retention : UInt64) (op : Operation) :
    (callOf retention op).1.text = procedureText op := by
  cases op <;> simp only [callOf, procedureText]

/-! ### The handle -/

/-- Of the texts that were last sent, each was answered with the handle of its procedure. -/
theorem handed_of_latest {handles : Handles} {exchanges : List (List Bytes × Reply)}
    (h : handles.Latest exchanges) (p : Procedure) : Handed p.text (handles.of p) exchanges := by
  obtain ⟨before, after, rfl, hafter⟩ := h
  -- The round is what was sent before the procedure, the procedure, and what was sent after it.
  have hround : ∃ first last, handles.round =
      first ++ (loadRequest p, .bulk (handles.of p)) :: last ∧ ∀ e ∈ last, e.1 ≠ loadRequest p := by
    have hne {q : Procedure} (hq : q ≠ p) : loadRequest q ≠ loadRequest p := by
      intro hsame
      simp only [loadRequest, List.cons.injEq, true_and, and_true] at hsame
      exact hq (Procedure.text_injective hsame)
    cases p with
    | set =>
      refine ⟨[], _, rfl, ?_⟩
      simp only [List.map_cons, List.map_nil, List.forall_mem_cons]
      exact ⟨hne (by decide), hne (by decide), hne (by decide), by simp⟩
    | invalidate =>
      refine ⟨[_], _, rfl, ?_⟩
      simp only [List.map_cons, List.map_nil, List.forall_mem_cons]
      exact ⟨hne (by decide), hne (by decide), by simp⟩
    | get =>
      refine ⟨[_, _], _, rfl, ?_⟩
      simp only [List.map_cons, List.map_nil, List.forall_mem_cons]
      exact ⟨hne (by decide), by simp⟩
    | inspect => exact ⟨[_, _, _], _, rfl, by simp⟩
  obtain ⟨first, last, hsplits, hlast⟩ := hround
  refine ⟨before ++ first, last ++ after, ?_, ?_⟩
  · rw [hsplits]
    simp only [List.append_assoc, List.cons_append]
    rfl
  · intro e he
    rcases List.mem_append.1 he with he | he
    · exact hlast e he
    · exact fun hload => hafter e he ⟨p, hload⟩

/-- Calling a procedure once gets a reply by the handle that was loaded for it. -/
theorem callOnce_loaded (hl : l.Equipped) (h : (l.callOnce p key arguments).1 = .ok reply) :
    ∃ (k : Linked) (handles : Handles), k.Loaded handles ∧
      k.call (request (handles.of p) key arguments) =
        (.ok reply, (l.callOnce p key arguments).2) := by
  obtain ⟨-, hhandles⟩ := ready_equipped hl
  unfold callOnce at h ⊢
  split at h
  · cases h
  · next handles k heq =>
    rw [heq] at hhandles
    refine ⟨k, handles, (hhandles handles rfl).2, ?_⟩
    cases hcall : k.call (request (handles.of p) key arguments) with
    | mk result m =>
      rw [hcall] at h
      cases result with
      | ok found =>
        cases h
        rfl
      | error failure => cases h

/-- So does an attempt, whichever of its two calls got the reply. -/
theorem attempt_loaded {reloaded : Bool} (hl : l.Equipped)
    (h : (l.attempt reloaded p key arguments).1 = .ok reply) :
    ∃ (k : Linked) (handles : Handles), k.Loaded handles ∧
      k.call (request (handles.of p) key arguments) =
        (.ok reply, (l.attempt reloaded p key arguments).2.2) := by
  obtain ⟨m, hm, hresult, hlast⟩ := attempt_spec l reloaded p key arguments
  rw [hlast]
  have hequipped : m.Equipped := by
    rcases hm with rfl | ⟨-, rfl⟩
    · exact hl
    · exact (leads_callOnce l p key arguments hl).2.keep rfl rfl (.inr rfl)
  exact callOnce_loaded hequipped (hresult ▸ h)

/-- **A run calls its procedure by the handle that was loaded for it.** -/
theorem run_loaded (hl : l.Equipped) (h : l.run p key arguments = (.ok reply, m)) :
    ∃ (k : Linked) (handles : Handles), k.Loaded handles ∧
      k.call (request (handles.of p) key arguments) = (.ok reply, m) := by
  obtain ⟨k, unsure, reloaded, hk, ⟨found, r, n, hattempt, heq⟩ | ⟨cause, r, n, hattempt, heq⟩⟩ :=
    runFrom_spec l.store.settings.maxRetries false false l.started p key arguments
  · rw [run_eq, heq] at h
    cases h
    have hequipped : k.Equipped := (((leads_count _).trans hk.leads) hl).2
    have hok : (k.attempt reloaded p key arguments).1 = .ok reply := by rw [hattempt]
    have hloaded := attempt_loaded hequipped hok
    rwa [hattempt] at hloaded
  · rw [run_eq, heq] at h
    cases h

/-- The reply of a run came to a request by the handle that was given for the procedure. -/
theorem run_handed (hl : l.Equipped) (h : l.run p key arguments = (.ok reply, m)) :
    ∃ handle, Got l m (request handle key arguments) reply ∧
      ∃ requests replies, m.store.connection.Paired m.network requests replies ∧
        Handed p.text handle (requests.zip replies) := by
  obtain ⟨k, handles, ⟨requests, replies, hpaired, hlatest⟩, hcall⟩ := run_loaded hl h
  have hafter := call_paired hpaired hcall
  obtain ⟨handle, hgot⟩ := run_ok hl.inStep h
  obtain ⟨earlier, earlierReplies, hlast⟩ := hgot.paired
  have hsame := (List.append_inj' (Paired.unique hlast hafter).1 rfl).2
  obtain rfl : handle = handles.of p := by simpa [request] using hsame
  refine ⟨handles.of p, hgot, _, _, hafter, ?_⟩
  rw [List.zip_append hpaired.length_eq.symm]
  exact handed_of_latest (hlatest.concat (not_isLoad_request _ _ _) reply) p

/-! ### Answers -/

/-- What an operation is answered, the reply to its request says. -/
theorem execute_ok (hl : l.Equipped) (h : l.execute key op = (.ok answer, m)) :
    ∃ handle reply, Put l m l.store.settings.retention key op handle reply ∧
      Says op reply answer := by
  obtain ⟨k, ⟨e, -, heq⟩ | ⟨reply, k', hrun, hnetwork, hconnection, heq | ⟨text, -, heq⟩⟩⟩ :=
    execute_cases l key op
  · rw [heq] at h
    cases h
  · rw [heq] at h
    obtain ⟨hanswer, rfl⟩ := Prod.mk.inj h
    obtain ⟨handle, ⟨hpaired, hsent⟩, hhanded⟩ := run_handed hl hrun
    rw [request_callOf] at hpaired hsent
    rw [text_callOf] at hhanded
    rw [← hnetwork, ← hconnection] at hpaired hhanded
    rw [← hnetwork] at hsent
    have hsays := answerOf_spec op reply
    rw [hanswer] at hsays
    exact ⟨handle, reply, ⟨⟨hpaired, hsent⟩, hhanded⟩, hsays⟩
  · rw [heq] at h
    cases h

/-- When an operation fails, no request for it got a reply that says an answer. -/
theorem execute_error {e : StoreError} (hl : l.InStep) (h : l.execute key op = (.error e, m)) :
    e.kind ≠ .none ∧ ∀ handle reply answer,
      Got l m (words l.store.settings.retention handle key op) reply → ¬ Says op reply answer := by
  have hspec := execute_spec hl key op
  rw [h] at hspec
  obtain ⟨hkind, hend⟩ := hspec
  refine ⟨hkind, ?_⟩
  intro handle reply answer hgot
  rw [← request_callOf] at hgot
  rcases hend with hunserved | ⟨handle', reply', hgot', hsays⟩
  · exact absurd hgot (not_got_of_unserved hunserved)
  · obtain ⟨-, rfl⟩ := got_unique hgot hgot'
    exact hsays answer

/-- **An operation is answered from the reply to its own request, or it fails.**  After any uses of
a store, an operation is answered just when the last thing that it sent is the request for it, with
its key, its value and its timestamp in decimal, in full, to the procedure that does it; the reply
at the place of the request was read, and it says the answer.  In every other case it fails, and
the failure is of some kind. -/
theorem execute_answers (settings : RemoteSettings) (n : Network) (uses : List Use) (key : Bytes)
    (op : Operation) :
    let l := (fresh settings n).after uses
    match l.execute key op with
    | (.ok answer, m) => ∃ handle reply,
        Put l m settings.retention key op handle reply ∧ Says op reply answer
    | (.error e, m) => e.kind ≠ .none ∧ ∀ handle reply answer,
        Got l m (words settings.retention handle key op) reply → ¬ Says op reply answer := by
  have hfresh : (fresh settings n).Equipped := .of_none (inStep_fresh settings n) rfl
  have hl := equipped_after hfresh uses
  have hsettings := (inStep_after hfresh.inStep uses).2
  dsimp only
  generalize (fresh settings n).after uses = l at hl hsettings ⊢
  obtain rfl : l.store.settings = settings := hsettings
  split
  · next heq => exact execute_ok hl heq
  · next heq => exact execute_error hl.inStep heq

/-- A value is stored with a timestamp before the epoch.  The last thing that is sent is the request
for it, by the first of the four handles. -/
theorem execute_answers_beforeEpoch :
    let l := fresh {} (networkOf [handlesThen (.data (Bytes.ofString ":1\r\n"))])
    let result := l.execute (Bytes.ofString "k") (.set (Bytes.ofString "v") ⟨-5, 7⟩)
    (result.1 = .ok ⟨.accepted, none⟩ ∧
      Network.bytesSent (result.2.network.events.take 2) =
        Wire.command (["EVALSHA", "h0", "1", "k", "v", "-5", "7"].map Bytes.ofString)) ∧
      ∃ handle reply,
        Put l result.2 ({} : RemoteSettings).retention (Bytes.ofString "k")
          (.set (Bytes.ofString "v") ⟨-5, 7⟩) handle reply ∧
        Says (.set (Bytes.ofString "v") ⟨-5, 7⟩) reply ⟨.accepted, none⟩ := by
  have hanswered (settings : RemoteSettings) (n : Network) (key : Bytes) (op : Operation)
      (answer : Answer) (hok : ((fresh settings n).execute key op).1 = .ok answer) :
      ∃ handle reply, Put (fresh settings n) ((fresh settings n).execute key op).2
        settings.retention key op handle reply ∧ Says op reply answer := by
    have hanswers := execute_answers settings n [] key op
    simp only [after, List.foldl_nil] at hanswers
    generalize (fresh settings n).execute key op = result at hok hanswers ⊢
    obtain ⟨_, m⟩ := result
    obtain rfl := hok
    exact hanswers
  exact ⟨by decide +kernel, hanswered _ _ _ _ _ (by decide +kernel)⟩

end Linked

end RemoteStore

end CoherentCache
