import CoherentCache.Proofs.Remote.Outcome

/-!
# Which corrupt records a remote store counts

A use of a remote store is told of a corrupt record in three ways: by a refusal that starts with the
word for it, by a refusal that says that the key holds something else, and by fields that are not
those of a record.  The store counts when it runs an operation and meets the first, and when it
looks at a record and meets the third.  It does not count the second, nor any refusal to an observer;
so the counter and these together make up all answers that tell of a corrupt record.

* `RemoteStore.Linked.corrupt_run` : running a procedure counts no corrupt record, whatever the
  reply.
* `RemoteStore.Linked.corrupt_use` : what one use counts, and what it passes over.
* `RemoteStore.Linked.corrupt_and_passedOver` : **what a run of uses counted, with what it passed
  over, are the answers that tell of a corrupt record.**
* `RemoteStore.Linked.wrongType_not_counted` : an answer that is not counted.
-/

namespace CoherentCache

namespace RemoteStore

namespace Linked

/-! ### Answers that tell of a corrupt record -/

/-- The answer is an error for a corrupt record. -/
def isCorrupt {α : Type} : Except StoreError α → Bool
  | .error e => decide (e.kind = .corrupt)
  | .ok _ => false

/-- The use is answered with an error for a corrupt record. -/
def tellsCorrupt (l : Linked) : Use → Bool
  | .execute key op => isCorrupt (l.execute key op).1
  | .inspect key => isCorrupt (l.inspect key).1
  | _ => false

/-- The text of a refusal, if the run of a procedure ended in one. -/
def refusalIn : Except StoreError Reply → Option Bytes
  | .ok (.error text) => some text
  | _ => none

/-- The refusal tells of a corrupt record and is not counted: to an operation, because it does not
start with the word for one; to an observer, because it is a refusal. -/
def passesOver (l : Linked) : Use → Bool
  | .execute key op =>
    let (p, arguments) := callOf l.store.settings.retention op
    (refusalIn (l.run p key arguments).1).any fun text =>
      decide ((refusal text).kind = .corrupt) && !saysCorrupt text
  | .inspect key =>
    (refusalIn (l.run .inspect key []).1).any fun text => decide ((refusal text).kind = .corrupt)
  | _ => false

/-- How many uses of a run are such, each judged by the store as it is then. -/
def number (judge : Linked → Use → Bool) : Linked → List Use → Nat
  | _, [] => 0
  | l, use :: uses => (judge l use).toNat + number judge (l.use use) uses

/-! ### What a run of a procedure counts -/

section
variable (l : Linked) (p : Procedure) (key : Bytes) (arguments : List Bytes)

theorem corrupt_connect : l.connect.2.store.counters.corrupt = l.store.counters.corrupt := by
  unfold connect
  split
  · rfl
  · dsimp only
    split <;> rfl

theorem corrupt_load : (l.load p).2.store.counters.corrupt = l.store.counters.corrupt := by
  rw [load_snd]
  rfl

theorem corrupt_loadAll : l.loadAll.2.store.counters.corrupt = l.store.counters.corrupt := by
  have hset := l.corrupt_load .set
  unfold loadAll
  split
  · next heq => rwa [heq] at hset
  · next l₁ heq =>
    rw [heq] at hset
    have hinvalidate := (l₁.corrupt_load .invalidate).trans hset
    split
    · next heq => rwa [heq] at hinvalidate
    · next l₂ heq =>
      rw [heq] at hinvalidate
      have hget := (l₂.corrupt_load .get).trans hinvalidate
      split
      · next heq => rwa [heq] at hget
      · next l₃ heq =>
        rw [heq] at hget
        have hinspect := (l₃.corrupt_load .inspect).trans hget
        split
        · next heq => rwa [heq] at hinspect
        · next heq => rwa [heq] at hinspect

theorem corrupt_ready : l.ready.2.store.counters.corrupt = l.store.counters.corrupt := by
  have hconnect := l.corrupt_connect
  unfold ready
  split
  · next heq => rwa [heq] at hconnect
  · next m heq =>
    rw [heq] at hconnect
    have hload := m.corrupt_loadAll.trans hconnect
    unfold handles
    split
    · exact hconnect
    · split
      · next heq => rwa [heq] at hload
      · next heq => rwa [heq] at hload

theorem corrupt_callOnce :
    (l.callOnce p key arguments).2.store.counters.corrupt = l.store.counters.corrupt := by
  rcases callOnce_spec l p key arguments with ⟨cause, -, heq⟩ | ⟨handle, heq⟩
  · rw [heq]
    exact l.corrupt_ready
  · rw [heq]
    exact l.corrupt_ready

theorem corrupt_attempt (reloaded : Bool) :
    (l.attempt reloaded p key arguments).2.2.store.counters.corrupt =
      l.store.counters.corrupt := by
  obtain ⟨m, hm, -, hlast⟩ := attempt_spec l reloaded p key arguments
  rw [hlast, corrupt_callOnce]
  rcases hm with rfl | ⟨-, rfl⟩
  · rfl
  · exact l.corrupt_callOnce p key arguments

theorem corrupt_countCause (cause : Cause) :
    (l.countCause cause).store.counters.corrupt = l.store.counters.corrupt := by
  unfold countCause
  split <;> rfl

theorem corrupt_runFrom (retries : Nat) (reloaded unsure : Bool) :
    (l.runFrom retries reloaded unsure p key arguments).2.store.counters.corrupt =
      l.store.counters.corrupt := by
  induction retries generalizing l reloaded unsure with
  | zero =>
    have hattempt := l.corrupt_attempt p key arguments reloaded
    rw [runFrom]
    split
    · next heq => rwa [heq] at hattempt
    · next cause _ m heq =>
      rw [heq] at hattempt
      exact (m.corrupt_countCause cause).trans hattempt
  | succ retries ih =>
    have hattempt := l.corrupt_attempt p key arguments reloaded
    rw [runFrom]
    split
    · next heq => rwa [heq] at hattempt
    · next cause _ m heq =>
      rw [heq] at hattempt
      exact (ih ..).trans ((m.corrupt_countCause cause).trans hattempt)

/-- **Running a procedure counts no corrupt record**, whatever comes of it. -/
theorem corrupt_run :
    (l.run p key arguments).2.store.counters.corrupt = l.store.counters.corrupt :=
  l.started.corrupt_runFrom p key arguments l.store.settings.maxRetries false false

end

/-! ### What a use counts -/

variable {l : Linked}

theorem saysCorrupt_kind {text : Bytes} (h : saysCorrupt text = true) :
    (refusal text).kind = .corrupt := by
  simp [refusal, h]

/-- What is answered from a reply does not tell of a corrupt record. -/
theorem isCorrupt_answerOf (op : Operation) (reply : Reply) :
    isCorrupt (answerOf op reply) = false := by
  cases op <;> cases reply <;> rfl

theorem run_error_kind {p : Procedure} {key : Bytes} {arguments : List Bytes} {e : StoreError}
    {m : Linked} (h : l.run p key arguments = (.error e, m)) : e.kind = .unavailable := by
  obtain ⟨k, unsure, reloaded, -, ⟨reply, r, n, -, heq⟩ | ⟨cause, r, n, -, heq⟩⟩ :=
    runFrom_spec l.store.settings.maxRetries false false l.started p key arguments
  · rw [run_eq, heq] at h
    cases h
  · rw [run_eq, heq] at h
    cases h
    rfl

theorem corrupt_execute (l : Linked) (key : Bytes) (op : Operation) :
    (l.execute key op).2.store.counters.corrupt + (l.passesOver (.execute key op)).toNat =
      l.store.counters.corrupt + (l.tellsCorrupt (.execute key op)).toNat := by
  have hrun := l.corrupt_run (callOf l.store.settings.retention op).1 key
    (callOf l.store.settings.retention op).2
  unfold tellsCorrupt passesOver execute
  dsimp only
  cases heq : l.run (callOf l.store.settings.retention op).1 key
    (callOf l.store.settings.retention op).2 with
  | mk result m =>
    rw [heq] at hrun
    dsimp only at hrun
    rcases result with e | reply
    · simp [isCorrupt, refusalIn, run_error_kind heq, hrun]
    · cases reply with
      | error text =>
        -- Counted when the text starts with the word, and passed over when it only means the same.
        cases hsays : saysCorrupt text with
        | true =>
          simp [isCorrupt, refusalIn, hsays, saysCorrupt_kind hsays, countCorrupt, count, hrun]
        | false => simp [isCorrupt, refusalIn, hsays, hrun]
      | simple _ | integer _ | bulk _ | null | array _ =>
        simp [isCorrupt_answerOf, refusalIn, hrun]

theorem corrupt_inspect (l : Linked) (key : Bytes) :
    (l.inspect key).2.store.counters.corrupt + (l.passesOver (.inspect key)).toNat =
      l.store.counters.corrupt + (l.tellsCorrupt (.inspect key)).toNat := by
  have hrun := l.corrupt_run .inspect key []
  unfold tellsCorrupt passesOver inspect
  dsimp only
  split <;> rename_i heq <;> rw [heq] at hrun ⊢ <;> dsimp only at hrun ⊢
  · simp [isCorrupt, refusalIn, run_error_kind heq, hrun]
  · simp [isCorrupt, refusalIn, hrun]
  · simp [isCorrupt, refusalIn, hrun]
  · next items _ _ _ =>
    cases Record.ofFields (fieldsOf items) with
    | error fault => simp [isCorrupt, refusalIn, StoreError.corruptRecord, countCorrupt, count, hrun]
    | ok record => simp [isCorrupt, refusalIn, hrun]
  · next reply _ hrefused _ _ =>
    have hnone : refusalIn (.ok reply) = none := by
      cases reply with
      | error text => exact absurd rfl (hrefused text)
      | _ => rfl
    simp [isCorrupt, unavailable, hnone, hrun]

theorem corrupt_ping (l : Linked) : l.ping.2.store.counters.corrupt = l.store.counters.corrupt := by
  have hconnect := l.corrupt_connect
  unfold ping
  split
  · next heq => rwa [heq] at hconnect
  · next m heq =>
    rw [heq] at hconnect
    have hcall : (m.call [Bytes.ofString "PING"]).2.store.counters.corrupt =
        l.store.counters.corrupt := hconnect
    split <;> next heq => rwa [heq] at hcall

/-- **What one use counts.**  The counter goes up by one just when the answer tells of a corrupt
record, except when the use passes a refusal over. -/
theorem corrupt_use (l : Linked) (use : Use) :
    (l.use use).store.counters.corrupt + (l.passesOver use).toNat =
      l.store.counters.corrupt + (l.tellsCorrupt use).toNat := by
  cases use with
  | execute key op => exact l.corrupt_execute key op
  | inspect key => exact l.corrupt_inspect key
  | ping => exact l.corrupt_ping
  | close | pause _ | advance _ | fail _ => rfl

/-- **What a run of uses counts**, from any state of the store. -/
theorem corrupt_after (l : Linked) (uses : List Use) :
    (l.after uses).store.counters.corrupt + number passesOver l uses =
      l.store.counters.corrupt + number tellsCorrupt l uses := by
  induction uses generalizing l with
  | nil => rfl
  | cons use uses ih =>
    have hfirst := l.corrupt_use use
    have hrest := ih (l.use use)
    have hafter : l.after (use :: uses) = (l.use use).after uses := rfl
    rw [hafter, number, number]
    omega

/-- **Counted, or passed over.**  For every network and every run of uses of a new store, the
answers that tell of a corrupt record are those in the counter and those that were passed over: the
refusals that mean a corrupt record without starting with the word for one, and all such refusals to
an observer. -/
theorem corrupt_and_passedOver (settings : RemoteSettings) (n : Network) (uses : List Use) :
    ((fresh settings n).after uses).store.counters.corrupt +
        number passesOver (fresh settings n) uses =
      number tellsCorrupt (fresh settings n) uses := by
  rw [corrupt_after]
  exact Nat.zero_add _

/-- **An answer that is not counted.**  The key holds something else than a record, the caller is
told that it is corrupt, and the counter stays. -/
theorem wrongType_not_counted :
    let text := Bytes.ofString "WRONGTYPE Operation against a key holding the wrong kind of value"
    let l := fresh {} (networkOf [handlesThen (.data (45 :: text ++ [13, 10]))])
    (l.execute (Bytes.ofString "k") .get).1 = .error ⟨.corrupt, text⟩ ∧
      number tellsCorrupt l [.execute (Bytes.ofString "k") .get] = 1 ∧
      (l.after [.execute (Bytes.ofString "k") .get]).store.counters.corrupt = 0 := by
  decide +kernel

end Linked

end RemoteStore

end CoherentCache
