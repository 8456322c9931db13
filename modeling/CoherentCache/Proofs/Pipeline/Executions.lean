import CoherentCache.Proofs.MemoryStore.Deadlines
import CoherentCache.Proofs.Pipeline.Race

/-!
# Operations one after another on a store that fails

A batch runs its operations one after another, past failures.  An operation fails on schedule before
it reaches the in-memory store, or there, because the record of its key cannot be read.  Either way
it leaves every key as it was.  So what a batch leaves of a key is what the last operation on the
key left that the store answered, whatever failed before and after it.

* `Execution`, `executions` : the operations of a batch, each with its answer and with the store
  before it and after it.
* `Execution.Sound`, `Execution.sound_of` : **what one operation does to the slots of all keys.**
* `slot?_executed_of_unanswered` : a key on which no operation is answered stays as it was.
* `slot?_executed_of_last` : **a key is left as its last answered operation left it.**
* `Pipeline.noted`, `Pipeline.log_note` : what is logged of failures.
* `kind_ne_none_of_mem` : errors are of the kinds that are on schedule, or of that for corrupt
  records.
-/

namespace CoherentCache

open Cache (Ask)

/-! ### Operations that fail -/

namespace Slot

variable {key : Bytes} {due : Instant} {op : Operation} {slot : Option Slot} {e : StoreError}

/-- An operation that fails found no record that it could read, and leaves the slot alone. -/
theorem operate_of_error (h : (operate key due op slot).1 = .error e) :
    (operate key due op slot).2 = slot ∧ ∃ fault, record slot = .error fault := by
  unfold operate at h ⊢
  cases hrecord : record slot with
  | error fault => exact ⟨rfl, fault, rfl⟩
  | ok found =>
    rw [hrecord] at h
    cases h

end Slot

namespace MemoryStore

variable {m : MemoryStore} {now : Instant} {key : Bytes} {op : Operation} {e : StoreError}

theorem slot?_execute_of_error (hm : m.WellFormed) (h : (m.execute now key op).1 = .error e)
    (k : Bytes) : (m.execute now key op).2.slot? k = m.slot? k := by
  obtain ⟨hanswer, hupdated⟩ := execute_eq hm now key op
  rw [hanswer] at h
  obtain ⟨hslot, fault, hrecord⟩ := Slot.operate_of_error h
  rw [hslot] at hupdated
  by_cases hk : key = k
  · subst hk
    rw [hupdated.self]
    -- The slot has not lapsed: an absent one has no record that cannot be read.
    rcases Slot.live_eq_or now (m.slot? key) with hsame | hgone
    · exact hsame
    · rw [live?, hgone] at hrecord
      cases hrecord
  · exact hupdated.other hk

theorem kind_execute (h : (m.execute now key op).1 = .error e) : e.kind = .corrupt := by
  revert h
  unfold execute
  dsimp only
  split
  · rintro ⟨⟩
    rfl
  · split
    · rintro ⟨⟩
    · rintro ⟨⟩

end MemoryStore

/-! ### Operations with their answers -/

/-- An operation on a key, with the store before it and after it. -/
structure Execution (σ : Type) where
  /-- The key. -/
  key : Bytes
  /-- The operation. -/
  op : Operation
  /-- What the store answered. -/
  result : Except StoreError Answer
  /-- The store that was asked. -/
  before : σ
  /-- The store that was left. -/
  after : σ

variable {σ : Type}

namespace Execution

/-- The store answered. -/
def Answered (c : Execution σ) : Prop := ∃ answer, c.result = .ok answer

/-- The key and the error, if the store failed. -/
def failure? (c : Execution σ) : Option (Bytes × StoreError) :=
  match c.result with
  | .error e => some (c.key, e)
  | .ok _ => none

/-- The operation as it is put on record. -/
def happening (c : Execution σ) : Happening := .executed c.key c.op c.result

/-- Runs an operation on a key. -/
def of [RecordStore σ] (s : σ) (key : Bytes) (op : Operation) : Execution σ :=
  let (result, after) := RecordStore.execute s key op
  ⟨key, op, result, s, after⟩

theorem answered_iff {c : Execution σ} : c.Answered ↔ c.failure? = none := by
  unfold Answered failure?
  cases c.result with
  | error e => simp
  | ok answer => simp

instance (c : Execution σ) : Decidable c.Answered := decidable_of_iff _ answered_iff.symm

end Execution

theorem filterMap_failure?_eq_nil_iff_answered {calls : List (Execution σ)} :
    calls.filterMap Execution.failure? = [] ↔ ∀ c ∈ calls, c.Answered := by
  simp only [List.filterMap_eq_nil_iff, Execution.answered_iff]

section Runs

variable [RecordStore σ]

/-- Operations on keys, one after another. -/
def executions (s : σ) : List (Bytes × Operation) → List (Execution σ)
  | [] => []
  | (key, op) :: rest => .of s key op :: executions (Execution.of s key op).after rest

/-- The store after operations on keys. -/
def executed (s : σ) (asks : List (Bytes × Operation)) : σ :=
  (asks.map fun ask => Ask.execute ask.1 ask.2).foldl Ask.run s

/-- **Every operation is run**, in order. -/
theorem map_executions (s : σ) (asks : List (Bytes × Operation)) :
    (executions s asks).map (fun c => (c.key, c.op)) = asks := by
  induction asks generalizing s with
  | nil => rfl
  | cons ask rest ih =>
    rw [executions, List.map_cons, ih]
    rfl

theorem history_executed (r : Recorded σ) (asks : List (Bytes × Operation)) :
    (executed r asks).history =
      ((executions r asks).map Execution.happening).reverse ++ r.history := by
  induction asks generalizing r with
  | nil => rfl
  | cons ask rest ih =>
    show (executed (Execution.of r ask.1 ask.2).after rest).history = _
    rw [ih, executions, List.map_cons, List.reverse_cons, List.append_assoc]
    rfl

/-- The answers of a batch are those of the store. -/
theorem Cache.fst_forEach_eq {α β : Type} {step : Cache σ → α → Except StoreError β × Cache σ}
    {ask : α → Bytes × Operation} {pick : Answer → β}
    (hanswer : ∀ c item,
      (step c item).1 = (Execution.of c.store (ask item).1 (ask item).2).result.map pick)
    (hstore : ∀ c item,
      (step c item).2.store = (Execution.of c.store (ask item).1 (ask item).2).after)
    (c : Cache σ) (items : List α) :
    (c.forEach step items).1 =
      (executions c.store (items.map ask)).map fun d => d.result.map pick := by
  induction items generalizing c with
  | nil => rfl
  | cons item rest ih =>
    have hrest := ih (step c item).2
    rw [hstore] at hrest
    exact congrArg₂ List.cons (hanswer c item) hrest

end Runs

/-! ### The keys of a batch -/

section Sites

variable {r : Recorded Site} {c : Execution (Recorded Site)} {key : Bytes}
  {asks : List (Bytes × Operation)}

/-- What an operation does to the slots of all keys. -/
structure Execution.Sound (c : Execution (Recorded Site)) : Prop where
  /-- There are still as many shards as there should be. -/
  wellFormed : c.after.memory.WellFormed
  /-- It takes no time. -/
  now_eq : c.after.now = c.before.now
  /-- An answered operation met the slot of its key and left it as it leaves slots. -/
  operate_of_answered : c.Answered → ∃ due,
    let run := Slot.operate c.key due c.op (c.before.memory.live? c.before.now c.key)
    c.result = run.1 ∧ c.after.memory.slot? c.key = run.2
  /-- A failed operation leaves every key as it was. -/
  slot?_of_unanswered : ¬ c.Answered → ∀ k, c.after.memory.slot? k = c.before.memory.slot? k
  /-- Every operation leaves the other keys as they were. -/
  slot?_of_ne : ∀ k, c.key ≠ k → c.after.memory.slot? k = c.before.memory.slot? k

theorem Recorded.now_execute (r : Recorded Site) (key : Bytes) (op : Operation) :
    (Execution.of r key op).after.now = r.now := by
  obtain ⟨⟨⟨store, schedule⟩, timepiece⟩, history⟩ := r
  rcases schedule with _ | _ | ⟨_ | e, rest⟩ <;> rfl

/-- **An operation is sound**, whether it reaches the in-memory store or fails on schedule. -/
theorem Execution.sound_of (hr : r.memory.WellFormed) (key : Bytes) (op : Operation) :
    (Execution.of r key op).Sound := by
  have hrecorded : (Ask.run r (.execute key op)).history =
      .executed key op (Execution.of r key op).result :: r.history := rfl
  have hafter : Ask.run r (.execute key op) = (Execution.of r key op).after := rfl
  have hnow := Recorded.now_execute r key op
  rcases Recorded.run_execute r key op with ⟨e, hhistory, hmemory⟩ | ⟨hhistory, hmemory⟩
  · -- The call failed on schedule, and the in-memory store is the one before.
    have hresult : (Execution.of r key op).result = .error e := by
      rw [hrecorded] at hhistory
      injection (List.cons.inj hhistory).1
    rw [hafter] at hmemory
    exact
      { wellFormed := hmemory ▸ hr
        now_eq := hnow
        operate_of_answered := by
          rintro ⟨answer, hanswer⟩
          rw [hresult] at hanswer
          cases hanswer
        slot?_of_unanswered := fun _ k => congrArg (·.slot? k) hmemory
        slot?_of_ne := fun k _ => congrArg (·.slot? k) hmemory }
  · -- The call reached the in-memory store, where the record may still be one that fails it.
    have hresult : (Execution.of r key op).result = (r.memory.execute r.now key op).1 := by
      rw [hrecorded] at hhistory
      injection (List.cons.inj hhistory).1
    rw [hafter] at hmemory
    obtain ⟨hanswer, hupdated⟩ := MemoryStore.execute_eq hr r.now key op
    rw [← hmemory] at hupdated
    refine ⟨hupdated.wellFormed, hnow, ?_, ?_, fun k hk => hupdated.other hk⟩
    · exact fun _ => ⟨_, hresult.trans hanswer, hupdated.self⟩
    · intro hunanswered k
      cases herror : (r.memory.execute r.now key op).1 with
      | ok answer => exact absurd ⟨answer, hresult.trans herror⟩ hunanswered
      | error e =>
        rw [hmemory]
        exact MemoryStore.slot?_execute_of_error hr herror k

/-- Each operation of a batch is sound, and finds the clock as the batch found it. -/
theorem sound_of_mem_executions (hr : r.memory.WellFormed) (hc : c ∈ executions r asks) :
    c.Sound ∧ c.before.now = r.now := by
  induction asks generalizing r with
  | nil => cases hc
  | cons ask rest ih =>
    have hfirst := Execution.sound_of hr ask.1 ask.2
    rcases List.mem_cons.1 hc with rfl | hc
    · exact ⟨hfirst, rfl⟩
    · obtain ⟨hsound, hnow⟩ := ih hfirst.wellFormed hc
      exact ⟨hsound, hnow.trans hfirst.now_eq⟩

theorem wellFormed_executed (hr : r.memory.WellFormed) (asks : List (Bytes × Operation)) :
    (executed r asks).memory.WellFormed ∧ (executed r asks).now = r.now := by
  induction asks generalizing r with
  | nil => exact ⟨hr, rfl⟩
  | cons ask rest ih =>
    have hfirst := Execution.sound_of hr ask.1 ask.2
    obtain ⟨hwf, hnow⟩ := ih hfirst.wellFormed
    exact ⟨hwf, hnow.trans hfirst.now_eq⟩

/-- **A key on which no operation is answered stays as it was**, whatever becomes of other keys. -/
theorem slot?_executed_of_unanswered (hr : r.memory.WellFormed)
    (h : ∀ c ∈ executions r asks, c.key = key → ¬ c.Answered) :
    (executed r asks).memory.slot? key = r.memory.slot? key := by
  induction asks generalizing r with
  | nil => rfl
  | cons ask rest ih =>
    have hfirst := Execution.sound_of hr ask.1 ask.2
    obtain ⟨hhead, hrest⟩ := List.forall_mem_cons.1 h
    refine (ih hfirst.wellFormed hrest).trans ?_
    by_cases hk : ask.1 = key
    · exact hfirst.slot?_of_unanswered (hhead hk) key
    · exact hfirst.slot?_of_ne key hk

/-- **A key is left as its last answered operation left it.** -/
theorem slot?_executed_of_last {earlier later : List (Execution (Recorded Site))}
    (hr : r.memory.WellFormed) (hsplit : executions r asks = earlier ++ c :: later)
    (hlater : ∀ d ∈ later, d.key = c.key → ¬ d.Answered) :
    (executed r asks).memory.slot? c.key = c.after.memory.slot? c.key := by
  -- On what comes before: it may do anything to the key, since only the store after it matters.
  induction earlier generalizing r asks with
  | nil =>
    cases asks with
    | nil => cases hsplit
    | cons ask rest =>
      obtain ⟨rfl, rfl⟩ := List.cons.inj hsplit
      exact slot?_executed_of_unanswered (Execution.sound_of hr ask.1 ask.2).wellFormed hlater
  | cons d earlier ih =>
    cases asks with
    | nil => cases hsplit
    | cons ask rest =>
      obtain ⟨-, hrest⟩ := List.cons.inj hsplit
      show (executed (Execution.of r ask.1 ask.2).after rest).memory.slot? c.key = _
      exact ih (Execution.sound_of hr ask.1 ask.2).wellFormed hrest

/-! ### The kinds of errors -/

/-- The calls to come, as they are on schedule. -/
def Recorded.scheduled (r : Recorded Site) : List (Option StoreError) :=
  r.inner.store.schedule.getD []

/-- An error is the next on schedule, or it says that a record is corrupt. -/
theorem Execution.error_of {key : Bytes} {op : Operation} {e : StoreError}
    (h : (Execution.of r key op).result = .error e) :
    some e ∈ r.scheduled ∨ e.kind = .corrupt := by
  obtain ⟨⟨⟨⟨m, now⟩, schedule⟩, timepiece⟩, history⟩ := r
  rcases schedule with _ | _ | ⟨_ | e', rest⟩
  · exact Or.inr (MemoryStore.kind_execute h)
  · exact Or.inr (MemoryStore.kind_execute h)
  · exact Or.inr (MemoryStore.kind_execute h)
  · obtain rfl : e' = e := Except.error.inj h
    exact Or.inl (List.mem_cons_self ..)

theorem scheduled_after_subset (r : Recorded Site) (key : Bytes) (op : Operation) :
    (Execution.of r key op).after.scheduled ⊆ r.scheduled := by
  obtain ⟨⟨⟨store, schedule⟩, timepiece⟩, history⟩ := r
  rcases schedule with _ | _ | ⟨_ | e, rest⟩
  · exact List.Subset.refl _
  · exact List.Subset.refl _
  · exact List.subset_cons_self _ _
  · exact List.subset_cons_self _ _

/-- **No error is of kind `none`** as long as none on schedule is. -/
theorem kind_ne_none_of_mem {e : StoreError} (h : ∀ e, some e ∈ r.scheduled → e.kind ≠ .none)
    (hc : c ∈ executions r asks) (he : c.result = .error e) : e.kind ≠ .none := by
  induction asks generalizing r with
  | nil => cases hc
  | cons ask rest ih =>
    rcases List.mem_cons.1 hc with rfl | hc
    · rcases Execution.error_of he with hscheduled | hcorrupt
      · exact h e hscheduled
      · rw [hcorrupt]
        decide
    · exact ih (fun e he => h e (scheduled_after_subset r ask.1 ask.2 he)) hc

end Sites

/-! ### The log -/

namespace Pipeline

variable {ρ : Type}

/-- Entries as they stand in the log, newest first. -/
def noted (policy : Policy σ ρ) (entries : List LogEntry) : List LogEntry :=
  if policy.logging then entries.reverse else []

theorem noted_nil (policy : Policy σ ρ) : noted policy [] = [] := ite_self _

theorem noted_append (policy : Policy σ ρ) (entries more : List LogEntry) :
    noted policy (entries ++ more) = noted policy more ++ noted policy entries := by
  unfold noted
  split
  · exact List.reverse_append
  · rfl

theorem log_note (policy : Policy σ ρ) (p : Pipeline σ) (entry : LogEntry) :
    (p.note policy entry).log = noted policy [entry] ++ p.log := by
  unfold note noted
  split <;> rfl

end Pipeline

end CoherentCache
