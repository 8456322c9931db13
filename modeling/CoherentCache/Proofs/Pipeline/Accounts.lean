import CoherentCache.Proofs.Pipeline.Books

/-!
# The accounts of nested calls

Calls of a pipeline are made one after another, and while one of them asks the source, the source
may make others, to any depth.  However they are nested, each half keeps the books, and so does a
whole run.  So the counters add up to the operations that the pipeline asked of the cache, and the
entries of the log to those among them that failed.

* `Runs` : runs of calls, with the number of reads that a lookup failed.
* `Booked.after` : **a run keeps the books**, by the halves of its calls.
* `books_balance` : what the counters and the log of a run add up to.
-/

namespace CoherentCache

namespace Pipeline

variable {σ ρ : Type}

/-- The books do not depend on the keys of rows. -/
theorem booked_keyedBy {policy : Policy σ ρ} (keyOf : ρ → Bytes) {n : Nat}
    {p : Pipeline (Recorded σ)} : Booked (policy.keyedBy keyOf) n p ↔ Booked policy n p :=
  ⟨fun h => ⟨h.stats_eq, h.log_eq, h.refused_eq⟩, fun h => ⟨h.stats_eq, h.log_eq, h.refused_eq⟩⟩

/-! ### Runs -/

variable [RecordStore σ]

/-- From the one pipeline to the other, calls were made whose lookups failed so many reads.  Others
may have changed the cache meanwhile; what they ask of the store is not in its history. -/
inductive Runs (policy : Policy σ ρ) :
    Nat → Pipeline (Recorded σ) → Pipeline (Recorded σ) → Prop where
  /-- Nothing happens. -/
  | idle (p) : Runs policy 0 p p
  /-- One run follows another. -/
  | andThen {n n' p q r} (first : Runs policy n p q) (rest : Runs policy n' q r) :
      Runs policy (n + n') p r
  /-- Others use the cache, or time passes. -/
  | others {p} (cache : Cache (Recorded σ)) (h : cache.store.history = p.store.history) :
      Runs policy 0 p { p with cache }
  /-- Populating, and what is called while the source is asked. -/
  | populate {n p q fetched} (keyOf : ρ → Bytes) (fetch : Source (Recorded σ) (List ρ))
      (hfetch : fetch (p.beginPopulate (policy.keyedBy keyOf).recorded).2 = (fetched, q))
      (during : Runs policy n (p.beginPopulate (policy.keyedBy keyOf).recorded).2 q) :
      Runs policy (n + refused (p.populate (policy.keyedBy keyOf).recorded fetch).1) p
        (p.populate (policy.keyedBy keyOf).recorded fetch).2
  /-- A read that does not ask the source. -/
  | readHere {p result} (key : Bytes) (keep : Bool) (fetch : Source (Recorded σ) (List ρ))
      (h : (p.beginRead policy.recorded key keep).1 = .finished result) :
      Runs policy (refused (p.readThrough policy.recorded key keep fetch).1) p
        (p.readThrough policy.recorded key keep fetch).2
  /-- A read that asks the source, and what is called meanwhile. -/
  | readThrough {n p q ticket fetched} (key : Bytes) (keep : Bool)
      (fetch : Source (Recorded σ) (List ρ))
      (h : (p.beginRead policy.recorded key keep).1 = .waiting ticket)
      (hfetch : fetch (p.beginRead policy.recorded key keep).2 = (fetched, q))
      (during : Runs policy n (p.beginRead policy.recorded key keep).2 q) :
      Runs policy (n + refused (p.readThrough policy.recorded key keep fetch).1) p
        (p.readThrough policy.recorded key keep fetch).2
  /-- A batched read that does not ask the source. -/
  | readManyHere {p result} (keyOf : ρ → Bytes) (keys : List Bytes) (keep : Bool)
      (fetch : List Bytes → Source (Recorded σ) (List ρ))
      (h : (p.beginReadMany (policy.keyedBy keyOf).recorded keys keep).1 = .finished result) :
      Runs policy (refused (p.readThroughMany (policy.keyedBy keyOf).recorded keys keep fetch).1) p
        (p.readThroughMany (policy.keyedBy keyOf).recorded keys keep fetch).2
  /-- A batched read that asks the source, and what is called meanwhile. -/
  | readThroughMany {n p q ticket fetched} (keyOf : ρ → Bytes) (keys : List Bytes) (keep : Bool)
      (fetch : List Bytes → Source (Recorded σ) (List ρ))
      (h : (p.beginReadMany (policy.keyedBy keyOf).recorded keys keep).1 = .waiting ticket)
      (hfetch : fetch ticket.missing
        (p.beginReadMany (policy.keyedBy keyOf).recorded keys keep).2 = (fetched, q))
      (during : Runs policy n (p.beginReadMany (policy.keyedBy keyOf).recorded keys keep).2 q) :
      Runs policy (n + refused
        (p.readThroughMany (policy.keyedBy keyOf).recorded keys keep fetch).1) p
        (p.readThroughMany (policy.keyedBy keyOf).recorded keys keep fetch).2
  /-- An update, and what is called while the source is changed. -/
  | update {n p q mutated} (keys : List Bytes) (mutate : Source (Recorded σ) Unit)
      (hmutate : mutate p = (mutated, q)) (during : Runs policy n p q) :
      Runs policy (n + refused (p.update policy.recorded keys mutate).1) p
        (p.update policy.recorded keys mutate).2

variable {policy : Policy σ ρ} {n : Nat} {p q : Pipeline (Recorded σ)}

/-- **A run keeps the books.** -/
theorem Booked.after (h : Runs policy n p q) {before : Nat} (hp : Booked policy before p) :
    Booked policy (before + n) q := by
  induction h generalizing before with
  | idle p => exact hp
  | andThen first rest ihfirst ihrest =>
    rw [← Nat.add_assoc]
    exact ihrest (ihfirst hp)
  | others cache h => exact hp.of_history_eq h
  | populate keyOf fetch hfetch during ih =>
    have hduring := ih ((booked_keyedBy keyOf).1 ((booked_keyedBy keyOf).2 hp).readClock)
    simp only [Pipeline.populate]
    rw [hfetch, ← Nat.add_assoc]
    exact (booked_keyedBy keyOf).1 (((booked_keyedBy keyOf).2 hduring).endPopulate _ _)
  | readHere key keep fetch h =>
    have hbegin := hp.beginRead key keep
    rw [h] at hbegin
    rw [readThrough_of_finished _ _ _ _ fetch h]
    exact hbegin
  | readThrough key keep fetch h hfetch during ih =>
    have hbegin := hp.beginRead key keep
    rw [h] at hbegin
    rw [readThrough_of_waiting _ _ _ _ fetch h, hfetch, ← Nat.add_assoc]
    exact (ih hbegin).endRead _ _
  | readManyHere keyOf keys keep fetch h =>
    have hbegin := ((booked_keyedBy keyOf).2 hp).beginReadMany keys keep
    rw [h] at hbegin
    rw [readThroughMany_of_finished _ _ _ _ fetch h]
    exact (booked_keyedBy keyOf).1 hbegin
  | readThroughMany keyOf keys keep fetch h hfetch during ih =>
    have hbegin := ((booked_keyedBy keyOf).2 hp).beginReadMany keys keep
    rw [h] at hbegin
    have hduring := ih ((booked_keyedBy keyOf).1 hbegin)
    rw [readThroughMany_of_waiting _ _ _ _ fetch h, hfetch, ← Nat.add_assoc]
    exact (booked_keyedBy keyOf).1 (((booked_keyedBy keyOf).2 hduring).endReadMany _ _)
  | update keys mutate hmutate during ih =>
    simp only [Pipeline.update]
    rw [hmutate, ← Nat.add_assoc]
    exact (ih hp).endUpdate _ _

/-- **The books balance.**  Let calls be made of a new pipeline, one after another and nested in the
callbacks of each other in any way, on a store that may fail whenever it likes, with cached values
that may or may not be rows, with the bypass or without it.  Each read that was asked of the cache
was a hit, a miss or bypassed, or it failed its call; without the bypass these are all that failed
in the store or in decoding, and with it none.  Each set was accepted, rejected or failed, and each
invalidation answered or failed.  The values that were no rows are counted.  A log, if there is one,
has an entry for each read that failed in the store or in decoding, for each set and for each
invalidation that failed. -/
theorem books_balance (policy : Policy σ ρ) (inner : σ) {refusals : Nat}
    {p : Pipeline (Recorded σ)} (h : Runs policy refusals (.ofStore ⟨inner, []⟩) p) :
    let asked := p.store.history
    let failedLookups := asked.countP Happening.isFailedGet + asked.countP policy.undecodable
    let s := p.stats
    s.hits + s.misses + s.bypasses + refusals = asked.countP Happening.isGet ∧
      refusals = (if policy.bypass then 0 else failedLookups) ∧
      s.populated + s.populateRejected + s.populateFailures = asked.countP Happening.isSet ∧
      s.invalidations + s.invalidateFailures = asked.countP Happening.isInvalidate ∧
      s.decodeFailures = asked.countP policy.undecodable ∧
      p.log.length = if policy.logging then
        failedLookups + s.populateFailures + s.invalidateFailures else 0 := by
  intro asked failedLookups s
  have hbooked : Booked policy (0 + refusals) p := (booked_ofStore policy inner).after h
  rw [Nat.zero_add] at hbooked
  have hs : s = tally policy asked := hbooked.stats_eq
  have hrefused : refusals = asked.countP policy.refuses := hbooked.refused_eq
  obtain ⟨hgets, hsets, hinvalidates, hundecodable, hentries⟩ := tally_balances policy asked
  rw [← hs] at hgets hsets hinvalidates hundecodable hentries
  rw [← hrefused] at hgets
  refine ⟨hgets, ?_, hsets, hinvalidates, hundecodable, ?_⟩
  · rw [hrefused]
    exact countP_refuses policy asked
  · rw [hbooked.log_eq, logged]
    split
    · rw [hentries, ← Nat.add_assoc]
    · rfl

/-- A new pipeline on a store that fails the second and the fourth operation. -/
def unsteady : Pipeline (Recorded Site) :=
  .ofStore ⟨⟨⟨⟨.empty {}, ⟨0⟩⟩, some [none, some outage, none, some outage]⟩, .stepping 1⟩, []⟩

/-- A source that has no rows. -/
def noRows : Source (Recorded Site) (List Row) := fun p => (.ok [], p)

/-- A source that has one row, while another key is read. -/
def rowMeanwhile (policy : Policy Site Row) : Source (Recorded Site) (List Row) := fun p =>
  (.ok [⟨[49], [5]⟩], (p.readThrough policy.recorded [2] true noRows).2)

/-- The inner read fails, the row of the outer one is cached, and an invalidation fails. -/
theorem books_balance_nested :
    let policy := Row.policy false true
    let p := ((unsteady.readThrough policy.recorded [1] true (rowMeanwhile policy)).2.update
      policy.recorded [[3]] fun p => (.ok (), p)).2
    Runs policy 1 unsteady p ∧
      p.stats.hits + p.stats.misses + p.stats.bypasses + 1 =
        p.store.history.countP Happening.isGet ∧
      p.stats.populated = 1 ∧ p.stats.invalidateFailures = 1 ∧ p.log.length = 2 := by
  intro policy p
  have hinner : ((unsteady.beginRead policy.recorded [1] true).2.beginRead policy.recorded [2]
      true).1 = .finished (.error (.lookup outage)) := by rfl
  have houter : (unsteady.beginRead policy.recorded [1] true).1 =
      .waiting ⟨[1], ⟨1, 0⟩, true⟩ := by rfl
  obtain ⟨n, hruns, hn⟩ : ∃ n, Runs policy n unsteady p ∧ n = 1 :=
    ⟨_, (Runs.readThrough [1] true (rowMeanwhile policy) houter rfl
      (.readHere [2] true noRows hinner)).andThen (.update [[3]] _ rfl (.idle _)),
      by decide +kernel⟩
  subst hn
  obtain ⟨hgets, -⟩ := books_balance policy _ hruns
  exact ⟨hruns, hgets, by decide +kernel⟩

end Pipeline

end CoherentCache
