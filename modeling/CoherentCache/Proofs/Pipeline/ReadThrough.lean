import CoherentCache.Pipeline.Script
import CoherentCache.Proofs.Pipeline.Asks

/-!
# Reading through a cache that fails

A read of one row looks its key up first.  The lookup shows a row, or no value, or it fails: because
the store did, or because the cached value is no row.  A row ends the read.  Otherwise the source is
asked, unless the lookup failed and the policy lets that fail the read.  What the source says is
then what the read gives.  The row is cached afterwards, if at all, and nothing depends on whether
that comes off.

* `Policy.shown` : what an answer of the cache shows.
* `fst_lookup` : what a lookup gives.
* `readThrough_served`, `readThrough_refused` : reads that do not ask the source.
* `readThrough_asked` : a read that asks the source, and the cache after it.
* `readThrough_despite_failures` : whatever fails in the cache, with the bypass and without it.
-/

namespace CoherentCache

namespace Pipeline

variable {σ ρ : Type}

/-- The row that an answer of the cache shows, `none` when it holds no value.  A value that is no
row is a failure, like that of the store. -/
def Policy.shown (policy : Policy σ ρ) :
    Except StoreError (Option Bytes) → Except StoreError (Option ρ)
  | .error e => .error e
  | .ok none => .ok none
  | .ok (some value) =>
    match policy.decode value with
    | .ok row => .ok (some row)
    | .error why => .error ⟨.serialization, why⟩

/-- What a read gives when the source was asked: the first row, if there is one. -/
def firstRow : Except Bytes (List ρ) → Except Failure (Option ρ)
  | .error text => .error (.source text)
  | .ok rows => .ok rows.head?

variable [RecordStore σ] (policy : Policy σ ρ) (p : Pipeline σ) (key : Bytes) (keep : Bool)

/-! ### The lookup -/

omit [RecordStore σ] in
theorem fst_degrade (e : StoreError) (cacheable : Bool) :
    (p.degrade policy key e cacheable).1 =
      if policy.bypass then .ok ⟨none, cacheable⟩ else .error (.lookup e) := by
  unfold degrade
  split <;> rfl

/-- A lookup gives what the answer of the cache shows.  With the bypass a failure passes for a
missing row, and a row from the source is not to be cached then if it was the store that failed. -/
theorem fst_lookup :
    (p.lookup policy key).1 =
      match policy.shown (p.cache.get key).1 with
      | .ok row => .ok ⟨row, true⟩
      | .error e =>
        if policy.bypass then .ok ⟨none, (p.cache.get key).1.isOk⟩ else .error (.lookup e) := by
  unfold lookup
  rcases p.cache.get key with ⟨e | _ | value, cache⟩
  · exact fst_degrade ..
  · rfl
  · simp only [Policy.shown]
    cases policy.decode value with
    | error why => exact fst_degrade ..
    | ok row => rfl

/-! ### The two halves -/

/-- The answer of the cache when a read looks its key up, and the cache after that. -/
def answered : Except StoreError (Option Bytes) × Cache σ := (p.readClock policy).2.cache.get key

/-- A read looks its key up and asks nothing else of the cache before it asks the source. -/
theorem cache_beginRead : (p.beginRead policy key keep).2.cache = (p.answered policy key).2 := by
  rw [answered, ← cache_lookup policy]
  simp only [beginRead]
  rcases (p.readClock policy).2.lookup policy key with ⟨f | ⟨_ | row, cacheable⟩, q⟩ <;> rfl

/-- The first half of a read ends it with the row that the lookup shows or with the failure that is
not bypassed.  Otherwise the source is to be asked. -/
theorem fst_beginRead :
    (p.beginRead policy key keep).1 =
      match policy.shown (p.answered policy key).1 with
      | .ok (some row) => .finished (.ok (some row))
      | .ok none => .waiting ⟨key, (p.readClock policy).1, keep⟩
      | .error e =>
        if policy.bypass then
          .waiting ⟨key, (p.readClock policy).1, keep && (p.answered policy key).1.isOk⟩
        else .finished (.error (.lookup e)) := by
  have hlookup := fst_lookup policy (p.readClock policy).2 key
  rw [← answered] at hlookup
  simp only [beginRead]
  generalize (p.readClock policy).2.lookup policy key = run at hlookup ⊢
  generalize policy.shown (p.answered policy key).1 = shown at hlookup ⊢
  obtain ⟨result, q⟩ := run
  rcases shown with e | _ | row
  · by_cases hbypass : policy.bypass
    · simp only [if_pos hbypass] at hlookup ⊢
      rw [hlookup]
    · simp only [if_neg hbypass] at hlookup ⊢
      rw [hlookup]
  · cases hlookup
    simp only [Bool.and_true]
  · cases hlookup
    rfl

/-- The second half of a read gives what the source said, whatever becomes of caching it. -/
theorem fst_endRead (ticket : ReadTicket) (fetched : Except Bytes (List ρ)) :
    (p.endRead policy ticket fetched).1 = firstRow fetched := by
  rcases fetched with text | _ | ⟨row, rest⟩
  · rfl
  · rfl
  · simp only [endRead]
    split <;> rfl

/-- A ticket that says not to cache leaves everything as the source left it. -/
theorem endRead_of_not_store {ticket : ReadTicket} (h : ticket.store = false)
    (fetched : Except Bytes (List ρ)) : (p.endRead policy ticket fetched).2 = p := by
  rcases fetched with text | _ | ⟨row, rest⟩
  · rfl
  · rfl
  · simp only [endRead]
    rw [if_neg (by simp [h])]

/-- A ticket that says to cache makes one set, of the first row and under the ticket's timestamp. -/
theorem cache_endRead_of_store {ticket : ReadTicket} (h : ticket.store = true)
    (fetched : Except Bytes (List ρ)) :
    (p.endRead policy ticket fetched).2.cache =
      match fetched with
      | .ok (row :: _) => (p.cache.set ticket.key (policy.encode row) ticket.ts).2
      | _ => p.cache := by
  rcases fetched with text | _ | ⟨row, rest⟩
  · rfl
  · rfl
  · simp only [endRead]
    rw [if_pos h]
    exact cache_storeRows policy p [(ticket.key, policy.encode row)] ticket.ts

/-! ### Whole reads -/

variable (fetch : Source σ (List ρ))

theorem readThrough_of_finished {result : Except Failure (Option ρ)}
    (h : (p.beginRead policy key keep).1 = .finished result) :
    p.readThrough policy key keep fetch = (result, (p.beginRead policy key keep).2) := by
  rcases hrun : p.beginRead policy key keep with ⟨half, q⟩
  rw [hrun] at h
  cases h
  simp only [readThrough, hrun]

theorem readThrough_of_waiting {ticket : ReadTicket}
    (h : (p.beginRead policy key keep).1 = .waiting ticket) :
    p.readThrough policy key keep fetch =
      (fetch (p.beginRead policy key keep).2).2.endRead policy ticket
        (fetch (p.beginRead policy key keep).2).1 := by
  rcases hrun : p.beginRead policy key keep with ⟨half, q⟩
  rw [hrun] at h
  cases h
  simp only [readThrough, hrun]

variable {policy p key}

/-- The cache shows a row: the read gives it. -/
theorem readThrough_served {row : ρ}
    (h : policy.shown (p.answered policy key).1 = .ok (some row)) :
    p.readThrough policy key keep fetch = (.ok (some row), (p.beginRead policy key keep).2) :=
  readThrough_of_finished policy p key keep fetch (by rw [fst_beginRead, h])

/-- The lookup fails and is not bypassed: the read fails. -/
theorem readThrough_refused {e : StoreError} (hbypass : policy.bypass = false)
    (h : policy.shown (p.answered policy key).1 = .error e) :
    p.readThrough policy key keep fetch =
      (.error (.lookup e), (p.beginRead policy key keep).2) :=
  readThrough_of_finished policy p key keep fetch (by simp [fst_beginRead, h, hbypass])

/-- With the bypass, a lookup that shows no row leads to the source.  A row from there is to be
cached if the caller wants that and the store answered the lookup. -/
theorem beginRead_waiting (hbypass : policy.bypass = true)
    (h : ∀ row, policy.shown (p.answered policy key).1 ≠ .ok (some row)) :
    (p.beginRead policy key keep).1 =
      .waiting ⟨key, (p.readClock policy).1, keep && (p.answered policy key).1.isOk⟩ := by
  rw [fst_beginRead]
  rcases hanswer : (p.answered policy key).1 with e | _ | value
  · simp [Policy.shown, hbypass]
  · simp [Policy.shown, Except.isOk, Except.toBool]
  · rw [hanswer] at h
    rcases hshown : policy.shown (.ok (some value)) with e | _ | row
    · simp [hbypass]
    · simp [Except.isOk, Except.toBool]
    · exact absurd hshown (h row)

/-- **The source is asked when the cache shows no row**, and the read gives what the source says.
One set is made afterwards, of the first row and with the timestamp taken before the lookup, and
none if the caller does not want it or the store failed the lookup. -/
theorem readThrough_asked (hbypass : policy.bypass = true)
    (h : ∀ row, policy.shown (p.answered policy key).1 ≠ .ok (some row)) :
    (p.readThrough policy key keep fetch).1 = firstRow (fetch (p.beginRead policy key keep).2).1 ∧
      (p.readThrough policy key keep fetch).2.cache =
        match keep && (p.answered policy key).1.isOk, (fetch (p.beginRead policy key keep).2).1 with
        | true, .ok (row :: _) =>
          ((fetch (p.beginRead policy key keep).2).2.cache.set key (policy.encode row)
            (p.readClock policy).1).2
        | _, _ => (fetch (p.beginRead policy key keep).2).2.cache := by
  rw [readThrough_of_waiting policy p key keep fetch (beginRead_waiting keep hbypass h)]
  refine ⟨fst_endRead .., ?_⟩
  cases hstore : keep && (p.answered policy key).1.isOk with
  | false => rw [endRead_of_not_store _ _ rfl]
  | true =>
    rw [cache_endRead_of_store _ _ rfl]
    rcases (fetch (p.beginRead policy key keep).2).1 with text | _ | ⟨row, rest⟩ <;> rfl

variable (policy p key)

/-- **A failing cache never changes what a read returns.**  Let `q` be the pipeline when the clock
has been read and the key looked up.  A row that the lookup shows is the result, and the source is
not asked.  With the bypass, any other lookup leads to the source, and the result is the first row
from there, whatever the set that follows comes to; the read fails only if the source did; and after
a failure of the store nothing is set.  Without the bypass, a lookup that fails ends the read. -/
theorem readThrough_despite_failures :
    ∃ q : Pipeline σ, q.cache = (p.answered policy key).2 ∧ ∀ fetch : Source σ (List ρ),
      (∀ row, policy.shown (p.answered policy key).1 = .ok (some row) →
        p.readThrough policy key keep fetch = (.ok (some row), q)) ∧
      (policy.bypass = true → (∀ row, policy.shown (p.answered policy key).1 ≠ .ok (some row)) →
        (p.readThrough policy key keep fetch).1 = firstRow (fetch q).1) ∧
      (policy.bypass = true → ∀ f, (p.readThrough policy key keep fetch).1 = .error f →
        (∀ row, policy.shown (p.answered policy key).1 ≠ .ok (some row)) ∧
          ∃ text, (fetch q).1 = .error text ∧ f = .source text) ∧
      (policy.bypass = true → ∀ e, (p.answered policy key).1 = .error e →
        (p.readThrough policy key keep fetch).2 = (fetch q).2) ∧
      (policy.bypass = false → ∀ e, policy.shown (p.answered policy key).1 = .error e →
        p.readThrough policy key keep fetch = (.error (.lookup e), q)) := by
  refine ⟨(p.beginRead policy key keep).2, cache_beginRead .., fun fetch =>
    ⟨fun row => readThrough_served keep fetch, fun hbypass h => (readThrough_asked keep fetch
      hbypass h).1, fun hbypass f hf => ?fails, fun hbypass e he => ?unset,
      fun hbypass e => readThrough_refused keep fetch hbypass⟩⟩
  case fails =>
    have hshown : ∀ row, policy.shown (p.answered policy key).1 ≠ .ok (some row) := by
      intro row hrow
      rw [readThrough_served keep fetch hrow] at hf
      cases hf
    refine ⟨hshown, ?_⟩
    rw [(readThrough_asked keep fetch hbypass hshown).1] at hf
    cases hsaid : (fetch (p.beginRead policy key keep).2).1 with
    | error text =>
      rw [hsaid] at hf
      cases hf
      exact ⟨text, rfl, rfl⟩
    | ok rows =>
      rw [hsaid] at hf
      cases hf
  case unset =>
    have hshown : ∀ row, policy.shown (p.answered policy key).1 ≠ .ok (some row) := by
      intro row
      rw [he]
      exact nofun
    rw [readThrough_of_waiting policy p key keep fetch (beginRead_waiting keep hbypass hshown)]
    refine endRead_of_not_store policy _ ?_ _
    simp [he, Except.isOk, Except.toBool]

/-- A pipeline on an empty store that fails as scheduled. -/
def onSchedule (schedule : List (Option StoreError)) : Pipeline Site :=
  .ofStore ⟨⟨⟨.empty {}, ⟨0⟩⟩, some schedule⟩, .stepping 1⟩

/-- A source with one row. -/
def oneRow : Source Site (List Row) := fun p => (.ok [⟨[49], [5]⟩], p)

/-- Once the store fails the lookup, and once it finds nothing and fails the set.  The row of the
source is returned either way.  Without the bypass the first read fails. -/
theorem readThrough_despite_failures_oneRow :
    ((onSchedule [some ⟨.unavailable, [7]⟩]).readThrough (Row.policy true true) [1] true oneRow).1 =
        .ok (some ⟨[49], [5]⟩) ∧
      ((onSchedule [none, some ⟨.unavailable, [7]⟩]).readThrough (Row.policy true true) [1] true
        oneRow).1 = .ok (some ⟨[49], [5]⟩) ∧
      ((onSchedule [some ⟨.unavailable, [7]⟩]).readThrough (Row.policy false true) [1] true
        oneRow).1 = .error (.lookup ⟨.unavailable, [7]⟩) := by
  have hfailed : ∀ bypass, (Row.policy bypass true).shown ((onSchedule
      [some ⟨.unavailable, [7]⟩]).answered (Row.policy bypass true) [1]).1 =
        .error ⟨.unavailable, [7]⟩ := fun _ => rfl
  have hmissed : (Row.policy true true).shown ((onSchedule
      [none, some ⟨.unavailable, [7]⟩]).answered (Row.policy true true) [1]).1 = .ok none := by
    rfl
  refine ⟨?_, ?_, ?_⟩
  · obtain ⟨q, -, hread⟩ := readThrough_despite_failures (Row.policy true true)
      (onSchedule [some ⟨.unavailable, [7]⟩]) [1] true
    obtain ⟨-, hasked, -⟩ := hread oneRow
    exact hasked rfl (fun row => by rw [hfailed]; exact nofun)
  · obtain ⟨q, -, hread⟩ := readThrough_despite_failures (Row.policy true true)
      (onSchedule [none, some ⟨.unavailable, [7]⟩]) [1] true
    obtain ⟨-, hasked, -⟩ := hread oneRow
    exact hasked rfl (fun row => by rw [hmissed]; exact nofun)
  · obtain ⟨q, -, hread⟩ := readThrough_despite_failures (Row.policy false true)
      (onSchedule [some ⟨.unavailable, [7]⟩]) [1] true
    obtain ⟨-, -, -, -, hrefused⟩ := hread oneRow
    rw [hrefused rfl _ (hfailed false)]

end Pipeline

end CoherentCache
