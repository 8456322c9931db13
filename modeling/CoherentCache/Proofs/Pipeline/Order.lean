import CoherentCache.Proofs.Pipeline.Activity

/-!
# In what order calls do things

The history of a run tells when the clock was read, when the source was asked and answered, and when
keys were read, cached and invalidated.  However calls are nested, what a call does by itself stands
together on either side of what happened while it waited for the source.  So it can be read off the
history that a row was cached by a call that had read the clock first, then asked the source, and
got the row in answer; and that an update had changed the source first, then read the clock, and
then invalidated its keys.

* `Happening.Fetching`, `Happening.Updating` : what one call has put on record.
* `Happening.Orderly` : every set is that of a call that asked the source before, and every update
  has invalidated its keys.
* `Pipeline.Course.keepsOrder` : **every run is orderly.**
* `Pipeline.readThrough_row`, `Pipeline.readThroughMany_row` : rows that are read were served by one
  of the lookups or answered by the source.
-/

namespace CoherentCache

open Cache (Ask)

variable {σ ρ : Type}

/-! ### Orderly histories -/

namespace Happening

/-- A key was read. -/
def IsLook : Happening → Prop
  | .executed _ .get _ => True
  | _ => False

/-- One of the forms was to be cached with the timestamp. -/
def Caches (forms : List Bytes) (ts : Timestamp) : Happening → Prop
  | .executed _ (.set value ts') _ => value ∈ forms ∧ ts' = ts
  | _ => False

/-- One of the keys was to be invalidated with the timestamp. -/
def Invalidates (keys : List Bytes) (ts : Timestamp) : Happening → Prop
  | .executed key (.invalidate ts') _ => key ∈ keys ∧ ts' = ts
  | _ => False

/-- A call that began after `older` is caching rows, newest first.  It has read the clock, looked
keys up and asked the source, and since the source answered it has cached nothing but forms of the
answer, with what the clock had shown. -/
def Fetching (older : List Happening) (ts : Timestamp) (forms : List Bytes)
    (before : List Happening) : Prop :=
  ∃ call sets during looks, call = (looks ++ .reading ts :: older).length ∧
    before = sets ++ .marked (.answered call (some forms)) ::
      (during ++ .marked (.asked call) :: (looks ++ .reading ts :: older)) ∧
    (∀ e ∈ sets, e.Caches forms ts) ∧ ∀ e ∈ looks, e.IsLook

/-- An update of the keys is over, newest first.  The change of the source had failed, or it had
returned, and since then the clock was read and every key invalidated with what it showed. -/
def Updating (keys : List Bytes) (before : List Happening) : Prop :=
  (∃ call rest, before = .marked (.answered call none) :: rest) ∨
    ∃ call ts invalidations rest,
      before = invalidations ++ .reading ts :: .marked (.answered call (some [])) :: rest ∧
      (∀ e ∈ invalidations, e.Invalidates keys ts) ∧
      ∀ key ∈ keys, ∃ result, .executed key (.invalidate ts) result ∈ invalidations

/-- It happened in its place.  A set belongs to a call that got the value from the source, and an
update that is over has done all that it does. -/
def InPlace (before : List Happening) : Happening → Prop
  | .executed _ (.set value ts) _ => ∃ older forms, Fetching older ts forms before ∧ value ∈ forms
  | .marked (.updated keys) => Updating keys before
  | _ => True

/-- Everything in the history, newest first, happened in its place. -/
def Orderly : List Happening → Prop
  | [] => True
  | e :: before => InPlace before e ∧ Orderly before

variable {before older happened : List Happening} {ts : Timestamp} {forms keys : List Bytes}

theorem Orderly.right (h : Orderly (happened ++ before)) : Orderly before := by
  induction happened with
  | nil => exact h
  | cons e rest ih => exact ih h.2

/-- What has no place of its own may happen anywhere. -/
theorem Orderly.append (h : Orderly before)
    (hfree : ∀ e ∈ happened, ∀ before, InPlace before e) : Orderly (happened ++ before) := by
  induction happened with
  | nil => exact h
  | cons e rest ih =>
    exact ⟨hfree e (List.mem_cons_self ..) _, ih fun e' he => hfree e' (List.mem_cons_of_mem _ he)⟩

theorem IsLook.inPlace {e : Happening} (h : e.IsLook) : InPlace before e := by
  rcases e with _ | ⟨_, _ | _ | _, _⟩ | _
  case executed.get => trivial
  all_goals exact h.elim

theorem Invalidates.inPlace {e : Happening} (h : e.Invalidates keys ts) : InPlace before e := by
  rcases e with _ | ⟨_, _ | _ | _, _⟩ | _
  case executed.invalidate => trivial
  all_goals exact h.elim

theorem Caches.forms_ne {e : Happening} (h : e.Caches forms ts) : forms ≠ [] := by
  rcases e with _ | ⟨_, _ | ⟨value, ts'⟩ | _, _⟩ | _
  case executed.set => exact List.ne_nil_of_mem h.1
  all_goals exact h.elim

/-- A call goes on caching forms of what it was answered. -/
theorem Fetching.cons (h : Fetching older ts forms before) {e : Happening}
    (he : e.Caches forms ts) : Fetching older ts forms (e :: before) := by
  obtain ⟨call, sets, during, looks, hcall, rfl, hsets, hlooks⟩ := h
  exact ⟨call, e :: sets, during, looks, hcall, rfl, List.forall_mem_cons.2 ⟨he, hsets⟩, hlooks⟩

theorem Caches.inPlace {e : Happening} (he : e.Caches forms ts)
    (h : Fetching older ts forms before) : InPlace before e := by
  rcases e with _ | ⟨_, _ | ⟨value, ts'⟩ | _, _⟩ | _
  case executed.set =>
    obtain ⟨hvalue, rfl⟩ := he
    exact ⟨older, forms, h, hvalue⟩
  all_goals exact he.elim

theorem Orderly.sets (h : Orderly before) (hfetching : Fetching older ts forms before)
    (hsets : ∀ e ∈ happened, e.Caches forms ts) : Orderly (happened ++ before) := by
  -- The call is still caching rows after each set, and so the next one is in place.
  suffices Fetching older ts forms (happened ++ before) ∧ Orderly (happened ++ before) from this.2
  induction happened with
  | nil => exact ⟨hfetching, h⟩
  | cons e rest ih =>
    obtain ⟨he, hrest⟩ := List.forall_mem_cons.1 hsets
    obtain ⟨hcaching, horderly⟩ := ih hrest
    exact ⟨hcaching.cons he, he.inPlace hcaching, horderly⟩

/-- Two histories that agree have the same first mark. -/
theorem eq_of_append_marked {own own' rest rest' : List Happening} {m m' : Mark}
    (hown : ∀ m, .marked m ∉ own) (hown' : ∀ m, .marked m ∉ own')
    (h : own ++ .marked m :: rest = own' ++ .marked m' :: rest') : own = own' := by
  induction own generalizing own' with
  | nil =>
    cases own' with
    | nil => rfl
    | cons e _ =>
      obtain rfl := (List.cons.inj h).1
      exact absurd (List.mem_cons_self ..) (hown' m)
  | cons e own ih =>
    cases own' with
    | nil =>
      obtain rfl := (List.cons.inj h).1
      exact absurd (List.mem_cons_self ..) (hown m')
    | cons e' own' =>
      obtain ⟨rfl, hrest⟩ := List.cons.inj h
      refine congrArg (e :: ·) (ih (fun m hm => ?_) (fun m hm => ?_) hrest)
      · exact hown m (List.mem_cons_of_mem _ hm)
      · exact hown' m (List.mem_cons_of_mem _ hm)

/-- What an update has done since the mark before its end, if that mark says that the source was
changed. -/
theorem Updating.own_eq {own rest : List Happening} {change : Nat}
    (h : Updating keys (own ++ .marked (.answered change (some [])) :: rest))
    (hown : ∀ m, .marked m ∉ own) :
    ∃ ts invalidations, own = invalidations ++ [.reading ts] ∧
      (∀ e ∈ invalidations, e.Invalidates keys ts) ∧
      ∀ key ∈ keys, ∃ result, .executed key (.invalidate ts) result ∈ invalidations := by
  rcases h with ⟨call, rest', heq⟩ | ⟨call, ts, invalidations, rest', heq, hinvalidates, hall⟩
  · -- The change of this one has failed, and that is the mark.
    have hfirst : own ++ _ = [] ++ .marked (.answered call none) :: rest' := heq
    obtain rfl : own = [] := eq_of_append_marked hown (by simp) hfirst
    cases heq
  · refine ⟨ts, invalidations, ?_, hinvalidates, hall⟩
    refine eq_of_append_marked hown (fun m hm => ?_) (heq.trans (List.append_cons ..))
    rcases List.mem_append.1 hm with hm | hm
    · exact hinvalidates _ hm
    · cases List.mem_singleton.1 hm

end Happening

open Happening (IsLook Caches Invalidates Fetching Updating InPlace Orderly)

/-! ### Operations on record -/

namespace Recorded

variable [RecordStore σ]

/-- The operations that are asked of a recorded store are put on record, each of them and no
others. -/
theorem history_foldl (r : Recorded σ) (asks : List Ask) :
    ∃ answers, (asks.foldl Ask.run r).history = answers ++ r.history ∧
      (∀ e ∈ answers, ∃ key op result, e = .executed key op result ∧ Ask.execute key op ∈ asks) ∧
      ∀ key op, Ask.execute key op ∈ asks → ∃ result, .executed key op result ∈ answers := by
  induction asks generalizing r with
  | nil => exact ⟨[], rfl, fun e he => (by cases he), fun key op h => (by cases h)⟩
  | cons ask rest ih =>
    obtain ⟨answers, hhistory, hanswers, hasked⟩ := ih (ask.run r)
    have hrest : ∀ e ∈ answers, ∃ key op result, e = .executed key op result ∧
        Ask.execute key op ∈ ask :: rest := by
      intro e he
      obtain ⟨key, op, result, rfl, hmem⟩ := hanswers e he
      exact ⟨key, op, result, rfl, List.mem_cons_of_mem _ hmem⟩
    cases ask with
    | inspect key =>
      refine ⟨answers, hhistory, hrest, fun key' op h => hasked key' op ?_⟩
      exact (List.mem_cons.1 h).resolve_left fun heq => by cases heq
    | execute key op =>
      refine ⟨answers ++ [.executed key op (RecordStore.execute r.inner key op).1], ?_, ?_, ?_⟩
      · rw [List.append_assoc]
        exact hhistory
      · intro e he
        rcases List.mem_append.1 he with he | he
        · exact hrest e he
        · obtain rfl := List.mem_singleton.1 he
          exact ⟨key, op, _, rfl, List.mem_cons_self ..⟩
      · intro key' op' h
        rcases List.mem_cons.1 h with heq | h
        · cases heq
          exact ⟨_, List.mem_append_right _ (List.mem_singleton.2 rfl)⟩
        · obtain ⟨result, hresult⟩ := hasked key' op' h
          exact ⟨result, List.mem_append_left _ hresult⟩

theorem history_looks (r : Recorded σ) {asks : List Ask} (hasks : ∀ ask ∈ asks, ask.IsRead) :
    ∃ looks, (asks.foldl Ask.run r).history = looks ++ r.history ∧ ∀ e ∈ looks, e.IsLook := by
  obtain ⟨looks, hhistory, hlooks, -⟩ := r.history_foldl asks
  refine ⟨looks, hhistory, fun e he => ?_⟩
  obtain ⟨key, op, result, rfl, hmem⟩ := hlooks e he
  obtain rfl : op = .get := hasks _ hmem
  trivial

theorem history_gets (r : Recorded σ) (keys : List Bytes) :
    ∃ looks, ((keys.map fun key => Ask.execute key .get).foldl Ask.run r).history =
        looks ++ r.history ∧ ∀ e ∈ looks, e.IsLook := by
  apply r.history_looks
  intro ask hask
  obtain ⟨key, -, rfl⟩ := List.mem_map.1 hask
  rfl

theorem history_sets (r : Recorded σ) {items : List (Bytes × Bytes)} {forms : List Bytes}
    (hitems : ∀ item ∈ items, item.2 ∈ forms) (ts : Timestamp) :
    ∃ sets, ((items.map fun item => Ask.execute item.1 (.set item.2 ts)).foldl Ask.run r).history =
        sets ++ r.history ∧ ∀ e ∈ sets, e.Caches forms ts := by
  obtain ⟨sets, hhistory, hsets, -⟩ :=
    r.history_foldl (items.map fun item => Ask.execute item.1 (.set item.2 ts))
  refine ⟨sets, hhistory, fun e he => ?_⟩
  obtain ⟨key, op, result, rfl, hmem⟩ := hsets e he
  obtain ⟨item, hitem, heq⟩ := List.mem_map.1 hmem
  cases heq
  exact ⟨hitems item hitem, rfl⟩

theorem history_invalidations (r : Recorded σ) (keys : List Bytes) (ts : Timestamp) :
    ∃ invalidations,
      ((keys.map fun key => Ask.execute key (.invalidate ts)).foldl Ask.run r).history =
        invalidations ++ r.history ∧ (∀ e ∈ invalidations, e.Invalidates keys ts) ∧
      ∀ key ∈ keys, ∃ result, .executed key (.invalidate ts) result ∈ invalidations := by
  obtain ⟨invalidations, hhistory, hinvalidates, hasked⟩ :=
    r.history_foldl (keys.map fun key => Ask.execute key (.invalidate ts))
  refine ⟨invalidations, hhistory, fun e he => ?_, fun key hkey => ?_⟩
  · obtain ⟨key, op, result, rfl, hmem⟩ := hinvalidates e he
    obtain ⟨_, hkey, heq⟩ := List.mem_map.1 hmem
    cases heq
    exact ⟨hkey, rfl⟩
  · exact hasked key _ (List.mem_map_of_mem hkey)

end Recorded

/-! ### Orderly calls -/

namespace Pipeline

/-- An orderly history has gone on and is still orderly. -/
def KeepsOrder (p q : Pipeline (Recorded σ)) : Prop :=
  Orderly p.store.history → p.store.history <:+ q.store.history ∧ Orderly q.store.history

variable {policy : Policy σ ρ} {p q r : Pipeline (Recorded σ)}

theorem KeepsOrder.trans (h : KeepsOrder p q) (h' : KeepsOrder q r) : KeepsOrder p r := by
  intro hp
  obtain ⟨hpq, hq⟩ := h hp
  obtain ⟨hqr, hr⟩ := h' hq
  exact ⟨hpq.trans hqr, hr⟩

theorem keepsOrder_of_append {happened : List Happening}
    (hhistory : q.store.history = happened ++ p.store.history)
    (hfree : ∀ e ∈ happened, ∀ before, InPlace before e) : KeepsOrder p q := by
  intro hp
  rw [hhistory]
  exact ⟨List.suffix_append .., hp.append hfree⟩

/-- A mark at the call and one at the answer, around what the source did. -/
theorem history_tracked {α : Type} {source : Source (Recorded σ) α}
    (hsource : ∀ q, KeepsOrder q (source q).2) (forms : α → List Bytes)
    (hp : Orderly p.store.history) :
    ∃ during, (source.tracked forms p).2.store.history =
        .marked (.answered p.store.history.length
            ((source.tracked forms p).1.toOption.map forms)) ::
          (during ++ .marked (.asked p.store.history.length) :: p.store.history) ∧
      p.store.history <:+ (source.tracked forms p).2.store.history ∧
      Orderly (during ++ .marked (.asked p.store.history.length) :: p.store.history) := by
  obtain ⟨hsuffix, horderly⟩ :=
    hsource (p.mark (.asked p.store.history.length)) ⟨trivial, hp⟩
  obtain ⟨during, hduring⟩ := hsuffix
  refine ⟨during, congrArg (List.cons _) hduring.symm, ?_, hduring ▸ horderly⟩
  exact ((List.suffix_cons ..).trans ⟨during, hduring⟩).trans (List.suffix_cons ..)

section Calls

variable [RecordStore σ]

theorem LooksUp.history (h : LooksUp policy.recorded p q) :
    ∃ looks, q.store.history =
        looks ++ .reading (p.store.read policy.clock).1 :: p.store.history ∧
      ∀ e ∈ looks, e.IsLook := by
  obtain ⟨keys, hstore⟩ := h
  rw [hstore]
  exact (p.store.read policy.clock).2.history_gets keys

theorem LooksUp.keepsOrder (h : LooksUp policy.recorded p q) : KeepsOrder p q := by
  obtain ⟨looks, hhistory, hlooks⟩ := h.history
  have hhappened : q.store.history =
      (looks ++ [.reading (p.store.read policy.clock).1]) ++ p.store.history :=
    hhistory.trans (List.append_cons ..)
  refine keepsOrder_of_append hhappened fun e he before => ?_
  rcases List.mem_append.1 he with he | he
  · exact (hlooks e he).inPlace
  · obtain rfl := List.mem_singleton.1 he
    trivial

/-- **A call that asks the source keeps order**: it reads the clock before it asks, and it caches
what it was answered. -/
theorem Fetches.keepsOrder {fetch : Source (Recorded σ) (List ρ)}
    (h : Fetches policy.recorded (fetch.tracked (List.map policy.encode)) p q)
    (hfetch : ∀ q, KeepsOrder q (fetch q).2) : KeepsOrder p q := by
  obtain ⟨asking, items, hlooksUp, hforms, hq⟩ := h
  intro hp
  obtain ⟨hpasking, hasking⟩ := hlooksUp.keepsOrder hp
  obtain ⟨looks, hlooked, hlooks⟩ := hlooksUp.history
  obtain ⟨during, hanswered, hsuffix, hduring⟩ :=
    history_tracked hfetch (List.map policy.encode) hasking
  obtain ⟨sets, hcached, hsets⟩ :=
    (fetch.tracked (List.map policy.encode) asking).2.store.history_sets hforms
      (p.store.read policy.clock).1
  have hhistory : q.store.history = sets ++ _ := (congrArg Recorded.history hq).trans hcached
  refine ⟨(hpasking.trans hsuffix).trans (hhistory ▸ List.suffix_append ..), ?_⟩
  rw [hhistory, hanswered]
  cases hfetched : (fetch.tracked (List.map policy.encode) asking).1 with
  | error text =>
    -- Nothing is cached when the source has failed.
    rw [hfetched] at hsets
    have hnone : sets = [] := List.eq_nil_iff_forall_not_mem.2 fun e he => (hsets e he).forms_ne rfl
    rw [hnone]
    exact ⟨trivial, hduring⟩
  | ok rows =>
    rw [hfetched] at hsets
    have hfetching : Fetching p.store.history (p.store.read policy.clock).1
        (rows.map policy.encode)
        (.marked (.answered asking.store.history.length (some (rows.map policy.encode))) ::
          (during ++ .marked (.asked asking.store.history.length) :: asking.store.history)) :=
      ⟨_, [], during, looks, congrArg List.length hlooked, by rw [← hlooked]; rfl,
        fun e he => (by cases he), hlooks⟩
    exact Orderly.sets ⟨trivial, hduring⟩ hfetching hsets

/-- **An update keeps order**: it has changed the source when it reads the clock, and it invalidates
all of its keys. -/
theorem keepsOrder_update {mutate : Source (Recorded σ) Unit}
    (hmutate : ∀ q, KeepsOrder q (mutate q).2) (keys : List Bytes) (p : Pipeline (Recorded σ)) :
    KeepsOrder p ((p.update policy.recorded keys (mutate.tracked fun _ => [])).2.mark
      (.updated keys)) := by
  intro hp
  obtain ⟨during, hanswered, hsuffix, hduring⟩ := history_tracked hmutate (fun _ => []) hp
  have hupdate := store_update policy.recorded p keys (mutate.tracked fun _ => [])
  generalize p.update policy.recorded keys (mutate.tracked fun _ => []) = run at hupdate ⊢
  rcases hrun : mutate.tracked (fun _ => []) p with ⟨text | _, q⟩
  · -- The change failed, and the update has done no more.
    rw [hrun] at hupdate hanswered hsuffix
    have hhistory : run.2.store.history = _ := (congrArg Recorded.history hupdate).trans hanswered
    have horderly : Orderly run.2.store.history := by
      rw [hhistory]
      exact ⟨trivial, hduring⟩
    have hafter : p.store.history <:+ run.2.store.history := by
      rw [hhistory, ← hanswered]
      exact hsuffix
    exact ⟨hafter.trans (List.suffix_cons ..), Or.inl ⟨_, _, hhistory⟩, horderly⟩
  · rw [hrun] at hupdate hanswered hsuffix
    obtain ⟨invalidations, hinvalidated, hinvalidates, hall⟩ :=
      (q.store.read policy.clock).2.history_invalidations keys (q.store.read policy.clock).1
    have hhistory : run.2.store.history =
        invalidations ++ .reading (q.store.read policy.clock).1 :: q.store.history :=
      (congrArg Recorded.history hupdate).trans hinvalidated
    have hafter : p.store.history <:+ run.2.store.history := by
      rw [hhistory]
      exact (hsuffix.trans (List.suffix_cons ..)).trans (List.suffix_append ..)
    rw [show q.store.history = _ from hanswered] at hhistory
    have horderly : Orderly run.2.store.history := by
      rw [hhistory]
      exact Orderly.append ⟨trivial, trivial, hduring⟩ fun e he _ => (hinvalidates e he).inPlace
    exact ⟨hafter.trans (List.suffix_cons ..),
      Or.inr ⟨_, _, invalidations, _, hhistory, hinvalidates, hall⟩, horderly⟩

end Calls

/-! ### Orderly runs -/

variable [MemoryBacked σ]

/-- Looks at the cache have no place of their own. -/
theorem keepsOrder_others {s : MemoryStore.Step} (hs : s.Writeless)
    (p : Pipeline (Recorded σ)) :
    KeepsOrder p { p with cache := (MemoryStore.step p.cache s).2 } := by
  cases s with
  | call c =>
    obtain ⟨looks, hhistory, hlooks⟩ := p.store.history_looks hs
    have hstore : (p.cache.call c).2.store = _ := Cache.store_call p.cache c
    have hhappened : (p.cache.call c).2.store.history = looks ++ p.store.history :=
      (congrArg Recorded.history hstore).trans hhistory
    simp only [MemoryStore.step]
    exact keepsOrder_of_append hhappened fun e he _ => (hlooks e he).inPlace
  | overwrite key fields => exact hs.elim
  | sweep | advance | counters =>
    have hnothing : p.store.history = [] ++ p.store.history := rfl
    exact keepsOrder_of_append hnothing fun e he => (by cases he)

/-- **A run is orderly.** -/
theorem Course.keepsOrder (h : Course policy p q) : KeepsOrder p q :=
  h.relates (fun _ hp => ⟨List.suffix_refl _, hp⟩) (fun h h' => h.trans h')
    (fun p _ hs => keepsOrder_others hs p) (fun h => h.keepsOrder)
    (fun hfetch h => h.keepsOrder hfetch) fun hmutate keys p => keepsOrder_update hmutate keys p

end Pipeline

/-! ### Rows that are read -/

/-- A row was served from the cache under a key. -/
def Happening.Serves (policy : Pipeline.Policy σ ρ) (key : Bytes) (row : ρ) (e : Happening) :
    Prop :=
  ∃ answer value, e = .executed key .get (.ok answer) ∧ answer.value = some value ∧
    policy.decode value = .ok row

namespace Pipeline

/-- The clock was read since `p`, and a lookup after that was served the row under the key. -/
def ServedSince (policy : Policy σ ρ) (p q : Pipeline (Recorded σ)) (key : Bytes) (row : ρ) :
    Prop :=
  ∃ (ts : Timestamp) (looks : List Happening),
    q.store.history = looks ++ .reading ts :: p.store.history ∧
      ∃ hit ∈ looks, hit.Serves policy key row

variable [RecordStore σ] {policy : Policy σ ρ} {p : Pipeline (Recorded σ)} {key : Bytes} {row : ρ}

theorem fst_beginReadMany (policy : Policy σ ρ) (p : Pipeline σ) (keys : List Bytes) (keep : Bool) :
    (p.beginReadMany policy keys keep).1 =
      match ((p.readClock policy).2.lookupAll policy keep keys).1 with
      | .error f => .finished (.error f)
      | .ok wanted =>
        if (ManyTicket.mk wanted (p.readClock policy).1).missing.isEmpty then
          .finished (.ok (wanted.map (·.row)))
        else .waiting ⟨wanted, (p.readClock policy).1⟩ := by
  simp only [beginReadMany]
  rcases (p.readClock policy).2.lookupAll policy keep keys with ⟨f | wanted, q⟩
  · rfl
  · simp only
    split <;> rfl

theorem snd_beginReadMany (policy : Policy σ ρ) (p : Pipeline σ) (keys : List Bytes) (keep : Bool) :
    (p.beginReadMany policy keys keep).2 =
      ((p.readClock policy).2.lookupAll policy keep keys).2 := by
  simp only [beginReadMany]
  rcases (p.readClock policy).2.lookupAll policy keep keys with ⟨f | wanted, q⟩
  · rfl
  · simp only
    split <;> rfl

omit [RecordStore σ] in
theorem exists_of_shown {answer : Except StoreError (Option Bytes)}
    (h : policy.shown answer = .ok (some row)) :
    ∃ value, answer = .ok (some value) ∧ policy.decode value = .ok row := by
  rcases answer with e | _ | value
  · cases h
  · cases h
  · refine ⟨value, rfl, ?_⟩
    simp only [Policy.shown] at h
    split at h
    · next row' hdecode =>
      cases h
      exact hdecode
    · cases h

/-- A lookup that finds a row was served it. -/
theorem lookup_hit (policy : Policy σ ρ) (p : Pipeline (Recorded σ)) (key : Bytes) (row : ρ)
    (cacheable : Bool)
    (hfound : (p.lookup policy.recorded key).1 = .ok ⟨some row, cacheable⟩) :
    ∃ hit : Happening, hit.Serves policy key row ∧
      (p.lookup policy.recorded key).2.store.history = hit :: p.store.history := by
  have hshown : policy.shown (p.cache.get key).1 = .ok (some row) := by
    rw [fst_lookup] at hfound
    rcases hshown : policy.recorded.shown (p.cache.get key).1 with e | found
    · rw [hshown] at hfound
      simp only at hfound
      split at hfound <;> cases hfound
    · rw [hshown] at hfound
      cases hfound
      exact hshown
  obtain ⟨value, hget, hdecode⟩ := exists_of_shown hshown
  rw [show (p.cache.get key).1 = (RecordStore.execute p.store.inner key .get).1.map Answer.value
    from Cache.perform_fst ..] at hget
  rw [store_lookup]
  refine ⟨.executed key .get (RecordStore.execute p.store.inner key .get).1, ?_, rfl⟩
  rcases hanswer : (RecordStore.execute p.store.inner key .get).1 with e | answer
  · rw [hanswer] at hget
    cases hget
  · rw [hanswer] at hget
    exact ⟨answer, value, rfl, Except.ok.inj hget, hdecode⟩

/-- The rows that lookups find were served by them. -/
theorem lookupAll_hits {keep : Bool} {keys : List Bytes} {wanted : List (Wanted ρ)}
    (h : (p.lookupAll policy.recorded keep keys).1 = .ok wanted) :
    wanted.map (·.key) = keys ∧
      ∃ looks, (p.lookupAll policy.recorded keep keys).2.store.history =
          looks ++ p.store.history ∧
        ∀ w ∈ wanted, ∀ row, w.row = some row → ∃ hit ∈ looks, hit.Serves policy w.key row := by
  induction keys generalizing p wanted with
  | nil =>
    cases h
    exact ⟨rfl, [], rfl, fun w hw => (by cases hw)⟩
  | cons key rest ih =>
    have hlookup := store_lookup policy.recorded p key
    have hfound := lookup_hit policy p key
    unfold lookupAll at h ⊢
    rcases hfirst : p.lookup policy.recorded key with ⟨f | ⟨found, cacheable⟩, q⟩
    · rw [hfirst] at h
      cases h
    · rw [hfirst] at h hlookup hfound
      obtain ⟨e, hq⟩ : ∃ e, q.store.history = e :: p.store.history :=
        ⟨_, congrArg Recorded.history hlookup⟩
      simp only at h ⊢
      rcases hrest : q.lookupAll policy.recorded keep rest with ⟨f | wanted', q'⟩
      · rw [hrest] at h
        cases h
      · rw [hrest] at h
        cases h
        obtain ⟨hkeys, later, hlater, hhits⟩ := ih (congrArg Prod.fst hrest)
        rw [hrest, hq] at hlater
        refine ⟨congrArg (key :: ·) hkeys, later ++ [e], ?_, ?_⟩
        · rw [List.append_assoc]
          exact hlater
        · rintro w hw row hrow
          rcases List.mem_cons.1 hw with rfl | hw
          · -- The one thing that this lookup put on record is what it was served.
            obtain ⟨hit, hserves, hhit⟩ := hfound row cacheable (by rw [← hrow])
            rw [hq] at hhit
            obtain rfl := (List.cons.inj hhit).1
            exact ⟨e, by simp, hserves⟩
          · obtain ⟨hit, hmem, hserves⟩ := hhits w hw row hrow
            exact ⟨hit, List.mem_append_left _ hmem, hserves⟩

/-- A read that ends with a row before the source is asked was served it by the lookup. -/
theorem beginRead_hit {keep : Bool}
    (h : (p.beginRead policy.recorded key keep).1 = .finished (.ok (some row))) :
    ∃ hit : Happening, hit.Serves policy key row ∧
      (p.beginRead policy.recorded key keep).2.store.history =
        hit :: .reading (p.store.read policy.clock).1 :: p.store.history := by
  have hfound := lookup_hit policy (p.readClock policy.recorded).2 key
  simp only [beginRead] at h ⊢
  rcases hrun : (p.readClock policy.recorded).2.lookup policy.recorded key with
    ⟨f | ⟨_ | row', cacheable⟩, q⟩
  · rw [hrun] at h
    cases h
  · rw [hrun] at h
    cases h
  · rw [hrun] at h hfound
    cases h
    exact hfound row cacheable rfl

/-- **A row that is read** was served by the lookup, or it is the first that the source answered. -/
theorem readThrough_row {keep : Bool} {fetch : Source (Recorded σ) (List ρ)}
    (h : (p.readThrough policy.recorded key keep fetch).1 = .ok (some row)) :
    ServedSince policy p (p.beginRead policy.recorded key keep).2 key row ∨
      ∃ rows, (fetch (p.beginRead policy.recorded key keep).2).1 = .ok (row :: rows) := by
  cases hhalf : (p.beginRead policy.recorded key keep).1 with
  | finished result =>
    rw [readThrough_of_finished policy.recorded p key keep fetch hhalf] at h
    obtain rfl : result = .ok (some row) := h
    obtain ⟨hit, hserves, hhistory⟩ := beginRead_hit hhalf
    exact Or.inl ⟨_, [hit], hhistory, hit, List.mem_cons_self .., hserves⟩
  | waiting ticket =>
    rw [readThrough_of_waiting policy.recorded p key keep fetch hhalf, fst_endRead] at h
    generalize (fetch (p.beginRead policy.recorded key keep).2).1 = fetched at h ⊢
    rcases fetched with text | _ | ⟨row', rows⟩
    · cases h
    · cases h
    · cases h
      exact Or.inr ⟨rows, rfl⟩

omit [RecordStore σ] in
theorem mem_of_mem_zip {keys : List Bytes} {wanted : List (Wanted ρ)} {rowOf : Wanted ρ → Option ρ}
    (hkeys : wanted.map (·.key) = keys) (h : (key, some row) ∈ keys.zip (wanted.map rowOf)) :
    ∃ w ∈ wanted, w.key = key ∧ rowOf w = some row := by
  rw [← hkeys, List.zip_map'] at h
  obtain ⟨w, hw, heq⟩ := List.mem_map.1 h
  obtain ⟨hkey, hrow⟩ := Prod.mk.inj heq
  exact ⟨w, hw, hkey, hrow⟩

/-- **Rows that are read together** were served by the lookups, or the source answered them when it
was asked for the keys that were missing. -/
theorem readThroughMany_row {keep : Bool} {keys : List Bytes} {rows : List (Option ρ)}
    {fetch : List Bytes → Source (Recorded σ) (List ρ)}
    (h : (p.readThroughMany policy.recorded keys keep fetch).1 = .ok rows)
    (hrow : (key, some row) ∈ keys.zip rows) :
    ServedSince policy p (p.beginReadMany policy.recorded keys keep).2 key row ∨
      ∃ ticket fetched, (p.beginReadMany policy.recorded keys keep).1 = .waiting ticket ∧
        (fetch ticket.missing (p.beginReadMany policy.recorded keys keep).2).1 = .ok fetched ∧
        fetched.find? (fun row => policy.keyOf row = key) = some row := by
  rcases hlookups : ((p.readClock policy.recorded).2.lookupAll policy.recorded keep keys).1 with
    f | wanted
  · have hhalf : (p.beginReadMany policy.recorded keys keep).1 = .finished (.error f) := by
      rw [fst_beginReadMany, hlookups]
    rw [readThroughMany_of_finished _ p keys keep fetch hhalf] at h
    cases h
  · obtain ⟨hkeys, looks, hhistory, hhits⟩ := lookupAll_hits hlookups
    rw [← snd_beginReadMany] at hhistory
    have hserved : ∀ w ∈ wanted, w.row = some row →
        ServedSince policy p (p.beginReadMany policy.recorded keys keep).2 w.key row :=
      fun w hw hrow => ⟨_, looks, hhistory, hhits w hw row hrow⟩
    let ticket : ManyTicket ρ := ⟨wanted, (p.readClock policy.recorded).1⟩
    cases hnone : ticket.missing.isEmpty with
    | true =>
      have hhalf : (p.beginReadMany policy.recorded keys keep).1 =
          .finished (.ok (wanted.map (·.row))) := by
        rw [fst_beginReadMany, hlookups]
        exact if_pos hnone
      rw [readThroughMany_of_finished _ p keys keep fetch hhalf] at h
      cases h
      obtain ⟨w, hw, rfl, hw'⟩ := mem_of_mem_zip hkeys hrow
      exact Or.inl (hserved w hw hw')
    | false =>
      have hhalf : (p.beginReadMany policy.recorded keys keep).1 = .waiting ticket := by
        rw [fst_beginReadMany, hlookups]
        exact if_neg (Bool.eq_false_iff.1 hnone)
      rw [readThroughMany_of_waiting _ p keys keep fetch hhalf] at h
      rcases hfetched : (fetch ticket.missing
        (p.beginReadMany policy.recorded keys keep).2).1 with text | fetched
      · rw [hfetched] at h
        cases h
      · rw [hfetched] at h
        cases h
        obtain ⟨w, hw, rfl, hresolve⟩ := mem_of_mem_zip hkeys hrow
        -- The cache had the row for the key, or else the rows of the source were searched for it.
        cases hw' : w.row with
        | some row' =>
          rw [Wanted.resolve, hw'] at hresolve
          cases hresolve
          exact Or.inl (hserved w hw hw')
        | none =>
          rw [Wanted.resolve, hw'] at hresolve
          exact Or.inr ⟨ticket, fetched, hhalf, hfetched, hresolve⟩

end Pipeline

end CoherentCache
