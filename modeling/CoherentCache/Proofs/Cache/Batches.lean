import CoherentCache.Cache

/-!
# Batches are their single calls

A batch runs one call for each item, each on the cache that the calls before it left, and goes on
past failures.  What its caller is handed is filled in as the calls come back: a place for each
result, a place for each error, and one error for the batch as a whole, which is the first that
takes the place of none.  The places stay in line with the items, whatever fails.

* `Cache.stepped` : the cache after single calls.
* `Cache.snd_forEach`, `Cache.getElem?_forEach` : **a batch leaves what the single calls leave, and
  its answers are theirs, place by place.**
* `Cache.forEach_keeps` : what every single call keeps, a batch keeps.
* `Cache.Handout`, `Cache.fill` : what the caller of a batch is handed, and how it is filled in.
* `Cache.fill_eq` : **the places stay in line.**
* `Cache.firstError_eq_head?` : the error of a batch is that of its first call that failed.
* `Cache.OneByOne`, `Cache.oneByOne_forEach` : all of this, for any kind of call.
-/

namespace CoherentCache

/-- An error that says that there is none. -/
def StoreError.nothing : StoreError := ⟨.none, []⟩

namespace Cache

variable {σ α β : Type}

/-! ### One call after another -/

section Steps

variable (step : Cache σ → α → β × Cache σ)

/-- The cache after a call for each item, one after another. -/
def stepped (c : Cache σ) (items : List α) : Cache σ :=
  items.foldl (fun c item => (step c item).2) c

/-- **A batch leaves what its single calls leave.** -/
theorem snd_forEach (c : Cache σ) (items : List α) :
    (c.forEach step items).2 = stepped step c items := by
  induction items generalizing c with
  | nil => rfl
  | cons item rest ih => exact ih (step c item).2

theorem length_forEach (c : Cache σ) (items : List α) :
    (c.forEach step items).1.length = items.length := by
  induction items generalizing c with
  | nil => rfl
  | cons item rest ih => exact congrArg (· + 1) (ih (step c item).2)

/-- **The answer in each place is that of a single call**, on the cache that the calls for the items
before it left. -/
theorem getElem?_forEach (c : Cache σ) (items : List α) (place : Nat) :
    (c.forEach step items).1[place]? =
      items[place]?.map fun item => (step (stepped step c (items.take place)) item).1 := by
  induction items generalizing c place with
  | nil => rfl
  | cons item rest ih =>
    cases place with
    | zero => rfl
    | succ place => exact ih (step c item).2 place

variable {step}

/-- What every single call keeps, a batch keeps, and its answers are as good as theirs. -/
theorem forEach_keeps {P : Cache σ → Prop} {Q : β → Prop} {c : Cache σ} {items : List α}
    (hstep : ∀ c, ∀ item ∈ items, P c → Q (step c item).1 ∧ P (step c item).2) (hc : P c) :
    (∀ answer ∈ (c.forEach step items).1, Q answer) ∧ P (c.forEach step items).2 := by
  induction items generalizing c with
  | nil => exact ⟨List.forall_mem_nil _, hc⟩
  | cons item rest ih =>
    obtain ⟨hfirst, hkept⟩ := hstep c item List.mem_cons_self hc
    obtain ⟨hrest, hafter⟩ :=
      ih (fun c item hitem => hstep c item (List.mem_cons_of_mem _ hitem)) hkept
    exact ⟨List.forall_mem_cons.2 ⟨hfirst, hrest⟩, hafter⟩

end Steps

/-! ### What the caller is handed -/

/-- The error of a call that failed. -/
def errorOf? : Except StoreError β → Option StoreError
  | .error e => some e
  | .ok _ => none

/-- What stands in the place of the error of a call. -/
def errorOf (answer : Except StoreError β) : StoreError := (errorOf? answer).getD .nothing

/-- The error of a batch after one more call: an error takes the place of one of kind `none`. -/
def keep (first : StoreError) : Except StoreError β → StoreError
  | .error e => if first.kind = .none then e else first
  | .ok _ => first

/-- What the caller of a batch is handed. -/
structure Handout (β : Type) where
  /-- The results, in the places of the items; `none` where a call failed. -/
  results : List (Option β)
  /-- The errors, in the places of the items. -/
  errors : List StoreError
  /-- The error of the batch as a whole. -/
  first : StoreError

namespace Handout

/-- Nothing is filled in yet.  There is a place for the error of each item, and the error of the
batch is what its caller put there. -/
def blank (size : Nat) (first : StoreError) : Handout β :=
  ⟨[], List.replicate size .nothing, first⟩

/-- The answer of the item at a place is filled in. -/
def put (h : Handout β) (place : Nat) : Except StoreError β → Handout β
  | .ok result => { h with results := h.results ++ [some result] }
  | .error e => ⟨h.results ++ [none], h.errors.set place e, keep h.first (.error e : Except _ β)⟩

end Handout

/-- Makes a call for each item, `place` being that of the first, and fills in the answers. -/
def fill (step : Cache σ → α → Except StoreError β × Cache σ) :
    (place : Nat) → Handout β → Cache σ → List α → Handout β × Cache σ
  | _, h, c, [] => (h, c)
  | place, h, c, item :: rest =>
    let (answer, c) := step c item
    fill step (place + 1) (h.put place answer) c rest

theorem put_eq (results : List (Option β)) (before : List StoreError) (size : Nat)
    (first : StoreError) (answer : Except StoreError β) :
    Handout.put ⟨results, before ++ List.replicate (size + 1) .nothing, first⟩ before.length
        answer =
      ⟨results ++ [answer.toOption], (before ++ [errorOf answer]) ++ List.replicate size .nothing,
        keep first answer⟩ := by
  cases answer with
  | ok result =>
    simp [Handout.put, Except.toOption, errorOf, errorOf?, keep, List.replicate_succ]
  | error e =>
    simp [Handout.put, Except.toOption, errorOf, errorOf?, List.replicate_succ]

/-- **The places stay in line.**  With the answers of the items before filled in already, the
answers of a batch fill the places after them. -/
theorem fill_eq (step : Cache σ → α → Except StoreError β × Cache σ) (c : Cache σ)
    (items : List α) (results : List (Option β)) (before : List StoreError) (first : StoreError) :
    fill step before.length
        ⟨results, before ++ List.replicate items.length .nothing, first⟩ c items =
      (⟨results ++ (c.forEach step items).1.map Except.toOption,
          before ++ (c.forEach step items).1.map errorOf,
          (c.forEach step items).1.foldl keep first⟩,
        (c.forEach step items).2) := by
  induction items generalizing c results before first with
  | nil => simp [fill, forEach]
  | cons item rest ih =>
    have hrest := ih (step c item).2 (results ++ [(step c item).1.toOption])
      (before ++ [errorOf (step c item).1]) (keep first (step c item).1)
    rw [List.length_append, List.length_singleton] at hrest
    -- The answers before take up their places, so this one goes to the first that is left.
    simp only [fill, List.length_cons]
    rw [put_eq, hrest]
    simp [forEach]

/-! ### The error of a batch -/

/-- An error that is kept gives way to no other. -/
theorem foldl_keep_of_kind {first : StoreError} (h : first.kind ≠ .none)
    (answers : List (Except StoreError β)) : answers.foldl keep first = first := by
  induction answers with
  | nil => rfl
  | cons answer rest ih =>
    have hkept : keep first answer = first := by
      cases answer with
      | ok result => rfl
      | error e => exact if_neg h
    rw [List.foldl_cons, hkept, ih]

/-- **The error of a batch is that of its first call that failed**, and without one it stays as it
was. -/
theorem foldl_keep {first : StoreError} (hfirst : first.kind = .none)
    {answers : List (Except StoreError β)} (h : ∀ e, .error e ∈ answers → e.kind ≠ .none) :
    answers.foldl keep first = ((answers.filterMap errorOf?).head?).getD first := by
  induction answers with
  | nil => rfl
  | cons answer rest ih =>
    have hrest := ih fun e he => h e (List.mem_cons_of_mem _ he)
    cases answer with
    | ok result => exact hrest
    | error e =>
      have hkept : keep first (.error e : Except _ β) = e := if_pos hfirst
      rw [List.foldl_cons, hkept, foldl_keep_of_kind (h e List.mem_cons_self)]
      rfl

theorem foldl_keepFirst_some {first : StoreError} (h : first.kind ≠ .none)
    (answers : List (Except StoreError β)) :
    answers.foldl firstError.keepFirst (some first) = some first := by
  induction answers with
  | nil => rfl
  | cons answer rest ih =>
    have hkept : firstError.keepFirst (some first) answer = some first := by
      cases answer with
      | ok result => rfl
      | error e => exact if_neg h
    rw [List.foldl_cons, hkept, ih]

/-- The same, with no error to begin with. -/
theorem firstError_eq_head? {answers : List (Except StoreError β)}
    (h : ∀ e, .error e ∈ answers → e.kind ≠ .none) :
    firstError answers = (answers.filterMap errorOf?).head? := by
  unfold firstError
  induction answers with
  | nil => rfl
  | cons answer rest ih =>
    have hrest := ih fun e he => h e (List.mem_cons_of_mem _ he)
    cases answer with
    | ok result => exact hrest
    | error e => exact foldl_keepFirst_some (h e List.mem_cons_self) rest

/-! ### Batches of all kinds -/

/-- The batch is the single calls, one after another. -/
structure OneByOne (step : Cache σ → α → Except StoreError β × Cache σ) (c : Cache σ)
    (items : List α) (batch : List (Except StoreError β) × Cache σ) : Prop where
  /-- It leaves what they leave. -/
  cache_eq : batch.2 = stepped step c items
  /-- There is one answer for each item. -/
  length_eq : batch.1.length = items.length
  /-- Each answer is that of the single call, which finds what the ones before it left. -/
  answer_eq : ∀ place item, items[place]? = some item →
    batch.1[place]? = some (step (stepped step c (items.take place)) item).1
  /-- The caller is handed these answers in the places of the items: a result where there is one,
  and an error of kind `none` just there; an error where the call failed.  The error of the batch,
  which was of kind `none`, is that of the first call that failed, if one did. -/
  handout : ∀ first : StoreError, first.kind = .none →
    (∀ e, .error e ∈ batch.1 → e.kind ≠ .none) →
    let (handed, c') := fill step 0 (.blank items.length first) c items
    c' = batch.2 ∧ handed.results = batch.1.map Except.toOption ∧
      handed.errors.length = items.length ∧
      (∀ (place : Nat) (answer : Except StoreError β), batch.1[place]? = some answer →
        ∃ e, handed.errors[place]? = some e ∧ (e.kind = .none ↔ answer.toOption.isSome) ∧
          ∀ e', answer = .error e' → e = e') ∧
      handed.first = ((batch.1.filterMap errorOf?).head?).getD first ∧
      firstError batch.1 = (batch.1.filterMap errorOf?).head?

/-- **Every batch is its single calls**, one after another. -/
theorem oneByOne_forEach (step : Cache σ → α → Except StoreError β × Cache σ) (c : Cache σ)
    (items : List α) : OneByOne step c items (c.forEach step items) where
  cache_eq := snd_forEach step c items
  length_eq := length_forEach step c items
  answer_eq place item hitem := by
    rw [getElem?_forEach, hitem]
    rfl
  handout first hfirst hkinds := by
    have hfill := fill_eq step c items [] [] first
    rw [List.nil_append, List.nil_append, List.nil_append] at hfill
    rw [Handout.blank, show fill step 0 _ c items = _ from hfill]
    refine ⟨rfl, rfl, ?_, fun place answer hanswer => ?_, foldl_keep hfirst hkinds,
      firstError_eq_head? hkinds⟩
    · rw [List.length_map, length_forEach]
    · refine ⟨errorOf answer, by rw [List.getElem?_map, hanswer]; rfl, ?_⟩
      cases answer with
      | ok result => exact ⟨by simp [errorOf, errorOf?, StoreError.nothing, Except.toOption],
          by rintro e ⟨⟩⟩
      | error e =>
        have hkind := hkinds e (List.mem_of_getElem? hanswer)
        exact ⟨by simpa [errorOf, errorOf?, Except.toOption] using hkind, by rintro e' ⟨⟩; rfl⟩

end Cache

end CoherentCache
