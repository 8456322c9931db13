import CoherentCache.Proofs.Cache.Batches
import CoherentCache.Proofs.Server.Sequential
import CoherentCache.Store.Faulty

/-!
# A request for several values and the requests for each of them

A client may store several values with one request, or each of them with a request of its own.  Both
ways the cache makes the same calls in the same order, so the store ends up the same, and the one
reply holds the replies to the single requests, also where some of them are failures.  A timestamp
that is not normal is refused both ways, and nothing is stored.

* `Service.answers` : requests that are served one after another.
* `Service.setWords`, `Service.setAllWords` : the two kinds of request.
* `Service.answers_sets`, `Service.answer_setAll` : both make the calls of one batch.
* `batches_one_by_one` : **every batch is its single calls, in the cache and through the server.**
-/

namespace CoherentCache

/-! ### What the words ask for -/

namespace Command

theorem pairs?_flatMap (items : List (Bytes × Bytes)) :
    pairs? (items.flatMap fun item => [item.1, item.2]) = some items := by
  induction items with
  | nil => rfl
  | cons item rest ih =>
    change (pairs? (rest.flatMap fun item => [item.1, item.2])).map (item :: ·) = _
    rw [ih]
    rfl

/-- What a request with arguments asks for depends on the name only through the command it
names. -/
theorem parse_of_verb {name : Bytes} {verb : Verb} (hname : Verb.ofWord? name = some verb)
    {arguments : List Bytes} (harguments : arguments ≠ []) :
    parse (name :: arguments) =
      ((parseArguments verb arguments).map Except.ok).getD (.error (.misused verb)) := by
  -- The word that stands for malformed bytes comes without arguments.
  have hmalformed : name :: arguments ≠ Request.malformed.words := by
    intro h
    exact harguments (List.cons.inj h).2
  unfold parse
  rw [if_neg hmalformed]
  simp only [hname]
  cases parseArguments verb arguments <;> rfl

end Command

namespace Service

/-- Serves requests one after another. -/
def answers (s : Service) (connected : Nat) : List (List Bytes) → List Reply × Service
  | [] => ([], s)
  | words :: rest =>
    let (reply, s) := s.answer connected words
    let (replies, s) := s.answers connected rest
    (reply :: replies, s)

/-- The words of a request to store one value. -/
def setWords (name sec nsec : Bytes) (item : Bytes × Bytes) : List Bytes :=
  [name, item.1, item.2, sec, nsec]

/-- The words of a request to store several values. -/
def setAllWords (name sec nsec : Bytes) (items : List (Bytes × Bytes)) : List Bytes :=
  name :: sec :: nsec :: items.flatMap fun item => [item.1, item.2]

section Words

variable {name sec nsec : Bytes}

theorem parse_setWords (hname : Verb.ofWord? name = some .set) (item : Bytes × Bytes) :
    Command.parse (setWords name sec nsec item) =
      ((Command.readTimestamp? sec nsec).map fun ts => .ok (.set item.1 item.2 ts)).getD
        (.error (.misused .set)) := by
  rw [setWords, Command.parse_of_verb hname (List.cons_ne_nil _ _), Command.parseArguments,
    Option.map_map]
  rfl

theorem parse_setAllWords (hname : Verb.ofWord? name = some .setAll)
    {items : List (Bytes × Bytes)} (hitems : items ≠ []) :
    Command.parse (setAllWords name sec nsec items) =
      ((Command.readTimestamp? sec nsec).map fun ts => .ok (.setAll items ts)).getD
        (.error (.misused .setAll)) := by
  have hpairs := Command.pairs?_flatMap items
  rw [setAllWords, Command.parse_of_verb hname (List.cons_ne_nil _ _)]
  cases items with
  | nil => exact absurd rfl hitems
  | cons item rest =>
    rw [List.flatMap_cons, List.cons_append] at hpairs ⊢
    rw [Command.parseArguments]
    cases Command.readTimestamp? sec nsec with
    | none => rfl
    | some ts =>
      simp only [hpairs]
      rfl

/-- Without a value to store the request is refused. -/
theorem parse_setAllWords_nil (hname : Verb.ofWord? name = some .setAll) :
    Command.parse (setAllWords name sec nsec []) = .error (.misused .setAll) :=
  Command.parse_of_verb hname (List.cons_ne_nil _ _)

end Words

/-! ### What is answered -/

variable {s : Service} {words : List Bytes} (connected : Nat)

/-- A request that is refused leaves the cache alone. -/
theorem cache_answer_of_error {r : Command.Refusal} (h : Command.parse words = .error r) :
    (s.answer connected words).2.cache = s.cache := by
  unfold answer
  dsimp only
  rw [h, cache_noteLatency]
  exact cache_refuse _ r

/-- A request is answered as its command is. -/
theorem answer_of_ok {command : Command} (h : Command.parse words = .ok command) :
    (s.answer connected words).1 =
        (({ s with requests := s.requests + 1 } : Service).run connected command).1 ∧
      (s.answer connected words).2.cache =
        (({ s with requests := s.requests + 1 } : Service).run connected command).2.cache := by
  unfold answer
  dsimp only
  rw [h]
  exact ⟨rfl, cache_noteLatency _ _ _⟩

section Sets

variable {name sec nsec : Bytes} {ts : Timestamp}

/-- **The requests for single values make the calls of a batch**, and are told what its callers are
told. -/
theorem answers_sets (hname : Verb.ofWord? name = some .set)
    (hts : Command.readTimestamp? sec nsec = some ts) (items : List (Bytes × Bytes)) :
    (s.answers connected (items.map (setWords name sec nsec))).1 =
        (s.cache.setAll items ts).1.map writeReply ∧
      (s.answers connected (items.map (setWords name sec nsec))).2.cache =
        (s.cache.setAll items ts).2 := by
  induction items generalizing s with
  | nil => exact ⟨rfl, rfl⟩
  | cons item rest ih =>
    have hparse : Command.parse (setWords name sec nsec item) = .ok (.set item.1 item.2 ts) := by
      rw [parse_setWords hname, hts]
      rfl
    obtain ⟨hreply, hcache⟩ := answer_of_ok (s := s) connected hparse
    -- The requests that follow find the cache of the batch; what else the service keeps differs.
    obtain ⟨hreplies, hafter⟩ := ih (s := (s.answer connected (setWords name sec nsec item)).2)
    rw [hcache] at hreplies hafter
    exact ⟨congrArg₂ List.cons hreply hreplies, hafter⟩

/-- **So does the request for all of them**, and its reply holds what they are told. -/
theorem answer_setAll (hname : Verb.ofWord? name = some .setAll)
    (hts : Command.readTimestamp? sec nsec = some ts) {items : List (Bytes × Bytes)}
    (hitems : items ≠ []) :
    (s.answer connected (setAllWords name sec nsec items)).1 =
        .array ((s.cache.setAll items ts).1.map writeReply) ∧
      (s.answer connected (setAllWords name sec nsec items)).2.cache =
        (s.cache.setAll items ts).2 := by
  have hparse : Command.parse (setAllWords name sec nsec items) = .ok (.setAll items ts) := by
    rw [parse_setAllWords hname hitems, hts]
    rfl
  exact answer_of_ok connected hparse

/-- A timestamp that cannot be taken leaves the cache alone, however often it is sent. -/
theorem cache_answers_of_none (hname : Verb.ofWord? name = some .set)
    (hts : Command.readTimestamp? sec nsec = none) (items : List (Bytes × Bytes)) :
    (s.answers connected (items.map (setWords name sec nsec))).2.cache = s.cache := by
  induction items generalizing s with
  | nil => rfl
  | cons item rest ih =>
    have hparse : Command.parse (setWords name sec nsec item) = .error (.misused .set) := by
      rw [parse_setWords hname, hts]
      rfl
    exact ih.trans (cache_answer_of_error connected hparse)

theorem cache_answer_of_none (hname : Verb.ofWord? name = some .setAll)
    (hts : Command.readTimestamp? sec nsec = none) (items : List (Bytes × Bytes)) :
    (s.answer connected (setAllWords name sec nsec items)).2.cache = s.cache := by
  have hparse : Command.parse (setAllWords name sec nsec items) = .error (.misused .setAll) := by
    rcases eq_or_ne items [] with rfl | hitems
    · exact parse_setAllWords_nil hname
    · rw [parse_setAllWords hname hitems, hts]
      rfl
  exact cache_answer_of_error connected hparse

end Sets

/-- One request for several values leaves the cache as the requests for each of them do. -/
theorem cache_answer_setAll {single all sec nsec : Bytes}
    (hsingle : Verb.ofWord? single = some .set) (hall : Verb.ofWord? all = some .setAll)
    (items : List (Bytes × Bytes)) :
    (s.answer connected (setAllWords all sec nsec items)).2.cache =
      (s.answers connected (items.map (setWords single sec nsec))).2.cache := by
  cases hts : Command.readTimestamp? sec nsec with
  | none =>
    rw [cache_answer_of_none connected hall hts items, cache_answers_of_none connected hsingle hts]
  | some ts =>
    rcases eq_or_ne items [] with rfl | hitems
    · exact cache_answer_of_error connected (parse_setAllWords_nil hall)
    · rw [(answer_setAll connected hall hts hitems).2, (answers_sets connected hsingle hts items).2]

end Service

theorem Reply.encodeAll_eq_map (replies : List Reply) :
    Reply.encodeAll replies = replies.map Reply.encode := by
  induction replies with
  | nil => rfl
  | cons r rest ih => rw [encodeAll, ih, List.map_cons]

/-! ### Every batch -/

open Service (setWords setAllWords)

/-- **Every batch is its single calls, one after another**, whatever the store does.  One request
for several values leaves the cache as the requests for each of them do; where the timestamp is
normal its reply lists their replies, and its bytes are a line with their number and then their
bytes. -/
theorem batches_one_by_one :
    (∀ {σ : Type} [RecordStore σ] (c : Cache σ) (ts : Timestamp),
      (∀ items, Cache.OneByOne (fun c item => c.set item.1 item.2 ts) c items
        (c.setAll items ts)) ∧
      (∀ keys, Cache.OneByOne (fun c key => c.invalidate key ts) c keys
        (c.invalidateAll keys ts)) ∧
      ∀ keys, Cache.OneByOne Cache.get c keys (c.getAll keys)) ∧
    ∀ (s : Service) (connected : Nat) (single all : Bytes), Verb.ofWord? single = some .set →
      Verb.ofWord? all = some .setAll → ∀ (sec nsec : Bytes) (items : List (Bytes × Bytes)),
      let batch := s.answer connected (setAllWords all sec nsec items)
      let singles := s.answers connected (items.map (setWords single sec nsec))
      batch.2.cache = singles.2.cache ∧
        ((Command.readTimestamp? sec nsec).isSome → items ≠ [] →
          batch.1 = .array singles.1 ∧
            batch.1.encode = Wire.line 42 (Decimal.ofNat items.length) ++
              (singles.1.map Reply.encode).flatten) := by
  refine ⟨fun c ts => ⟨fun items => ?_, fun keys => ?_, fun keys => ?_⟩, ?_⟩
  · exact Cache.oneByOne_forEach _ c items
  · exact Cache.oneByOne_forEach _ c keys
  · exact Cache.oneByOne_forEach _ c keys
  · intro s connected single all hsingle hall sec nsec items batch singles
    refine ⟨Service.cache_answer_setAll connected hsingle hall items, fun hts hitems => ?_⟩
    obtain ⟨ts, hts⟩ := Option.isSome_iff_exists.1 hts
    have hsingles := (Service.answers_sets (s := s) connected hsingle hts items).1
    have hbatch : batch.1 = .array singles.1 := by
      rw [(Service.answer_setAll connected hall hts hitems).1, hsingles]
    have hlength : singles.1.length = items.length := by
      rw [hsingles, List.length_map]
      exact Cache.length_forEach _ s.cache items
    refine ⟨hbatch, ?_⟩
    rw [hbatch, Reply.encode, Wire.array, Reply.encodeAll_eq_map, List.length_map, hlength]

/-- What is stored under one key is no record, and another key is invalidated up to a time to
come. -/
def troubled : MemoryStore :=
  let m := (MemoryStore.empty {}).overwrite [2] ((∅ : Fields).insert Record.valueField [9])
  (m.execute ⟨0⟩ [3] (.invalidate ⟨20, 0⟩)).2

/-- The first key comes twice. -/
def valuesToStore : List (Bytes × Bytes) :=
  [([1], Bytes.ofString "a"), ([3], Bytes.ofString "b"), ([2], Bytes.ofString "c"),
    ([1], Bytes.ofString "d")]

/-- With a store whose second call fails, two of four values are stored, and the places of the
errors are those of the two that are not.  With a server in front of the store, the name of the
request is taken in small letters. -/
theorem batches_one_by_one_troubled :
    let c : Cache (Faulty MemoryStore.Clocked) :=
      .ofStore ⟨⟨troubled, ⟨0⟩⟩, some [none, some ⟨.unavailable, Bytes.ofString "down"⟩]⟩
    let step := fun (c : Cache (Faulty MemoryStore.Clocked)) (item : Bytes × Bytes) =>
      c.set item.1 item.2 ⟨10, 0⟩
    let handed := (Cache.fill step 0 (.blank 4 .nothing) c valuesToStore).1
    let host := { Server.memoryHost {} with repository := .memory troubled }
    let s : Service := ⟨.ofStore host, 0, 0, 0, []⟩
    let sec := Bytes.ofString "10"
    let nsec := Bytes.ofString "0"
    let batch := s.answer 1 (setAllWords (Bytes.ofString "ts.mset") sec nsec valuesToStore)
    (c.setAll valuesToStore ⟨10, 0⟩).2 = Cache.stepped step c valuesToStore ∧
      handed.errors.map (·.kind) = [.none, .unavailable, .corrupt, .none] ∧
      handed.first.message = Bytes.ofString "down" ∧
      (((c.setAll valuesToStore ⟨10, 0⟩).2.getAll [[1], [3]]).1.map Except.toOption) =
        [some (some (Bytes.ofString "d")), some none] ∧
      batch.2.cache = (s.answers 1 (valuesToStore.map
        (setWords (Bytes.ofString "TS.SET") sec nsec))).2.cache ∧
      batch.1.encode = Bytes.ofString "*4\r\n:1\r\n:0\r\n-CORRUPT " ++ [2] ++
        Bytes.ofString ": value without write timestamp\r\n:1\r\n" := by
  intro c step handed host s sec nsec batch
  have hstored := (batches_one_by_one.1 c ⟨10, 0⟩).1 valuesToStore
  obtain ⟨hcache, hbatch⟩ := batches_one_by_one.2 s 1 (Bytes.ofString "TS.SET")
    (Bytes.ofString "ts.mset") (by decide) (by decide) sec nsec valuesToStore
  obtain ⟨-, hencode⟩ := hbatch (by decide +kernel) (by decide)
  refine ⟨hstored.cache_eq, ?_, ?_, ?_, hcache, hencode.trans ?_⟩
  · decide +kernel
  · decide +kernel
  · decide +kernel
  · decide +kernel

end CoherentCache
