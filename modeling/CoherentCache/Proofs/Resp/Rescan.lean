import CoherentCache.Proofs.Resp.Requests

/-!
# Reading again from the front

The streams have a reader inside, which takes each byte once and keeps the state of the item under
way.  The same can be had without such a state: keep all bytes of the item under way, and whenever
an item is asked for, parse them again from the front by recursive descent.  Bytes are then looked
at many times, but what an item is can be told from the grammar, without a list of open frames.  The
two agree on every run.

* `Request.first?`, `Reply.parse` : parse what stands in front, a request or a reply.
* `Request.first?_eq`, `Reply.parse_eq` : they find what a reader inside would give.
* `RequestBuffer.run_eq`, `ReplyBuffer.run_eq` : **streams that parse again from the front give the
  same items at the same times**, and go wrong at the same times.
-/

namespace CoherentCache

namespace Bytes

/-- The first line and what follows its line end, if there is a line end. -/
def cutLine? : Bytes → Option (Bytes × Bytes)
  | [] => none
  | b :: bytes =>
    if b = 13 ∧ bytes.head? = some 10 then some ([], bytes.tail)
    else (cutLine? bytes).map fun (line, rest) => (b :: line, rest)

variable {bytes line rest : Bytes}

theorem cutLine?_eq_some (h : cutLine? bytes = some (line, rest)) :
    bytes = line ++ crlf ++ rest ∧ line.OneLine := by
  induction bytes generalizing line with
  | nil => cases h
  | cons b bytes ih =>
    rw [cutLine?] at h
    split at h
    · next hend =>
      obtain ⟨rfl, hhead⟩ := hend
      obtain ⟨rfl, rfl⟩ := Prod.mk.inj (Option.some.inj h)
      refine ⟨?_, List.isChain_nil⟩
      rw [List.eq_cons_of_mem_head? hhead]
      rfl
    · next hend =>
      obtain ⟨⟨line, rest⟩, hcut, hpair⟩ := Option.map_eq_some_iff.1 h
      obtain ⟨rfl, rfl⟩ := Prod.mk.inj hpair
      obtain ⟨rfl, hline⟩ := ih hcut
      refine ⟨rfl, List.isChain_cons.2 ⟨?_, hline⟩⟩
      -- A line feed behind this carriage return would have ended the line here.
      rintro c hc ⟨rfl, rfl⟩
      exact hend ⟨rfl, by rw [List.eq_cons_of_mem_head? hc]; rfl⟩

theorem cutLine?_eq_none (h : cutLine? bytes = none) : bytes.OneLine := by
  induction bytes with
  | nil => exact List.isChain_nil
  | cons b bytes ih =>
    rw [cutLine?] at h
    split at h
    · cases h
    · next hend =>
      refine List.isChain_cons.2 ⟨?_, ih (Option.map_eq_none_iff.1 h)⟩
      rintro c hc ⟨rfl, rfl⟩
      exact hend ⟨rfl, hc⟩

/-- A line end after counted bytes is there only if the counted bytes are. -/
theorem le_length_of_crlf {n : Nat} (h : (bytes.drop n).take 2 = crlf) : n + 2 ≤ bytes.length := by
  have htwo := congrArg List.length h
  simp [crlf] at htwo
  omega

end Bytes

/-! ### Bytes that are kept -/

namespace Framing

variable {R A : Type} {step : R → UInt8 → R ⊕ A} {start r r' : R} {item : A}
  {kept ahead ahead' : Bytes}

/-- A line is read as far as it goes. -/
theorem ReadsLine.read_cutLine {state : Bytes → R} {finish : Bytes → R ⊕ A}
    (h : ReadsLine step state finish) (bytes : Bytes) :
    read step start (state []) bytes =
      match bytes.cutLine? with
      | none => (none, state bytes.reverse, [])
      | some (line, rest) => readOn step start (finish line) rest := by
  cases hcut : bytes.cutLine? with
  | none =>
    have hpart : Bytes.OneLine (([] : Bytes).reverse ++ bytes) := Bytes.cutLine?_eq_none hcut
    simpa using h.read_part hpart
  | some cut =>
    obtain ⟨line, rest⟩ := cut
    obtain ⟨rfl, hline⟩ := Bytes.cutLine?_eq_some hcut
    exact h.read_line rest hline

/-- Counted bytes are read as far as they go. -/
theorem Counts.read_take {state : Nat → Bytes → R} {finish : Bytes → R ⊕ A} {fail : R}
    (h : Counts step state finish fail) (n : Nat) (bytes : Bytes) :
    read step start (state (n + 2) []) bytes =
      if bytes.length < n + 2 then (none, state (n + 2 - bytes.length) bytes.reverse, [])
      else readOn step start
        (if (bytes.drop n).take 2 = Bytes.crlf then finish (bytes.take n) else .inl fail)
        (bytes.drop (n + 2)) := by
  split
  · next hlength => simpa using h.read_part [] hlength
  · next hlength =>
    obtain ⟨x, y, rest, hdrop⟩ : ∃ x y rest, bytes.drop n = x :: y :: rest := by
      match hdrop : bytes.drop n with
      | [] | [_] =>
        have hleft := congrArg List.length hdrop
        simp at hleft
        omega
      | x :: y :: rest => exact ⟨x, y, rest, rfl⟩
    have htake : (bytes.take n).length = n := List.length_take_of_le (by omega)
    have hrest : bytes.drop (n + 2) = rest := by rw [← List.drop_drop, hdrop]; rfl
    have hread : read step start _ _ = _ := h.read_counted [] (bytes.take n) x y rest
    rw [htake, ← hdrop, List.take_append_drop] at hread
    rw [hread, hrest, hdrop]
    simp [Bytes.crlf]

/-- All bytes of the item under way are kept: those that were read of it, and those that lie
ahead. -/
def Behind (step : R → UInt8 → R ⊕ A) (start : R) (kept : Bytes) (r : R) (ahead : Bytes) : Prop :=
  ∃ used, kept = used ++ ahead ∧ read step start start used = (none, r, [])

namespace Behind

theorem fresh : Behind step start [] start [] := ⟨[], rfl, rfl⟩

theorem feed (h : Behind step start kept r ahead) (data : Bytes) :
    Behind step start (kept ++ data) r (ahead ++ data) := by
  obtain ⟨used, rfl, hread⟩ := h
  exact ⟨used, List.append_assoc .., hread⟩

/-- Reading again from the front ends where reading on does. -/
theorem read_eq (h : Behind step start kept r ahead) :
    read step start start kept = read step start r ahead := by
  obtain ⟨used, rfl, hread⟩ := h
  exact read_append_of_none hread ahead

/-- As long as no item is complete, all bytes are kept. -/
theorem read_none (h : Behind step start kept r ahead)
    (hread : read step start r ahead = (none, r', ahead')) :
    Behind step start kept r' ahead' := by
  obtain rfl : ahead' = [] := (scan_of_read_none hread).1
  exact ⟨kept, (List.append_nil _).symm, h.read_eq.trans hread⟩

/-- The bytes of a complete item are let go. -/
theorem read_some (hread : read step start r ahead = (some item, r', ahead')) :
    Behind step start ahead' r' ahead' := by
  obtain rfl : r' = start := (scan_of_read_some hread).1
  exact ⟨[], rfl, rfl⟩

end Behind

end Framing

/-! ### Requests -/

namespace Request

/-- The number behind a tag, on the first line of a request and on that of an argument. -/
def tagged? (tag : UInt8) (most : Int) : Bytes → Option Nat
  | [] => none
  | b :: text => if b = tag then (Decimal.readWithin? 0 most text).map Int.toNat else none

/-- The argument that stands in front, and what follows it. -/
def argument? (bytes : Bytes) : Option (Bytes × Bytes) :=
  match bytes.cutLine? with
  | none => none
  | some (line, rest) =>
    match tagged? 36 maxArgument line with
    | none => none
    | some n =>
      if (rest.drop n).take 2 = Bytes.crlf then some (rest.take n, rest.drop (n + 2)) else none

/-- The arguments that stand in front, so many of them, and what follows them. -/
def arguments? : Nat → Bytes → Option (List Bytes × Bytes)
  | 0, bytes => some ([], bytes)
  | left + 1, bytes =>
    match argument? bytes with
    | none => none
    | some (argument, rest) =>
      (arguments? left rest).map fun (more, rest) => (argument :: more, rest)

/-- The request that stands in front, and what follows it. -/
def first? (bytes : Bytes) : Option (Request × Bytes) :=
  match bytes.cutLine? with
  | none => none
  | some (line, rest) =>
    match tagged? 42 maxArguments line with
    | none => some (.malformed, rest)
    | some n => (arguments? n rest).map fun (arguments, rest) => (.command arguments, rest)

namespace Reader

variable {left : Nat} {arguments : List Bytes}

/-- What was taken off the bytes, and what follows it. -/
def taken : Option Request × Reader × Bytes → Option (Request × Bytes)
  | (none, _, _) => none
  | (some request, _, rest) => some (request, rest)

theorem ofLength_eq (left : Nat) (arguments : List Bytes) (line : Bytes) :
    ofLength left arguments line =
      match tagged? 36 maxArgument line with
      | none => .stuck
      | some n => .data left arguments (n + 2) [] := by
  cases line with
  | nil => rfl
  | cons tag size =>
    by_cases htag : tag = 36
    · cases hsize : Decimal.readWithin? 0 maxArgument size <;> simp [ofLength, tagged?, htag, hsize]
    · simp [ofLength, tagged?, htag]

theorem ofHeader_eq (line : Bytes) :
    ofHeader line =
      match tagged? 42 maxArguments line with
      | none => .inr .malformed
      | some n => resume n [] := by
  cases line with
  | nil => rfl
  | cons tag count =>
    by_cases htag : tag = 42
    · cases hcount : Decimal.readWithin? 0 maxArguments count <;>
        simp [ofHeader, tagged?, htag, hcount]
    · simp [ofHeader, tagged?, htag]

/-- Reading on from the beginning of an argument takes nothing without it. -/
theorem taken_read_length (bytes : Bytes) :
    taken (Framing.read step start (length left arguments []) bytes) =
      match argument? bytes with
      | none => none
      | some (argument, rest) =>
        taken (Framing.readOn step start (resume left (argument :: arguments)) rest) := by
  rw [(readsLength left arguments).read_cutLine, argument?]
  cases bytes.cutLine? with
  | none => rfl
  | some cut =>
    obtain ⟨line, rest⟩ := cut
    simp only [Framing.readOn_inl, ofLength_eq]
    have hstuck : ∀ more, Framing.read step start stuck more = (none, stuck, []) :=
      Framing.read_of_fixed fun _ => rfl
    cases tagged? 36 maxArgument line with
    | none => rw [hstuck]; rfl
    | some n =>
      simp only [(counts left arguments).read_take]
      by_cases hcrlf : (rest.drop n).take 2 = Bytes.crlf
      · -- The line end is there, so no byte is missing.
        have hlength : ¬ rest.length < n + 2 := Nat.not_lt.2 (Bytes.le_length_of_crlf hcrlf)
        simp [hcrlf, hlength]
      · by_cases hlength : rest.length < n + 2
        · simp [hcrlf, hlength, taken]
        · simp [hcrlf, hlength, hstuck, taken]

theorem taken_readOn_resume (bytes : Bytes) :
    taken (Framing.readOn step start (resume left arguments) bytes) =
      (arguments? left bytes).map fun (more, rest) =>
        (.command (arguments.reverse ++ more), rest) := by
  induction left generalizing arguments bytes with
  | zero => simp [resume, Framing.readOn, arguments?, taken]
  | succ left ih =>
    rw [resume, Framing.readOn, taken_read_length, arguments?]
    cases argument? bytes with
    | none => rfl
    | some found =>
      obtain ⟨argument, rest⟩ := found
      simp [ih, Function.comp_def]

end Reader

/-- **The request that stands in front is the one that a reader gives.** -/
theorem first?_eq (bytes : Bytes) :
    first? bytes = Reader.taken (Framing.read Reader.step .start .start bytes) := by
  have hread : Framing.read Reader.step .start .start bytes = _ :=
    Reader.readsHeader.read_cutLine bytes
  rw [first?, hread]
  cases bytes.cutLine? with
  | none => rfl
  | some cut =>
    obtain ⟨line, rest⟩ := cut
    simp only [Reader.ofHeader_eq]
    cases tagged? 42 maxArguments line with
    | none => rfl
    | some n => simp [Reader.taken_readOn_resume]

end Request

/-- A stream of requests that keeps all bytes and parses them again from the front. -/
structure RequestBuffer where
  /-- The bytes that were received and are not part of a request that was taken. -/
  kept : Bytes

namespace RequestBuffer

/-- A stream on which nothing has arrived. -/
def empty : RequestBuffer := ⟨[]⟩

/-- Takes the request that stands in front off the stream. -/
def next (t : RequestBuffer) : Option Request × RequestBuffer :=
  match Request.first? t.kept with
  | none => (none, t)
  | some (request, rest) => (some request, ⟨rest⟩)

instance : Inlet RequestBuffer Request where
  feed t data := ⟨t.kept ++ data⟩
  next := next
  size t := t.kept.length
  size_lt {t t' request} h := by
    rw [next, Request.first?_eq] at h
    rcases hread : Framing.read Request.Reader.step .start .start t.kept with ⟨- | item, r, rest⟩
    · rw [hread] at h
      cases h
    · rw [hread] at h
      cases h
      exact Framing.length_of_read_some hread

/-- The bytes that are kept are those of the reader inside, and those ahead of it. -/
theorem simulates :
    Inlet.Simulates fun (t : RequestBuffer) (s : RequestStream) =>
      Framing.Behind Request.Reader.step .start t.kept s.reader s.ahead where
  feed {t s} h data := h.feed data
  next {t s} h := by
    have hbuffer : Inlet.next t = next t := rfl
    rcases hnext : Inlet.next s with ⟨found, s'⟩
    have hread := RequestStream.read_of_next hnext
    rw [hbuffer, next, Request.first?_eq, h.read_eq, hread]
    cases found with
    | none => exact ⟨rfl, h.read_none hread⟩
    | some request => exact ⟨rfl, Framing.Behind.read_some hread⟩

/-- **Parsing again from the front gives the same requests at the same times.** -/
theorem run_eq (moves : List Inlet.Move) :
    (Inlet.run empty moves).1 = (Inlet.run RequestStream.empty moves).1 :=
  (simulates.run .fresh moves).1

end RequestBuffer

/-! ### Replies -/

/-- What parsing comes to. -/
inductive Parsed (A : Type) where
  /-- An item stands in front, and this follows it. -/
  | found (item : A) (rest : Bytes)
  /-- Bytes are missing. -/
  | incomplete
  /-- No further bytes can mend what stands in front. -/
  | bad

namespace Parsed

variable {A B C : Type}

/-- Parses something and goes on with it, if it stands in front. -/
def bind : Parsed A → (A → Bytes → Parsed B) → Parsed B
  | .found item rest, f => f item rest
  | .incomplete, _ => .incomplete
  | .bad, _ => .bad

@[simp] theorem bind_found (p : Parsed A) : p.bind .found = p := by cases p <;> rfl

@[simp] theorem bind_assoc (p : Parsed A) (f : A → Bytes → Parsed B) (g : B → Bytes → Parsed C) :
    (p.bind f).bind g = p.bind fun item rest => (f item rest).bind g := by cases p <;> rfl

end Parsed

namespace Reply

/-- A bulk string of the given length stands in front. -/
def parseBulk (n : Nat) (bytes : Bytes) : Parsed Reply :=
  if bytes.length < n + 2 then .incomplete
  else if (bytes.drop n).take 2 = Bytes.crlf then .found (.bulk (bytes.take n)) (bytes.drop (n + 2))
  else .bad

/-- So many items stand in front, each of which is parsed in the given way. -/
def parseItems (parseItem : Bytes → Parsed Reply) : Nat → Bytes → Parsed (List Reply)
  | 0, bytes => .found [] bytes
  | left + 1, bytes =>
    (parseItem bytes).bind fun reply rest =>
      (parseItems parseItem left rest).bind fun more rest => .found (reply :: more) rest

/-- What stands in front begins with a tagged line, which is all of it unless it is a length. -/
def parseLine (parseItem : Bytes → Parsed Reply) (tag : UInt8) (line rest : Bytes) : Parsed Reply :=
  if tag = 43 then .found (.simple line) rest
  else if tag = 45 then .found (.error line) rest
  else if tag = 58 then
    match Decimal.readInt64? line with
    | none => .bad
    | some v => .found (.integer v) rest
  else if tag = 36 then
    match Decimal.readWithin? (-1) maxBulk line with
    | none => .bad
    | some n => if n = -1 then .found .null rest else parseBulk n.toNat rest
  else if tag = 42 then
    match Decimal.readWithin? (-1) maxItems line with
    | none => .bad
    | some n =>
      if n = -1 then .found .null rest
      else (parseItems parseItem n.toNat rest).bind fun items rest => .found (.array items) rest
  else .bad

/-- A reply stands in front, in which replies may lie so many levels deep, itself included. -/
def parse : (levels : Nat) → Bytes → Parsed Reply
  | 0, _ => .bad
  | _ + 1, [] => .incomplete
  | levels + 1, tag :: bytes =>
    match Bytes.cutLine? bytes with
    | none => .incomplete
    | some (line, rest) => parseLine (parse levels) tag line rest

namespace Reader

variable {frames : List Frame} {levels : Nat}

/-- What reading came to. -/
def outcome : Option Reply × Reader × Bytes → Parsed Reply
  | (some reply, _, rest) => .found reply rest
  | (none, .malformed, _) => .bad
  | (none, _, _) => .incomplete

/-- What comes of reading on after a reply, in the lists that are open around it. -/
def after (frames : List Frame) (reply : Reply) (rest : Bytes) : Parsed Reply :=
  outcome (Framing.readOn step (.start []) (complete frames reply) rest)

theorem outcome_read_malformed (bytes : Bytes) :
    outcome (Framing.read step (.start []) malformed bytes) = .bad := by
  rw [Framing.read_of_fixed fun _ => rfl]
  rfl

theorem outcome_read_bulk (n : Nat) (bytes : Bytes) :
    outcome (Framing.read step (.start []) (bulk frames (n + 2) []) bytes) =
      (parseBulk n bytes).bind (after frames) := by
  rw [(counts frames).read_take, parseBulk]
  by_cases hlength : bytes.length < n + 2
  · simp [hlength, outcome, Parsed.bind]
  · by_cases hcrlf : (bytes.drop n).take 2 = Bytes.crlf
    · simp [hlength, hcrlf, Parsed.bind, after]
    · simp [hlength, hcrlf, Parsed.bind, outcome_read_malformed]

/-- Items are read one after the other as they are parsed one after the other, if a single one is
read as it is parsed. -/
theorem outcome_read_items {parseItem : Bytes → Parsed Reply} (left : Nat) (items : List Reply)
    (hitem : ∀ f bytes, outcome (Framing.read step (.start []) (start (f :: frames)) bytes) =
      (parseItem bytes).bind (after (f :: frames))) (bytes : Bytes) :
    outcome (Framing.read step (.start []) (start (⟨left, items⟩ :: frames)) bytes) =
      (parseItems parseItem (left + 1) bytes).bind fun more rest =>
        after frames (.array (items.reverse ++ more)) rest := by
  induction left generalizing items bytes with
  | zero =>
    rw [hitem, parseItems]
    cases parseItem bytes with
    | found reply rest =>
      -- The last item: completing it completes the list.
      simp [Parsed.bind, parseItems, after, complete]
    | incomplete | bad => rfl
  | succ left ih =>
    rw [hitem, parseItems]
    cases parseItem bytes with
    | found reply rest =>
      -- The list goes on with one item more in it, and one less to come.
      have hnext : after (⟨left + 1, items⟩ :: frames) reply rest = _ := ih (reply :: items) rest
      simp only [Parsed.bind_assoc]
      simp [Parsed.bind, hnext]
    | incomplete | bad => rfl

/-- A list is read as it is parsed, if one that lies in it is. -/
theorem outcome_openList (hlevels : frames.length + levels = maxDepth)
    (hitem : ∀ f bytes, 0 < levels →
      outcome (Framing.read step (.start []) (start (f :: frames)) bytes) =
        (parse levels bytes).bind (after (f :: frames)))
    (n : Nat) (bytes : Bytes) :
    outcome (Framing.readOn step (.start []) (openList frames n) bytes) =
      (parseItems (parse levels) n bytes).bind fun items rest =>
        after frames (.array items) rest := by
  cases n with
  | zero => rfl
  | succ left =>
    rw [openList, Framing.readOn_inl]
    split
    · next hroom => exact outcome_read_items left [] (fun f bytes => hitem f bytes (by omega)) bytes
    · -- Too deep, and bad whatever the items.
      next hroom =>
      obtain rfl : levels = 0 := by omega
      rw [outcome_read_malformed]
      rfl

/-- What follows the tag is read as it is parsed, if lists are. -/
theorem outcome_ofLine {parseItem : Bytes → Parsed Reply}
    (hlist : ∀ n bytes, outcome (Framing.readOn step (.start []) (openList frames n) bytes) =
      (parseItems parseItem n bytes).bind fun items rest => after frames (.array items) rest)
    (tag : UInt8) (line rest : Bytes) :
    outcome (Framing.readOn step (.start []) (ofLine frames tag line) rest) =
      (parseLine parseItem tag line rest).bind (after frames) := by
  unfold ofLine parseLine
  split_ifs
  · rfl
  · rfl
  · cases Decimal.readInt64? line with
    | none => exact outcome_read_malformed rest
    | some v => rfl
  · cases Decimal.readWithin? (-1) maxBulk line with
    | none => exact outcome_read_malformed rest
    | some n =>
      by_cases hn : n = -1
      · simp only [hn, if_true]
        rfl
      · simp only [hn, if_false, Framing.readOn_inl]
        exact outcome_read_bulk n.toNat rest
  · cases Decimal.readWithin? (-1) maxItems line with
    | none => exact outcome_read_malformed rest
    | some n =>
      by_cases hn : n = -1
      · simp only [hn, if_true]
        rfl
      · simp only [hn, if_false, hlist, Parsed.bind_assoc]
        rfl
  · exact outcome_read_malformed rest

/-- A reply is read as it is parsed, if one that lies in it is. -/
theorem outcome_read_tagged (hlevels : frames.length + levels = maxDepth)
    (hitem : ∀ f bytes, 0 < levels →
      outcome (Framing.read step (.start []) (start (f :: frames)) bytes) =
        (parse levels bytes).bind (after (f :: frames)))
    (bytes : Bytes) :
    outcome (Framing.read step (.start []) (start frames) bytes) =
      (parse (levels + 1) bytes).bind (after frames) := by
  cases bytes with
  | nil => rfl
  | cons tag bytes =>
    have htag : Framing.read step (.start []) (start frames) (tag :: bytes) =
        Framing.read step (.start []) (line frames tag []) bytes := rfl
    rw [htag, (readsLine frames tag).read_cutLine, parse]
    cases Bytes.cutLine? bytes with
    | none => rfl
    | some cut => exact outcome_ofLine (outcome_openList hlevels hitem) tag cut.1 cut.2

/-- A reply is read as it is parsed, however many lists are open around it. -/
theorem outcome_read_start (hlevels : frames.length + levels = maxDepth) (bytes : Bytes) :
    outcome (Framing.read step (.start []) (start frames) bytes) =
      (parse (levels + 1) bytes).bind (after frames) := by
  induction levels generalizing frames bytes with
  | zero => exact outcome_read_tagged hlevels (fun _ _ h => absurd h (Nat.lt_irrefl 0)) bytes
  | succ levels ih =>
    refine outcome_read_tagged hlevels (fun f bytes _ => ih ?_ bytes) bytes
    rw [List.length_cons]
    omega

end Reader

/-- **The reply that stands in front is the one that a reader gives**, and none of the two comes to
anything that the other does not come to. -/
theorem parse_eq (bytes : Bytes) :
    parse (maxDepth + 1) bytes =
      Reader.outcome (Framing.read Reader.step (.start []) (.start []) bytes) := by
  have hlevels : ([] : List Frame).length + maxDepth = maxDepth := Nat.zero_add _
  have hafter : Reader.after [] = Parsed.found := rfl
  rw [Reader.outcome_read_start hlevels, hafter, Parsed.bind_found]

end Reply

theorem ReplyStream.malformed_iff {s : ReplyStream} :
    s.malformed = true ↔ s.reader = .malformed := by
  unfold malformed
  split <;> simp_all

/-- A stream of replies that keeps all bytes and parses them again from the front. -/
structure ReplyBuffer where
  /-- The bytes that were received and are not part of a reply that was taken. -/
  kept : Bytes
  /-- The stream went wrong. -/
  malformed : Bool

namespace ReplyBuffer

/-- A stream on which nothing has arrived. -/
def empty : ReplyBuffer := ⟨[], false⟩

/-- Takes the reply that stands in front off the stream.  There is none when bytes are missing and
when the stream went wrong. -/
def next (t : ReplyBuffer) : Option Reply × ReplyBuffer :=
  if t.malformed then (none, t)
  else
    match Reply.parse (Reply.maxDepth + 1) t.kept with
    | .found reply rest => (some reply, ⟨rest, false⟩)
    | .incomplete => (none, t)
    | .bad => (none, ⟨t.kept, true⟩)

instance : Inlet ReplyBuffer Reply where
  feed t data := ⟨t.kept ++ data, t.malformed⟩
  next := next
  size t := t.kept.length
  size_lt {t t' reply} h := by
    unfold next at h
    split at h
    · cases h
    · rw [Reply.parse_eq] at h
      rcases hread : Framing.read Reply.Reader.step (.start []) (.start []) t.kept with
        ⟨- | found, r, rest⟩
      · rw [hread] at h
        cases r <;> cases h
      · rw [hread] at h
        cases h
        exact Framing.length_of_read_some hread

/-- When no reply is complete, the stream went wrong or bytes are missing. -/
theorem outcome_none (s : ReplyStream) :
    Reply.Reader.outcome (none, s.reader, s.ahead) = if s.malformed then .bad else .incomplete := by
  unfold ReplyStream.malformed
  cases s.reader <;> rfl

/-- The bytes that are kept are those of the reader inside and those ahead of it, and both streams
went wrong or neither did. -/
def Follows (t : ReplyBuffer) (s : ReplyStream) : Prop :=
  Framing.Behind Reply.Reader.step (.start []) t.kept s.reader s.ahead ∧ t.malformed = s.malformed

variable {t : ReplyBuffer} {s s' : ReplyStream} {found : Option Reply}

/-- Streams that went wrong give nothing, and stay so. -/
theorem Follows.next_malformed (h : t.Follows s) (hwrong : s.malformed)
    (hnext : s.next = (found, s')) : (next t).1 = found ∧ (next t).2.Follows s' := by
  have hread := ReplyStream.read_of_next hnext
  have hfixed := hread
  rw [ReplyStream.malformed_iff.1 hwrong, Framing.read_of_fixed fun _ => rfl] at hfixed
  obtain ⟨rfl, hreader, -⟩ : none = found ∧ .malformed = s'.reader ∧ [] = s'.ahead := by
    simpa using hfixed
  have htrue : t.malformed = true := h.2.trans hwrong
  have hstays : s'.malformed = true := ReplyStream.malformed_iff.2 hreader.symm
  rw [next, if_pos htrue]
  exact ⟨rfl, h.1.read_none hread, htrue.trans hstays.symm⟩

/-- As long as nothing went wrong, what stands in front of the bytes that are kept is what a reader
makes of the bytes ahead. -/
theorem Follows.next_proper (h : t.Follows s) (hproper : s.malformed = false)
    (hnext : s.next = (found, s')) : (next t).1 = found ∧ (next t).2.Follows s' := by
  have hread := ReplyStream.read_of_next hnext
  have hfalse : t.malformed = false := h.2.trans hproper
  rw [next, if_neg (by simp [hfalse]), Reply.parse_eq, h.1.read_eq, hread]
  cases found with
  | none =>
    rw [outcome_none]
    cases hafter : s'.malformed with
    | true => exact ⟨rfl, h.1.read_none hread, hafter.symm⟩
    | false => exact ⟨rfl, h.1.read_none hread, hfalse.trans hafter.symm⟩
  | some reply =>
    have hreader : s'.reader = .start [] := (Framing.scan_of_read_some hread).1
    have hafter : s'.malformed = false := by
      unfold ReplyStream.malformed
      rw [hreader]
    exact ⟨rfl, Framing.Behind.read_some hread, hafter.symm⟩

theorem simulates : Inlet.Simulates Follows where
  feed {t s} h data := ⟨h.1.feed data, h.2⟩
  next {t s} h := by
    cases hmalformed : s.malformed with
    | true => exact h.next_malformed hmalformed rfl
    | false => exact h.next_proper hmalformed rfl

theorem follows_empty : empty.Follows .empty := ⟨.fresh, rfl⟩

/-- **Parsing again from the front gives the same replies at the same times**, and goes wrong at the
same times. -/
theorem run_eq (moves : List Inlet.Move) :
    (Inlet.run empty moves).1 = (Inlet.run ReplyStream.empty moves).1 ∧
      (Inlet.run empty moves).2.malformed = (Inlet.run ReplyStream.empty moves).2.malformed := by
  obtain ⟨hreplies, -, hmalformed⟩ := simulates.run follows_empty moves
  exact ⟨hreplies, hmalformed⟩

end ReplyBuffer

end CoherentCache
