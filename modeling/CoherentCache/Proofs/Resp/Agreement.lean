import CoherentCache.Proofs.Decimal.Grammar
import CoherentCache.Proofs.Resp.Rescan

/-!
# Requests as replies

A request is a list of bulk strings, and such a list may also stand among replies.  There are two
readers for it, each with limits of its own, which differ in what they do when something else
arrives.  The bytes that both take are told by one grammar, in which a count may have any spelling
that denotes it: within the limits of requests both find the same list in the same bytes, and leave
the same bytes behind.

* `Wire.IsBulk`, `Wire.AreBulks`, `Wire.IsCommand` : the grammar of requests.
* `Request.first?_eq_command_iff`, `Reply.parse_eq_array_iff` : **each of the two readers takes
  what the grammar says.**
* `RequestStream.Keeps`, `ReplyStream.Keeps` : the bytes that arrived since the last item.
* `RequestStream.next_agrees` : **the two readers agree** on streams that keep the same bytes.
-/

namespace CoherentCache

/-! ### Lines and counted bytes -/

namespace Bytes

theorem cutLine?_append {line : Bytes} (h : line.OneLine) (rest : Bytes) :
    cutLine? (line ++ crlf ++ rest) = some (line, rest) := by
  induction line with
  | nil => simp [crlf, cutLine?]
  | cons b line ih =>
    have htail : cutLine? (line ++ crlf ++ rest) = some (line, rest) := ih (List.IsChain.tail h)
    have hend : ¬ (b = 13 ∧ (line ++ crlf ++ rest).head? = some 10) := by
      rintro ⟨rfl, hhead⟩
      cases line with
      | nil => simp [crlf] at hhead
      | cons c line =>
        have hc : c = 10 := by simpa using hhead
        exact (List.isChain_cons_cons.1 h).1 ⟨rfl, hc⟩
    rw [List.cons_append, List.cons_append, cutLine?, if_neg hend, htail]
    rfl

/-- A number stands on one line. -/
theorem oneLine_of_denotes {text : Bytes} {i : Int} (h : Decimal.Denotes text i) : text.OneLine :=
  .of_not_mem (h.not_mem (by decide) (by decide))

/-- Counted bytes and a line end stand in front. -/
theorem counted_iff {body data rest : Bytes} {n : Nat} :
    ((body.drop n).take 2 = crlf ∧ body.take n = data ∧ body.drop (n + 2) = rest) ↔
      data.length = n ∧ body = data ++ crlf ++ rest := by
  constructor
  · rintro ⟨hcrlf, rfl, rfl⟩
    have hlength := le_length_of_crlf hcrlf
    refine ⟨List.length_take_of_le (by omega), ?_⟩
    calc body = body.take n ++ body.drop n := (List.take_append_drop n body).symm
      _ = body.take n ++ ((body.drop n).take 2 ++ (body.drop n).drop 2) := by
        rw [List.take_append_drop 2]
      _ = body.take n ++ crlf ++ body.drop (n + 2) := by
        rw [hcrlf, List.drop_drop, List.append_assoc]
  · rintro ⟨rfl, rfl⟩
    simp [crlf]

end Bytes

/-! ### The grammar -/

namespace Wire

/-- The bytes are a bulk string, in any spelling of its length. -/
def IsBulk (data form : Bytes) : Prop :=
  ∃ size, Decimal.Denotes size data.length ∧ form = line 36 size ++ (data ++ Bytes.crlf)

/-- The bytes are bulk strings, one after the other. -/
inductive AreBulks : List Bytes → Bytes → Prop where
  /-- There is none. -/
  | nil : AreBulks [] []
  /-- A bulk string, and some more. -/
  | cons {data form forms : Bytes} {more : List Bytes} (first : IsBulk data form)
      (rest : AreBulks more forms) : AreBulks (data :: more) (form ++ forms)

/-- The bytes are a list of bulk strings, in any spelling of its length. -/
def IsCommand (arguments : List Bytes) (form : Bytes) : Prop :=
  ∃ count forms, Decimal.Denotes count arguments.length ∧ AreBulks arguments forms ∧
    form = line 42 count ++ forms

end Wire

/-! ### Requests -/

namespace Request

variable {bytes rest data : Bytes} {arguments : List Bytes} {tag : UInt8} {most : Int} {n : Nat}

theorem tagged?_eq_some_iff {line : Bytes} :
    tagged? tag most line = some n ↔
      ∃ text, line = tag :: text ∧ Decimal.Denotes text n ∧ (n : Int) ≤ most := by
  constructor
  · intro h
    cases line with
    | nil => cases h
    | cons b text =>
      rw [tagged?] at h
      split at h
      · next hb =>
        obtain ⟨i, hread, rfl⟩ := Option.map_eq_some_iff.1 h
        obtain ⟨hdenotes, hlow, hhigh⟩ := Decimal.readWithin?_eq_some_iff.1 hread
        rw [Int.toNat_of_nonneg hlow]
        exact ⟨text, by rw [hb], hdenotes, hhigh⟩
      · cases h
  · rintro ⟨text, rfl, hdenotes, hmost⟩
    have hread : Decimal.readWithin? 0 most text = some (n : Int) :=
      Decimal.readWithin?_eq_some_iff.2 ⟨hdenotes, Int.natCast_nonneg n, hmost⟩
    simp [tagged?, hread]

/-- The first line is the tag and a number. -/
theorem tagged_line_iff (htag : tag ≠ 13) :
    (∃ line, bytes.cutLine? = some (line, rest) ∧ tagged? tag most line = some n) ↔
      (∃ text, Decimal.Denotes text n ∧ bytes = Wire.line tag text ++ rest) ∧ (n : Int) ≤ most := by
  constructor
  · rintro ⟨line, hcut, htagged⟩
    obtain ⟨text, rfl, hdenotes, hmost⟩ := tagged?_eq_some_iff.1 htagged
    exact ⟨⟨text, hdenotes, (Bytes.cutLine?_eq_some hcut).1⟩, hmost⟩
  · rintro ⟨⟨text, hdenotes, rfl⟩, hmost⟩
    have hline : Bytes.OneLine (tag :: text) :=
      .append (List.isChain_singleton tag) (Bytes.oneLine_of_denotes hdenotes)
        (.inl (by simpa using htag))
    exact ⟨tag :: text, Bytes.cutLine?_append hline rest,
      tagged?_eq_some_iff.2 ⟨text, rfl, hdenotes, hmost⟩⟩

theorem argument?_eq_some_iff :
    argument? bytes = some (data, rest) ↔
      (data.length : Int) ≤ maxArgument ∧ ∃ form, Wire.IsBulk data form ∧ bytes = form ++ rest := by
  have hopen : argument? bytes = some (data, rest) ↔
      ∃ n body, (∃ line, bytes.cutLine? = some (line, body) ∧
          tagged? 36 maxArgument line = some n) ∧
        (body.drop n).take 2 = Bytes.crlf ∧ body.take n = data ∧ body.drop (n + 2) = rest := by
    unfold argument?
    cases bytes.cutLine? with
    | none => simp
    | some cut =>
      obtain ⟨line, body⟩ := cut
      cases htagged : tagged? 36 maxArgument line with
      | none => simp [htagged]
      | some n => simp [htagged]
  rw [hopen]
  simp only [tagged_line_iff (by decide : (36 : UInt8) ≠ 13), Bytes.counted_iff]
  constructor
  · rintro ⟨_, _, ⟨⟨size, hdenotes, rfl⟩, hmost⟩, rfl, rfl⟩
    exact ⟨hmost, _, ⟨size, hdenotes, rfl⟩, by simp⟩
  · rintro ⟨hmost, _, ⟨size, hdenotes, rfl⟩, rfl⟩
    exact ⟨_, _, ⟨⟨size, hdenotes, by simp⟩, hmost⟩, rfl, rfl⟩

theorem arguments?_eq_some_iff :
    arguments? n bytes = some (arguments, rest) ↔
      arguments.length = n ∧ (∀ argument ∈ arguments, (argument.length : Int) ≤ maxArgument) ∧
        ∃ forms, Wire.AreBulks arguments forms ∧ bytes = forms ++ rest := by
  induction n generalizing bytes arguments with
  | zero =>
    constructor
    · rintro ⟨⟩
      exact ⟨rfl, by simp, [], .nil, rfl⟩
    · rintro ⟨hlength, -, forms, hforms, rfl⟩
      cases hforms with
      | nil => rfl
      | cons first more => cases hlength
  | succ left ih =>
    constructor
    · intro h
      rw [arguments?] at h
      split at h
      · cases h
      · next argument body hfirst =>
        obtain ⟨⟨more, rest⟩, hmore, hpair⟩ := Option.map_eq_some_iff.1 h
        obtain ⟨rfl, rfl⟩ := Prod.mk.inj hpair
        obtain ⟨hsize, form, hform, rfl⟩ := argument?_eq_some_iff.1 hfirst
        obtain ⟨hlength, hsizes, forms, hforms, rfl⟩ := ih.1 hmore
        exact ⟨by rw [List.length_cons, hlength], List.forall_mem_cons.2 ⟨hsize, hsizes⟩,
          form ++ forms, .cons hform hforms, (List.append_assoc ..).symm⟩
    · rintro ⟨hlength, hsizes, forms, hforms, rfl⟩
      cases hforms with
      | nil => cases hlength
      | @cons data form forms more hform hforms =>
        obtain ⟨hsize, hsizes⟩ := List.forall_mem_cons.1 hsizes
        have hfirst : argument? (form ++ forms ++ rest) = some (data, forms ++ rest) :=
          argument?_eq_some_iff.2 ⟨hsize, form, hform, List.append_assoc ..⟩
        have hmore : arguments? left (forms ++ rest) = some (more, rest) :=
          ih.2 ⟨Nat.succ.inj hlength, hsizes, forms, hforms, rfl⟩
        rw [arguments?, hfirst]
        simp only [hmore, Option.map_some]

/-- **A reader of requests takes what the grammar says**, within its limits. -/
theorem first?_eq_command_iff :
    first? bytes = some (.command arguments, rest) ↔
      (Request.command arguments).Bounded ∧
        ∃ form, Wire.IsCommand arguments form ∧ bytes = form ++ rest := by
  have hopen : first? bytes = some (.command arguments, rest) ↔
      ∃ n body, (∃ line, bytes.cutLine? = some (line, body) ∧
          tagged? 42 maxArguments line = some n) ∧
        arguments? n body = some (arguments, rest) := by
    unfold first?
    cases bytes.cutLine? with
    | none => simp
    | some cut =>
      obtain ⟨line, body⟩ := cut
      cases htagged : tagged? 42 maxArguments line with
      | none => simp [htagged]
      | some n => simp [htagged]
  rw [hopen]
  simp only [tagged_line_iff (by decide : (42 : UInt8) ≠ 13), arguments?_eq_some_iff]
  constructor
  · rintro ⟨_, _, ⟨⟨count, hdenotes, rfl⟩, hmost⟩, rfl, hsizes, forms, hforms, rfl⟩
    exact ⟨⟨hmost, hsizes⟩, _, ⟨count, forms, hdenotes, hforms, rfl⟩, by simp⟩
  · rintro ⟨⟨hmost, hsizes⟩, _, ⟨count, forms, hdenotes, hforms, rfl⟩, rfl⟩
    exact ⟨_, _, ⟨⟨count, hdenotes, by simp⟩, hmost⟩, rfl, hsizes, forms, hforms, rfl⟩

end Request

/-! ### Replies -/

theorem Parsed.bind_eq_found {A B : Type} {p : Parsed A} {f : A → Bytes → Parsed B} {found : B}
    {rest : Bytes} (h : p.bind f = .found found rest) :
    ∃ item body, p = .found item body ∧ f item body = .found found rest := by
  cases p with
  | found item body => exact ⟨item, body, rfl, h⟩
  | incomplete => cases h
  | bad => cases h

namespace Reply

variable {bytes rest data : Bytes} {arguments : List Bytes} {levels n : Nat} {reply : Reply}

theorem parseBulk_eq_found_iff :
    parseBulk n bytes = .found reply rest ↔
      ∃ data, reply = .bulk data ∧ data.length = n ∧ bytes = data ++ Bytes.crlf ++ rest := by
  simp only [← Bytes.counted_iff]
  unfold parseBulk
  constructor
  · intro h
    split_ifs at h with hshort hcrlf
    obtain ⟨rfl, rfl⟩ := Parsed.found.inj h
    exact ⟨_, rfl, hcrlf, rfl, rfl⟩
  · rintro ⟨_, rfl, hcrlf, rfl, rfl⟩
    rw [if_neg (Nat.not_lt.2 (Bytes.le_length_of_crlf hcrlf)), if_pos hcrlf]

theorem parse_eq_found_iff :
    parse (levels + 1) bytes = .found reply rest ↔
      ∃ tag text body, text.OneLine ∧ bytes = Wire.line tag text ++ body ∧
        parseLine (parse levels) tag text body = .found reply rest := by
  constructor
  · intro h
    cases bytes with
    | nil => cases h
    | cons tag bytes =>
      rw [parse] at h
      split at h
      · cases h
      · next text body hcut =>
        obtain ⟨rfl, hline⟩ := Bytes.cutLine?_eq_some hcut
        exact ⟨tag, text, body, hline, rfl, h⟩
  · rintro ⟨tag, text, body, hline, rfl, h⟩
    have hcut := Bytes.cutLine?_append hline body
    rwa [Wire.line, List.cons_append, List.cons_append, parse, hcut]

section

variable {parseItem : Bytes → Parsed Reply} {tag : UInt8} {text body : Bytes} {items : List Reply}

/-- What a tagged line can be the beginning of, and what follows that. -/
inductive Begins (parseItem : Bytes → Parsed Reply) (tag : UInt8) (text body : Bytes) :
    Reply → Bytes → Prop where
  /-- A short text. -/
  | simple : Begins parseItem tag text body (.simple text) body
  /-- A refusal or failure. -/
  | error : Begins parseItem tag text body (.error text) body
  /-- An integer. -/
  | integer (v : Int64) : Begins parseItem tag text body (.integer v) body
  /-- Nothing. -/
  | null : Begins parseItem tag text body .null body
  /-- A bulk string; the line says how long it is. -/
  | bulk {data rest : Bytes} (tag_eq : tag = 36) (size : Decimal.Denotes text data.length)
      (small : data.Small) (body_eq : body = data ++ Bytes.crlf ++ rest) :
      Begins parseItem tag text body (.bulk data) rest
  /-- A list; the line says how many items it has. -/
  | array {items : List Reply} {rest : Bytes} {n : Nat} (tag_eq : tag = 42)
      (count : Decimal.Denotes text n) (fits : (n : Int) ≤ maxItems)
      (found : parseItems parseItem n body = .found items rest) :
      Begins parseItem tag text body (.array items) rest

theorem parseLine_begins (h : parseLine parseItem tag text body = .found reply rest) :
    Begins parseItem tag text body reply rest := by
  unfold parseLine at h
  split_ifs at h with hsimple herror hinteger hbulk harray
  · cases h
    exact .simple
  · cases h
    exact .error
  · split at h
    · cases h
    · next v _ =>
      cases h
      exact .integer v
  · split at h
    · cases h
    · next i hread =>
      obtain ⟨hdenotes, hlow, hhigh⟩ := Decimal.readWithin?_eq_some_iff.1 hread
      split_ifs at h with hnull
      · cases h
        exact .null
      · obtain ⟨data, rfl, hlength, hbody⟩ := parseBulk_eq_found_iff.1 h
        obtain rfl : i = (data.length : Int) := by omega
        exact .bulk hbulk hdenotes hhigh hbody
  · split at h
    · cases h
    · next i hread =>
      obtain ⟨hdenotes, hlow, hhigh⟩ := Decimal.readWithin?_eq_some_iff.1 hread
      split_ifs at h with hnull
      · cases h
        exact .null
      · obtain ⟨n, rfl⟩ : ∃ n : Nat, i = n := Int.eq_ofNat_of_zero_le (by omega)
        obtain ⟨items, rest, hitems, h⟩ := Parsed.bind_eq_found h
        cases h
        exact .array harray hdenotes hhigh hitems

theorem parseLine_eq_bulk_iff :
    parseLine parseItem tag text body = .found (.bulk data) rest ↔
      tag = 36 ∧ Decimal.Denotes text data.length ∧ data.Small ∧
        body = data ++ Bytes.crlf ++ rest := by
  constructor
  · intro h
    cases parseLine_begins h with
    | bulk htag hdenotes hsmall hbody => exact ⟨htag, hdenotes, hsmall, hbody⟩
  · rintro ⟨rfl, hdenotes, hsmall, rfl⟩
    have hread : Decimal.readWithin? (-1) maxBulk text = some (data.length : Int) :=
      Decimal.readWithin?_eq_some_iff.2 ⟨hdenotes, by omega, hsmall⟩
    have hnull : ¬ (data.length : Int) = -1 := by omega
    have hbody : parseBulk data.length (data ++ Bytes.crlf ++ rest) = .found (.bulk data) rest :=
      parseBulk_eq_found_iff.2 ⟨data, rfl, rfl, rfl⟩
    simp [parseLine, hread, hnull, -List.append_assoc, hbody]

theorem parseLine_eq_array_iff :
    parseLine parseItem tag text body = .found (.array items) rest ↔
      tag = 42 ∧ ∃ n : Nat, Decimal.Denotes text n ∧ (n : Int) ≤ maxItems ∧
        parseItems parseItem n body = .found items rest := by
  constructor
  · intro h
    cases parseLine_begins h with
    | array htag hdenotes hfits hitems => exact ⟨htag, _, hdenotes, hfits, hitems⟩
  · rintro ⟨rfl, n, hdenotes, hmost, hitems⟩
    have hread : Decimal.readWithin? (-1) maxItems text = some (n : Int) :=
      Decimal.readWithin?_eq_some_iff.2 ⟨hdenotes, by omega, hmost⟩
    have hnull : ¬ (n : Int) = -1 := by omega
    simp [parseLine, hread, hnull, hitems, Parsed.bind]

end

theorem parse_eq_bulk_iff :
    parse (levels + 1) bytes = .found (.bulk data) rest ↔
      data.Small ∧ ∃ form, Wire.IsBulk data form ∧ bytes = form ++ rest := by
  simp only [parse_eq_found_iff, parseLine_eq_bulk_iff]
  constructor
  · rintro ⟨_, size, _, -, rfl, rfl, hdenotes, hsmall, rfl⟩
    exact ⟨hsmall, _, ⟨size, hdenotes, rfl⟩, by simp⟩
  · rintro ⟨hsmall, _, ⟨size, hdenotes, rfl⟩, rfl⟩
    exact ⟨36, size, _, Bytes.oneLine_of_denotes hdenotes, by simp, rfl, hdenotes, hsmall, rfl⟩

theorem parseItems_eq_bulks_iff :
    parseItems (parse (levels + 1)) n bytes = .found (arguments.map .bulk) rest ↔
      arguments.length = n ∧ (∀ argument ∈ arguments, argument.Small) ∧
        ∃ forms, Wire.AreBulks arguments forms ∧ bytes = forms ++ rest := by
  induction n generalizing bytes arguments with
  | zero =>
    constructor
    · intro h
      obtain ⟨hnil, rfl⟩ := Parsed.found.inj h
      obtain rfl := List.map_eq_nil_iff.1 hnil.symm
      exact ⟨rfl, by simp, [], .nil, rfl⟩
    · rintro ⟨hlength, -, forms, hforms, rfl⟩
      cases hforms with
      | nil => rfl
      | cons first more => cases hlength
  | succ left ih =>
    constructor
    · intro h
      rw [parseItems] at h
      obtain ⟨reply, body, hfirst, h⟩ := Parsed.bind_eq_found h
      obtain ⟨more, rest, hmore, h⟩ := Parsed.bind_eq_found h
      obtain ⟨hcons, rfl⟩ := Parsed.found.inj h
      obtain ⟨argument, arguments, rfl, rfl, rfl⟩ := List.map_eq_cons_iff.1 hcons.symm
      obtain ⟨hsmall, form, hform, rfl⟩ := parse_eq_bulk_iff.1 hfirst
      obtain ⟨hlength, hsmalls, forms, hforms, rfl⟩ := ih.1 hmore
      exact ⟨by rw [List.length_cons, hlength], List.forall_mem_cons.2 ⟨hsmall, hsmalls⟩,
        form ++ forms, .cons hform hforms, (List.append_assoc ..).symm⟩
    · rintro ⟨hlength, hsmalls, forms, hforms, rfl⟩
      cases hforms with
      | nil => cases hlength
      | @cons data form forms more hform hforms =>
        obtain ⟨hsmall, hsmalls⟩ := List.forall_mem_cons.1 hsmalls
        have hfirst : parse (levels + 1) (form ++ forms ++ rest) =
            .found (.bulk data) (forms ++ rest) :=
          parse_eq_bulk_iff.2 ⟨hsmall, form, hform, List.append_assoc ..⟩
        have hmore : parseItems (parse (levels + 1)) left (forms ++ rest) =
            .found (more.map .bulk) rest :=
          ih.2 ⟨Nat.succ.inj hlength, hsmalls, forms, hforms, rfl⟩
        rw [parseItems, hfirst, Parsed.bind, hmore]
        rfl

/-- **A reader of replies takes what the grammar says**, within its limits. -/
theorem parse_eq_array_iff :
    parse (levels + 2) bytes = .found (.array (arguments.map .bulk)) rest ↔
      ((arguments.length : Int) ≤ maxItems ∧ ∀ argument ∈ arguments, argument.Small) ∧
        ∃ form, Wire.IsCommand arguments form ∧ bytes = form ++ rest := by
  simp only [parse_eq_found_iff, parseLine_eq_array_iff, parseItems_eq_bulks_iff]
  constructor
  · rintro ⟨_, count, _, -, rfl, rfl, _, hdenotes, hmost, rfl, hsmall, forms, hforms, rfl⟩
    exact ⟨⟨hmost, hsmall⟩, _, ⟨count, forms, hdenotes, hforms, rfl⟩, by simp⟩
  · rintro ⟨⟨hmost, hsmall⟩, _, ⟨count, forms, hdenotes, hforms, rfl⟩, rfl⟩
    exact ⟨42, count, _, Bytes.oneLine_of_denotes hdenotes, by simp, rfl, _, hdenotes, hmost, rfl,
      hsmall, forms, hforms, rfl⟩

end Reply

/-! ### Streams -/

namespace RequestStream

variable {s s' : RequestStream} {kept : Bytes} {request : Request}

/-- These are the bytes that arrived since the stream last gave a request; it may have read some of
them. -/
def Keeps (s : RequestStream) (kept : Bytes) : Prop :=
  Framing.Behind Request.Reader.step .start kept s.reader s.ahead

/-- Every stream keeps what a stream would that parses again from the front. -/
theorem keeps_run (moves : List Inlet.Move) :
    (Inlet.run RequestStream.empty moves).2.Keeps (Inlet.run RequestBuffer.empty moves).2.kept :=
  (RequestBuffer.simulates.run .fresh moves).2

/-- A stream gives the request that stands in front, and leaves what follows it. -/
theorem Keeps.next_eq_some_iff (h : s.Keeps kept) :
    s.next = (some request, s') ↔
      ∃ rest, s' = empty.feed rest ∧ Request.first? kept = some (request, rest) := by
  rcases hnext : s.next with ⟨found, r, ahead⟩
  have hread := read_of_next hnext
  rw [Request.first?_eq, h.read_eq, hread]
  cases found with
  | none => simp [Request.Reader.taken]
  | some found =>
    obtain rfl : r = .start := (Framing.scan_of_read_some hread).1
    constructor
    · rintro ⟨⟩
      exact ⟨ahead, rfl, rfl⟩
    · rintro ⟨rest, rfl, ⟨⟩⟩
      rfl

end RequestStream

namespace ReplyStream

variable {t t' : ReplyStream} {kept : Bytes} {reply : Reply}

/-- These are the bytes that arrived since the stream last gave a reply; it may have read some of
them. -/
def Keeps (t : ReplyStream) (kept : Bytes) : Prop :=
  Framing.Behind Reply.Reader.step (.start []) kept t.reader t.ahead

/-- Every stream keeps what a stream would that parses again from the front. -/
theorem keeps_run (moves : List Inlet.Move) :
    (Inlet.run ReplyStream.empty moves).2.Keeps (Inlet.run ReplyBuffer.empty moves).2.kept :=
  (ReplyBuffer.simulates.run ReplyBuffer.follows_empty moves).2.1

/-- A stream gives the reply that stands in front, and leaves what follows it. -/
theorem Keeps.next_eq_some_iff (h : t.Keeps kept) :
    t.next = (some reply, t') ↔
      ∃ rest, t' = empty.feed rest ∧ Reply.parse (Reply.maxDepth + 1) kept = .found reply rest := by
  rcases hnext : t.next with ⟨found, r, ahead⟩
  have hread := read_of_next hnext
  rw [Reply.parse_eq, h.read_eq, hread]
  cases found with
  | none =>
    constructor
    · rintro ⟨⟩
    · rintro ⟨rest, -, hparse⟩
      rw [ReplyBuffer.outcome_none ⟨r, ahead⟩] at hparse
      split at hparse <;> cases hparse
  | some found =>
    obtain rfl : r = .start [] := (Framing.scan_of_read_some hread).1
    constructor
    · rintro ⟨⟩
      exact ⟨ahead, rfl, rfl⟩
    · rintro ⟨rest, rfl, ⟨⟩⟩
      rfl

end ReplyStream

/-! ### Agreement -/

/-- The first line of the bytes says how many arguments there are. -/
def Request.Announced (bytes : Bytes) : Prop :=
  ∃ (n : Nat) (count rest : Bytes), Decimal.Denotes count n ∧ (n : Int) ≤ maxArguments ∧
    bytes = Wire.line 42 count ++ rest

theorem Request.first?_ne_malformed {bytes rest : Bytes} (h : Announced bytes) :
    first? bytes ≠ some (.malformed, rest) := by
  obtain ⟨n, count, body, hdenotes, hmost, hbytes⟩ := h
  obtain ⟨line, hcut, htagged⟩ := (tagged_line_iff (by decide)).2 ⟨⟨count, hdenotes, hbytes⟩, hmost⟩
  rw [first?, hcut]
  simp [htagged]

/-- Within the limits of requests, a request stands in front exactly if a list of bulk strings
does. -/
theorem Request.first?_eq_command_iff_parse {bytes rest : Bytes} {arguments : List Bytes} :
    first? bytes = some (.command arguments, rest) ↔
      (Request.command arguments).Bounded ∧
        Reply.parse (Reply.maxDepth + 1) bytes = .found (.array (arguments.map .bulk)) rest := by
  have hlevels : Reply.maxDepth + 1 = 7 + 2 := rfl
  rw [first?_eq_command_iff, hlevels, Reply.parse_eq_array_iff]
  refine and_congr_right fun hbounded => (and_iff_right ?_).symm
  -- What a reader of requests takes, a reader of replies takes.
  have hitems : maxArguments ≤ Reply.maxItems := by decide
  have hbulk : maxArgument ≤ Reply.maxBulk := by decide
  have hsmall : ∀ argument ∈ arguments, argument.Small := by
    intro argument hargument
    have hlength := hbounded.2 argument hargument
    unfold Bytes.Small
    omega
  exact ⟨Int.le_trans hbounded.1 hitems, hsmall⟩

namespace RequestStream

/-- **The two readers agree.**  Let a stream of requests and a stream of replies keep the same
bytes.  When the one of replies gives a list of bulk strings, within the limits of requests, then
the one of requests gives the same strings; and when the one of requests gives something, though the
first line is not malformed, then the one of replies gives the list of the same strings.  Both leave
the same bytes behind. -/
theorem next_agrees {s : RequestStream} {t : ReplyStream} {kept : Bytes} (hs : s.Keeps kept)
    (ht : t.Keeps kept) :
    (∀ (arguments : List Bytes) (t' : ReplyStream), (Request.command arguments).Bounded →
      t.next = (some (.array (arguments.map .bulk)), t') →
        ∃ rest, t' = ReplyStream.empty.feed rest ∧
          s.next = (some (.command arguments), RequestStream.empty.feed rest)) ∧
    (Request.Announced kept → ∀ (request : Request) (s' : RequestStream),
      s.next = (some request, s') →
        ∃ rest, s' = RequestStream.empty.feed rest ∧
          t.next = (some (.array (request.words.map .bulk)), ReplyStream.empty.feed rest)) := by
  constructor
  · intro arguments t' hbounded hnext
    obtain ⟨rest, ht', hparse⟩ := ht.next_eq_some_iff.1 hnext
    have hfirst := Request.first?_eq_command_iff_parse.2 ⟨hbounded, hparse⟩
    exact ⟨rest, ht', hs.next_eq_some_iff.2 ⟨rest, rfl, hfirst⟩⟩
  · intro hannounced request s' hnext
    obtain ⟨rest, hs', hfirst⟩ := hs.next_eq_some_iff.1 hnext
    cases request with
    | malformed => exact absurd hfirst (Request.first?_ne_malformed hannounced)
    | command arguments =>
      have hparse := (Request.first?_eq_command_iff_parse.1 hfirst).2
      exact ⟨rest, hs', ht.next_eq_some_iff.2 ⟨rest, rfl, hparse⟩⟩

/-- The numbers have zeros in front and a minus sign, one string is empty and the other looks like
the beginning of a request.  The bytes are cut at different places for the two streams. -/
theorem next_agrees_oddNumbers :
    let start := Bytes.ofString "*02\r\n$-"
    let finish := Bytes.ofString "0\r\n\r\n$004\r\n\r\n*1\r\n$"
    let arguments : List Bytes := [[], Bytes.ofString "\r\n*1"]
    let s := (Inlet.run RequestStream.empty [.feed start, .next, .feed finish]).2
    let t := (Inlet.run ReplyStream.empty [.feed (start ++ finish)]).2
    let s' := RequestStream.empty.feed (Bytes.ofString "$")
    let t' := ReplyStream.empty.feed (Bytes.ofString "$")
    (s.Keeps (start ++ finish) ∧ t.Keeps (start ++ finish)) ∧
      ((Request.command arguments).Bounded ∧ Request.Announced (start ++ finish)) ∧
      s.next = (some (.command arguments), s') ∧
      t.next = (some (.array (arguments.map .bulk)), t') := by
  intro start finish arguments s t s' t'
  have hs : s.Keeps (start ++ finish) := keeps_run [.feed start, .next, .feed finish]
  have ht : t.Keeps (start ++ finish) := ReplyStream.keeps_run [.feed (start ++ finish)]
  have hbounded : (Request.command arguments).Bounded := by
    simp only [Request.Bounded]
    decide
  have hannounced : Request.Announced (start ++ finish) :=
    ⟨2, [48, 50], _, ⟨[48, 50], ⟨by decide, by decide⟩, .inl ⟨rfl, rfl⟩⟩, by decide, rfl⟩
  have hnext : s.next = (some (.command arguments), s') := by decide
  obtain ⟨rest, hrest, hreply⟩ := (next_agrees hs ht).2 hannounced _ _ hnext
  obtain rfl : rest = Bytes.ofString "$" := (congrArg RequestStream.ahead hrest).symm
  exact ⟨⟨hs, ht⟩, ⟨hbounded, hannounced⟩, hnext, hreply⟩

end RequestStream

end CoherentCache
