import CoherentCache.Proofs.Decimal.Grammar
import CoherentCache.Proofs.Resp.Requests

/-!
# Requests that can never be completed

A reader of requests that has given nothing may be waiting for more bytes, or for bytes that cannot
come: after a proper first line, an argument that is no bulk string is neither a request nor
reported as malformed.  Which of the two it is can be told from what was read.

* `Request.BeginsLength` : the beginning of a line that says how long an argument is.
* `Request.Reader.Blocked` : what was read is the beginning of no request.
* `Request.Reader.Blocked.step` : **a blocked reader stays blocked**, whatever byte comes.
* `Request.Reader.mendable_of_not_blocked` : any other reader is a few bytes away from a request.
* `RequestStream.silent_iff_blocked` : so a stream goes silent for ever exactly if it is blocked.
* `RequestStream.silent_after_badLength` : and there are such streams.
-/

namespace CoherentCache

namespace Request

/-! ### Beginnings of lines that say a length -/

/-- The text says how long an argument is. -/
def SaysLength (text : Bytes) : Prop := (Decimal.readWithin? 0 maxArgument text).isSome

instance (text : Bytes) : Decidable (SaysLength text) := by unfold SaysLength; infer_instance

/-- The text is the beginning of a line that says how long an argument is, its line end included but
for the last byte. -/
def BeginsLength : Bytes → Prop
  | [] => True
  | tag :: size =>
    tag = 36 ∧
      (size = [] ∨ size = [45] ∨ SaysLength size ∨
        (size.getLast? = some 13 ∧ SaysLength size.dropLast))

instance (text : Bytes) : Decidable (BeginsLength text) := by
  unfold BeginsLength; split <;> infer_instance

variable {text size : Bytes} {b : UInt8}

theorem saysLength_iff :
    SaysLength text ↔ ∃ i : Int, Decimal.Denotes text i ∧ 0 ≤ i ∧ i ≤ maxArgument := by
  simp only [SaysLength, Option.isSome_iff_exists, Decimal.readWithin?_eq_some_iff]

theorem SaysLength.oneLine (h : SaysLength size) : Bytes.OneLine (36 :: size) := by
  obtain ⟨i, hdenotes, -⟩ := saysLength_iff.1 h
  have hmem : 13 ∉ size := hdenotes.not_mem (by decide) (by decide)
  exact .of_not_mem (by simpa using hmem)

/-- Without its last byte a number is nothing, a minus sign, or a number that is not larger. -/
theorem SaysLength.of_concat (h : SaysLength (size ++ [b])) :
    size = [] ∨ size = [45] ∨ SaysLength size := by
  obtain ⟨i, ⟨digits, hnumeral, hsize⟩, hlow, hhigh⟩ := saysLength_iff.1 h
  by_cases hnil : size = []
  · exact .inl hnil
  right
  rcases hsize with ⟨rfl, rfl⟩ | ⟨hminus, rfl⟩
  · have hle := Decimal.value_le_concat size b
    exact .inr (saysLength_iff.2
      ⟨Decimal.value size, ⟨size, hnumeral.of_concat hnil, .inl ⟨rfl, rfl⟩⟩, by omega, by omega⟩)
  · -- Behind the minus sign there are only zeros.
    obtain ⟨c, rest, rfl⟩ := List.exists_cons_of_ne_nil hnil
    have hcons : c :: (rest ++ [b]) = 45 :: digits := hminus
    obtain ⟨rfl, rfl⟩ := List.cons.inj hcons
    by_cases hrest : rest = []
    · exact .inl (by rw [hrest])
    · have hle := Decimal.value_le_concat rest b
      exact .inr (saysLength_iff.2 ⟨-(Decimal.value rest : Int),
        ⟨rest, hnumeral.of_concat hrest, .inr ⟨rfl, rfl⟩⟩, by omega, by omega⟩)

/-- What begins a line that says a length was the beginning of one before its last byte came. -/
theorem BeginsLength.of_concat (h : BeginsLength (text ++ [b])) : BeginsLength text := by
  cases text with
  | nil => trivial
  | cons tag size =>
    have hcons : BeginsLength (tag :: (size ++ [b])) := h
    obtain ⟨htag, hsize⟩ := hcons
    refine ⟨htag, ?_⟩
    rcases hsize with hnil | hminus | hsays | ⟨-, hsays⟩
    · simp at hnil
    · left
      simpa using congrArg List.dropLast hminus
    · rcases hsays.of_concat with hsize | hsize | hsize
      · exact .inl hsize
      · exact .inr (.inl hsize)
      · exact .inr (.inr (.inl hsize))
    · rw [List.dropLast_concat] at hsays
      exact .inr (.inr (.inl hsays))

/-- The beginning of a line that says a length can be made up to such a line, unless only the last
byte of its line end is to come. -/
theorem BeginsLength.cases (h : BeginsLength text) :
    (∃ more size, text ++ more = 36 :: size ∧ SaysLength size) ∨
      ∃ size, text = 36 :: size ++ [13] ∧ SaysLength size := by
  cases text with
  | nil => exact .inl ⟨[36, 48], [48], rfl, by decide⟩
  | cons tag size =>
    obtain ⟨rfl, rfl | rfl | hsays | ⟨hlast, hsays⟩⟩ := h
    · exact .inl ⟨[48], [48], rfl, by decide⟩
    · exact .inl ⟨[48], [45, 48], rfl, by decide⟩
    · exact .inl ⟨[], size, List.append_nil _, hsays⟩
    · refine .inr ⟨size.dropLast, ?_, hsays⟩
      rw [List.cons_append, List.dropLast_append_getLast? 13 hlast]

namespace Reader

/-! ### Blocked readers -/

/-- What was read is the beginning of no request, though it is not malformed either: an argument is
no bulk string, or its length cannot become one, or no line end follows its bytes. -/
def Blocked : Reader → Prop
  | .header _ => False
  | .length _ _ line => ¬ BeginsLength line.reverse
  | .data _ _ room argument => room ≤ 1 ∧ argument.head? ≠ some 13
  | .stuck => True

instance (r : Reader) : Decidable r.Blocked := by unfold Blocked; split <;> infer_instance

variable {r : Reader} {left : Nat} {arguments : List Bytes} {line : Bytes}

theorem ofLength_cases (left : Nat) (arguments : List Bytes) (line : Bytes) :
    ofLength left arguments line = .stuck ∨
      ∃ size, line = 36 :: size ∧ SaysLength size := by
  unfold ofLength
  split
  · exact .inl rfl
  · next tag size =>
    split
    · next htag =>
      split
      · exact .inl rfl
      · next n hn => exact .inr ⟨size, by rw [htag], by rw [SaysLength, hn]; rfl⟩
    · exact .inl rfl

/-- **A blocked reader stays blocked**, whatever byte comes. -/
theorem Blocked.step (h : r.Blocked) (b : UInt8) : ∃ r', r.step b = .inl r' ∧ r'.Blocked := by
  cases r with
  | header line => exact h.elim
  | length left arguments line =>
    by_cases hend : Bytes.endsLine line b
    · -- The line is over.  If it said a length, it would have been the beginning of one.
      refine ⟨ofLength left arguments line.tail.reverse, by simp [Reader.step, hend], ?_⟩
      rcases ofLength_cases left arguments line.tail.reverse with hstuck | ⟨size, hsize, hsays⟩
      · rw [hstuck]
        trivial
      · obtain ⟨before, rfl, -⟩ := Bytes.endsLine_iff.1 hend
        have hbefore : before.reverse = 36 :: size := hsize
        refine absurd ?_ h
        rw [List.reverse_cons, hbefore]
        exact ⟨rfl, .inr (.inr (.inr ⟨by simp, by simpa using hsays⟩))⟩
    · refine ⟨.length left arguments (b :: line), by simp [Reader.step, hend], ?_⟩
      intro hbegins
      rw [List.reverse_cons] at hbegins
      exact h hbegins.of_concat
  | data left arguments room argument =>
    obtain ⟨hroom, hhead⟩ := h
    -- This byte was the last chance of a line feed, but no carriage return is before it.
    have hend : Bytes.endsLine argument b = false := by simp [Bytes.endsLine, hhead]
    refine ⟨.stuck, ?_, trivial⟩
    rcases room with - | - | room
    · simp [Reader.step, hend]
    · simp [Reader.step, hend]
    · omega
  | stuck => exact ⟨.stuck, rfl, trivial⟩

/-- A blocked reader gives nothing, and is blocked afterwards. -/
theorem Blocked.read (h : r.Blocked) (bytes : Bytes) :
    ∃ r', Framing.read Reader.step start r bytes = (none, r', []) ∧ r'.Blocked := by
  induction bytes generalizing r with
  | nil => exact ⟨r, rfl, h⟩
  | cons b bytes ih =>
    obtain ⟨r', hstep, hblocked⟩ := h.step b
    rw [Framing.read_cons, hstep]
    exact ih hblocked

/-! ### Other readers -/

/-- Some bytes complete a request, or the malformed line that stands for one. -/
def Mendable (r : Reader) : Prop :=
  ∃ more request, Framing.read step start r more = (some request, start, [])

/-- A reader that gets somewhere mendable without giving anything is mendable. -/
theorem Mendable.of_read {r' : Reader} {used : Bytes} (h : r'.Mendable)
    (hread : Framing.read step start r used = (none, r', [])) : r.Mendable := by
  obtain ⟨more, request, hmore⟩ := h
  exact ⟨used ++ more, request, (Framing.read_append_of_none hread more).trans hmore⟩

/-- Wherever a list of arguments has got to, empty arguments complete it. -/
theorem exists_readOn_resume (left : Nat) (arguments : List Bytes) :
    ∃ more request, Framing.readOn step start (resume left arguments) more =
      (some request, start, []) := by
  -- Empty arguments are the shortest way to the end, and none is too long.
  let blanks : List Bytes := List.replicate left []
  have hlength : blanks.length = left := List.length_replicate
  have hblank : ∀ argument ∈ blanks, (argument.length : Int) ≤ maxArgument := by
    intro argument hargument
    rw [List.eq_of_mem_replicate hargument]
    decide
  refine ⟨(blanks.map Wire.bulk).flatten ++ [], .command (arguments.reverse ++ blanks), ?_⟩
  have hread : Framing.readOn step start (resume blanks.length arguments) _ = _ :=
    readOn_bulks hblank []
  rwa [hlength] at hread

/-- An argument that has at least two more bytes to come is mendable. -/
theorem mendable_data (left : Nat) (arguments : List Bytes) (n : Nat) (argument : Bytes) :
    (data left arguments (n + 2) argument).Mendable := by
  let zeros : Bytes := List.replicate n 0
  have hlength : zeros.length = n := List.length_replicate
  obtain ⟨more, request, hmore⟩ :=
    exists_readOn_resume left ((argument.reverse ++ zeros) :: arguments)
  refine ⟨zeros ++ 13 :: 10 :: more, request, ?_⟩
  have hread : Framing.read step start (data left arguments (zeros.length + 2) argument)
      (zeros ++ 13 :: 10 :: more) = _ :=
    (counts left arguments).read_counted argument zeros 13 10 more
  rw [if_pos ⟨rfl, rfl⟩, hmore, hlength] at hread
  exact hread

/-- An argument of which only the line feed is to come is mendable. -/
theorem mendable_lineFeed (left : Nat) (arguments : List Bytes) {room : Nat} (hroom : room ≤ 1)
    (rest : Bytes) : (data left arguments room (13 :: rest)).Mendable := by
  obtain ⟨more, request, hmore⟩ := exists_readOn_resume left (rest.reverse :: arguments)
  have hend : Bytes.endsLine (13 :: rest) 10 = true := by simp [Bytes.endsLine]
  have hstep : step (data left arguments room (13 :: rest)) 10 =
      resume left (rest.reverse :: arguments) := by
    rcases room with - | - | room
    · simp [step, hend]
    · simp [step, hend]
    · omega
  exact ⟨10 :: more, request, by rw [Framing.read_cons, hstep, hmore]⟩

/-- A line that says a length is followed by an argument. -/
theorem mendable_ofLength (left : Nat) (arguments : List Bytes) (h : SaysLength size) :
    (ofLength left arguments (36 :: size)).Mendable := by
  obtain ⟨i, hi⟩ := Option.isSome_iff_exists.1 h
  have hlength : ofLength left arguments (36 :: size) = data left arguments (i.toNat + 2) [] := by
    simp [ofLength, hi]
  rw [hlength]
  exact mendable_data left arguments i.toNat []

theorem mendable_length (left : Nat) (arguments : List Bytes) (h : BeginsLength line.reverse) :
    (length left arguments line).Mendable := by
  rcases h.cases with ⟨more, size, hline, hsays⟩ | ⟨size, hline, hsays⟩
  · have hone : Bytes.OneLine (line.reverse ++ more) := by
      rw [hline]
      exact hsays.oneLine
    have hread : Framing.read step start (length left arguments line)
        (more ++ Bytes.crlf ++ []) = _ :=
      (readsLength left arguments).read_line_from [] hone
    rw [hline] at hread
    exact (mendable_ofLength left arguments hsays).of_read hread
  · -- Only the line feed of the line end is to come.
    obtain rfl : line = 13 :: (36 :: size).reverse := by
      rw [← List.reverse_inj, hline]
      simp
    have hread : Framing.read step start (length left arguments (13 :: (36 :: size).reverse)) [10] =
        (none, ofLength left arguments (36 :: size), []) := by
      simp [Framing.read, step, Bytes.endsLine]
    exact (mendable_ofLength left arguments hsays).of_read hread

theorem ofHeader_cases (line : Bytes) :
    ofHeader line = .inr .malformed ∨ ∃ n, ofHeader line = resume n [] := by
  unfold ofHeader
  split
  · exact .inl rfl
  · split
    · split
      · exact .inl rfl
      · next n _ => exact .inr ⟨n.toNat, rfl⟩
    · exact .inl rfl

theorem mendable_header (line : Bytes) : (header line).Mendable := by
  have hend : ∀ more, Framing.read step start (header line) (13 :: 10 :: more) =
      Framing.readOn step start (ofHeader line.reverse) more := by
    intro more
    have hreturn : Bytes.endsLine line 13 = false := by simp [Bytes.endsLine]
    have hfeed : Bytes.endsLine (13 :: line) 10 = true := by simp [Bytes.endsLine]
    simp [Framing.read_cons, Framing.readOn, step, hreturn, hfeed]
  rcases ofHeader_cases line.reverse with hmalformed | ⟨n, hresume⟩
  · exact ⟨[13, 10], .malformed, by rw [hend, hmalformed]; rfl⟩
  · obtain ⟨more, request, hmore⟩ := exists_readOn_resume n []
    exact ⟨13 :: 10 :: more, request, by rw [hend, hresume, hmore]⟩

/-- **A reader that is not blocked is a few bytes away from a request.** -/
theorem mendable_of_not_blocked (h : ¬ r.Blocked) : r.Mendable := by
  cases r with
  | header line => exact mendable_header line
  | length left arguments line => exact mendable_length left arguments (Decidable.not_not.1 h)
  | data left arguments room argument =>
    by_cases hroom : room ≤ 1
    · -- The byte before is a carriage return, or the reader would be blocked.
      have hhead : argument.head? = some 13 := by
        by_contra hne
        exact h ⟨hroom, hne⟩
      obtain ⟨rest, rfl⟩ : ∃ rest, argument = 13 :: rest := ⟨_, List.eq_cons_of_mem_head? hhead⟩
      exact mendable_lineFeed left arguments hroom rest
    · obtain ⟨n, rfl⟩ : ∃ n, room = n + 2 := ⟨room - 2, by omega⟩
      exact mendable_data left arguments n argument
  | stuck => exact absurd trivial h

end Reader

end Request

/-! ### Streams -/

namespace RequestStream

variable {s s' : RequestStream}

/-- A blocked stream gives nothing, and stays blocked. -/
theorem silent_blocked : Inlet.Silent fun s : RequestStream => s.reader.Blocked where
  feed h _ := h
  next {s} h := by
    obtain ⟨r', hread, hblocked⟩ := h.read s.ahead
    have hnext : Inlet.next s = (none, (⟨r', []⟩ : RequestStream)) := by
      simp only [Inlet.next, next, Request.Reader.read_eq, hread]
    rw [hnext]
    exact ⟨rfl, hblocked⟩

/-- **A stream that has given nothing is silent for ever if it is blocked, and only then**: any
other gives a request, or the malformed line that stands for one, once the right bytes arrive. -/
theorem silent_iff_blocked (h : s.next = (none, s')) :
    (s'.reader.Blocked → ∀ moves, (Inlet.run s' moves).1 = []) ∧
      (¬ s'.reader.Blocked → ∃ more request t, (s'.feed more).next = (some request, t)) := by
  have hahead : s'.ahead = [] := (Framing.scan_of_read_none (read_of_next h)).1
  constructor
  · intro hblocked moves
    exact (silent_blocked.run hblocked moves).1
  · intro hblocked
    obtain ⟨more, request, hread⟩ := Request.Reader.mendable_of_not_blocked hblocked
    refine ⟨more, request, empty, ?_⟩
    have hfeed : (s'.feed more).ahead = more := by simp [feed, hahead]
    have hreader : (s'.feed more).reader = s'.reader := rfl
    simp only [next, Request.Reader.read_eq, hfeed, hreader, hread]
    rfl

/-- A request cut off between its last argument and the line end of it can still be completed; one
that has another byte in the place of that line end cannot. -/
theorem silent_iff_blocked_afterArgument :
    let cut := empty.feed (Bytes.ofString "*1\r\n$4\r\nPING")
    let longer := empty.feed (Bytes.ofString "*1\r\n$4\r\nPINGS")
    (∃ more request t, (cut.next.2.feed more).next = (some request, t)) ∧
      ∀ moves, (Inlet.run longer.next.2 moves).1 = [] := by
  intro cut longer
  have hcut : cut.next = (none, cut.next.2) := by decide
  have hlonger : longer.next = (none, longer.next.2) := by decide
  exact ⟨(silent_iff_blocked hcut).2 (by decide), (silent_iff_blocked hlonger).1 (by decide)⟩

/-- After a negative length no request is ever given again, though none is reported as malformed. -/
theorem silent_after_badLength :
    let s := empty.feed (Bytes.ofString "*1\r\n$-99\r\nBAD\r\n")
    s.next.1 = none ∧ ∀ moves, (Inlet.run s.next.2 moves).1 = [] := by
  intro s
  have hnext : s.next = (none, ⟨.stuck, []⟩) := by decide
  have hblocked : s.next.2.reader.Blocked := by
    rw [hnext]
    trivial
  exact ⟨by rw [hnext], fun moves => (silent_blocked.run hblocked moves).1⟩

end RequestStream

end CoherentCache
