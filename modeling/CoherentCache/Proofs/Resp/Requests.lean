import CoherentCache.Proofs.Resp.Bounds
import CoherentCache.Proofs.Resp.Inlet

/-!
# Requests read back

A request that is put on the wire is read back from it, whatever bytes its arguments hold and
whatever follows it.  So a list of requests is read back from a stream, wherever the bytes are cut
and whenever the stream is asked for the next request.

* `Request.Reader.read_bulk`, `Request.Reader.readOn_bulks` : one argument, and all those to come.
* `Request.Reader.read_command` : **reading undoes writing**, with anything after the request.
* `RequestStream.run_commands` : so it does for requests that arrive in pieces.
-/

namespace CoherentCache

namespace Request

namespace Reader

variable {left : Nat} {arguments : List Bytes}

theorem readsHeader : Framing.ReadsLine step header ofHeader := ⟨fun _ _ => rfl⟩

theorem readsLength (left : Nat) (arguments : List Bytes) :
    Framing.ReadsLine step (length left arguments)
      fun line => .inl (ofLength left arguments line) :=
  ⟨fun _ _ => rfl⟩

theorem counts (left : Nat) (arguments : List Bytes) :
    Framing.Counts step (data left arguments) (fun argument => resume left (argument :: arguments))
      .stuck :=
  ⟨fun _ _ _ => rfl, fun _ _ => rfl⟩

/-- A tag and a number stand on one line. -/
theorem oneLine_count {tag : UInt8} (h : tag ≠ 13) (n : Nat) :
    Bytes.OneLine (tag :: Decimal.ofNat n) :=
  Bytes.OneLine.append (List.isChain_singleton tag) (Reply.Reader.oneLine_ofNat n)
    (.inl (by simpa using h))

theorem ofLength_ofNat {n : Nat} (h : (n : Int) ≤ maxArgument) :
    ofLength left arguments (36 :: Decimal.ofNat n) = .data left arguments (n + 2) [] := by
  have hsize : Decimal.readWithin? 0 maxArgument (Decimal.ofNat n) = some (n : Int) :=
    Reply.Reader.readWithin?_ofNat (by omega) h
  simp [ofLength, hsize]

theorem ofHeader_ofNat {n : Nat} (h : (n : Int) ≤ maxArguments) :
    ofHeader (42 :: Decimal.ofNat n) = resume n [] := by
  have hcount : Decimal.readWithin? 0 maxArguments (Decimal.ofNat n) = some (n : Int) :=
    Reply.Reader.readWithin?_ofNat (by omega) h
  simp [ofHeader, hcount]

/-- An argument is read back. -/
theorem read_bulk {argument : Bytes} (h : (argument.length : Int) ≤ maxArgument) (rest : Bytes) :
    Framing.read step start (.length left arguments []) (Wire.bulk argument ++ rest) =
      Framing.readOn step start (resume left (argument :: arguments)) rest :=
  let size := 36 :: Decimal.ofNat argument.length
  let after := argument ++ Bytes.crlf ++ rest
  calc Framing.read step start (.length left arguments []) (Wire.bulk argument ++ rest)
      = Framing.read step start (.length left arguments []) (size ++ Bytes.crlf ++ after) := by
        simp [Wire.bulk, Wire.line, size, after]
    _ = Framing.readOn step start (.inl (ofLength left arguments size)) after :=
        (readsLength left arguments).read_line after (oneLine_count (by decide) _)
    _ = Framing.read step start (.data left arguments (argument.length + 2) []) after := by
        rw [ofLength_ofNat h, Framing.readOn]
    _ = Framing.readOn step start (resume left (argument :: arguments)) rest :=
        (counts left arguments).read_data argument rest

/-- All arguments that are to come are read back. -/
theorem readOn_bulks {more : List Bytes}
    (h : ∀ argument ∈ more, (argument.length : Int) ≤ maxArgument) (rest : Bytes) :
    Framing.readOn step start (resume more.length arguments)
        ((more.map Wire.bulk).flatten ++ rest) =
      (some (.command (arguments.reverse ++ more)), start, rest) := by
  induction more generalizing arguments with
  | nil => simp [resume, Framing.readOn]
  | cons argument more ih =>
    have hfirst := h argument List.mem_cons_self
    have hmore := fun a ha => h a (List.mem_cons_of_mem _ ha)
    rw [List.map_cons, List.flatten_cons, List.append_assoc, List.length_cons, resume,
      Framing.readOn, read_bulk hfirst, ih hmore]
    simp

/-- **A request is read back**, and nothing of what follows it is used up. -/
theorem read_command {words : List Bytes} (h : (Request.command words).Bounded) (rest : Bytes) :
    Framing.read step start start (Wire.command words ++ rest) =
      (some (.command words), start, rest) :=
  let count := 42 :: Decimal.ofNat words.length
  let after := (words.map Wire.bulk).flatten ++ rest
  calc Framing.read step start start (Wire.command words ++ rest)
      = Framing.read step start (.header []) (count ++ Bytes.crlf ++ after) := by
        simp [Wire.command, Wire.array, Wire.line, count, after, start]
    _ = Framing.readOn step start (ofHeader count) after :=
        readsHeader.read_line after (oneLine_count (by decide) _)
    _ = Framing.readOn step start (resume words.length []) after := by rw [ofHeader_ofNat h.1]
    _ = (some (.command words), start, rest) := readOn_bulks h.2 rest

/-- Requests that follow each other are read back, and then the reader stands where it began. -/
theorem scan_commands {commands : List (List Bytes)}
    (h : ∀ words ∈ commands, (Request.command words).Bounded) :
    Framing.scan step start start (commands.flatMap Wire.command) =
      (commands.map .command, start) := by
  induction commands with
  | nil => rfl
  | cons words commands ih =>
    have hfirst := read_command (h words List.mem_cons_self) (commands.flatMap Wire.command)
    have hmore := ih fun w hw => h w (List.mem_cons_of_mem _ hw)
    obtain ⟨-, used, hused, hscan⟩ := Framing.scan_of_read_some hfirst
    rw [List.flatMap_cons, hused, Framing.scan_append, hscan, hmore]
    rfl

end Reader

end Request

namespace RequestStream

/-- **Requests are read back however they arrive.**  Their bytes come in pieces of any size, the
stream is asked for the next request at any time in between, and in the end until there is none.  It
gives these requests in this order, and nothing is left on it. -/
theorem run_commands {commands : List (List Bytes)} {moves : List Inlet.Move}
    (hbounded : ∀ words ∈ commands, (Request.command words).Bounded)
    (hfed : Inlet.fed moves = commands.flatMap Wire.command) :
    let asked := Inlet.run RequestStream.empty moves
    let drained := Inlet.drain asked.2
    asked.1 ++ drained.1 = commands.map .command ∧ drained.2 = .empty := by
  intro asked drained
  have hscan := RequestStream.reads.scan_run (s := .empty) rfl rfl moves
  rw [hfed, Request.Reader.scan_commands hbounded] at hscan
  obtain ⟨hitems, hreader⟩ := Prod.mk.inj hscan
  have hahead : drained.2.ahead = [] := RequestStream.reads.unread_drain asked.2
  refine ⟨hitems.symm, ?_⟩
  calc drained.2 = ⟨drained.2.reader, drained.2.ahead⟩ := rfl
    _ = .empty := by rw [hahead, ← hreader]; rfl

/-- The first argument looks like the beginning of a request, the second is empty, and the request
after it has no arguments.  Pieces end between the two bytes of a line end, and the stream is asked
for requests too early and too often. -/
theorem run_commands_cutLineEnds :
    let commands : List (List Bytes) := [[[13, 10, 42, 0], []], []]
    let moves : List Inlet.Move :=
      [.feed [42, 50, 13], .next, .feed [10, 36, 52, 13, 10, 13], .next, .next,
        .feed [10, 42, 0, 13], .next, .feed [10, 36, 48, 13, 10, 13, 10, 42], .next, .next,
        .feed [48, 13, 10]]
    let asked := Inlet.run RequestStream.empty moves
    let drained := Inlet.drain asked.2
    ((∀ words ∈ commands, (Request.command words).Bounded) ∧
        Inlet.fed moves = commands.flatMap Wire.command) ∧
      asked.1 ++ drained.1 = [.command [[13, 10, 42, 0], []], .command []] ∧
      drained.2 = .empty := by
  intro commands moves asked drained
  have hbounded : ∀ words ∈ commands, (Request.command words).Bounded := by
    simp [commands, Request.Bounded, Request.maxArguments, Request.maxArgument]
  have hfed : Inlet.fed moves = commands.flatMap Wire.command := by decide
  exact ⟨⟨hbounded, hfed⟩, run_commands hbounded hfed⟩

end RequestStream

end CoherentCache
