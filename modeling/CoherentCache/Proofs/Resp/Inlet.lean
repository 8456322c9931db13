import CoherentCache.Proofs.Resp.Reading

/-!
# Taking items off a stream while bytes arrive

Bytes arrive on a stream in pieces of any size, and items are asked for at any time in between.  All
that can be done to a stream is to feed it and to ask it for the next item, whatever it makes of the
bytes inside.

* `Inlet` : what can be done to a stream, and `Inlet.run` for any number of such moves.
* `Inlet.drain`, `Inlet.drainEach` : ask until there is no item, once and after every piece.
* `Inlet.Kept` : an account of what was received and taken that each move keeps.
* `Inlet.Kept.run`, `Inlet.Kept.drain`, `Inlet.Kept.drainEach` : **so does every run.**
* `Inlet.Silent.run` : a stream that no move makes give anything gives nothing in any run.
* `Inlet.Simulates.run`, `Inlet.Simulates.drainEach` : streams of two kinds that answer each move
  alike answer every run alike, and give the same items when they are drained.
-/

namespace CoherentCache

/-- A stream that bytes arrive on and items are taken off. -/
class Inlet (S : Type) (A : outParam Type) where
  /-- More bytes arrive. -/
  feed : S → Bytes → S
  /-- Takes the next item off the stream, if one is complete. -/
  next : S → Option A × S
  /-- How many bytes there are that were not looked through. -/
  size : S → Nat
  /-- An item takes up bytes. -/
  size_lt : ∀ {s s' : S} {item : A}, next s = (some item, s') → size s' < size s

namespace Inlet

/-- What is done to a stream. -/
inductive Move where
  /-- Bytes arrive. -/
  | feed (data : Bytes)
  /-- The next item is asked for. -/
  | next

/-- The bytes that arrive in the course of moves. -/
def fed : List Move → Bytes
  | [] => []
  | .feed data :: moves => data ++ fed moves
  | .next :: moves => fed moves

variable {S T A : Type} [Inlet S A] [Inlet T A]

/-- One move: the item that is given, if one is asked for and there is one. -/
def move (s : S) : Move → List A × S
  | .feed data => ([], feed s data)
  | .next => ((next s).1.toList, (next s).2)

/-- Moves one after the other: the items that are given, and the stream in the end. -/
def run (s : S) : List Move → List A × S
  | [] => ([], s)
  | m :: moves => ((move s m).1 ++ (run (move s m).2 moves).1, (run (move s m).2 moves).2)

/-- Asks for items until there is none. -/
def drain (s : S) : List A × S :=
  match _h : next s with
  | (none, s') => ([], s')
  | (some item, s') => (item :: (drain s').1, (drain s').2)
termination_by size s
decreasing_by all_goals exact size_lt _h

/-- Pieces arrive one after the other, and after each of them items are asked for until there is
none. -/
def drainEach (s : S) : List Bytes → List A × S
  | [] => ([], s)
  | data :: pieces =>
    ((drain (feed s data)).1 ++ (drainEach (drain (feed s data)).2 pieces).1,
      (drainEach (drain (feed s data)).2 pieces).2)

variable {s : S} {t : T} {items : List A} {received : Bytes}

theorem drain_of_none {s' : S} (h : next s = (none, s')) : drain s = ([], s') := by
  rw [drain]
  split <;> simp_all

theorem drain_of_some {s' : S} {item : A} (h : next s = (some item, s')) :
    drain s = (item :: (drain s').1, (drain s').2) := by
  rw [drain]
  split <;> simp_all

/-- Draining ends where there is no item. -/
theorem exists_of_drain (s : S) : ∃ s', next s' = (none, (drain s).2) := by
  fun_induction drain s with
  | case1 s s' h => exact ⟨s, h⟩
  | case2 s item s' _ ih => exact ih

/-! ### Accounts -/

/-- An account of a stream, of all that was received on it and of the items that were taken off it,
which each move keeps. -/
structure Kept (P : S → Bytes → List A → Prop) : Prop where
  /-- What arrives is put behind what was received. -/
  feed : ∀ {s received items}, P s received items → ∀ data, P (feed s data) (received ++ data) items
  /-- What is given is put behind what was taken. -/
  next : ∀ {s received items}, P s received items →
    P (next s).2 received (items ++ (next s).1.toList)

namespace Kept

variable {P : S → Bytes → List A → Prop}

/-- **A run keeps an account that each move keeps.** -/
theorem run (hP : Kept P) (h : P s received items) (moves : List Move) :
    P (Inlet.run s moves).2 (received ++ fed moves) (items ++ (Inlet.run s moves).1) := by
  induction moves generalizing s received items with
  | nil => simpa [Inlet.run, fed] using h
  | cons m moves ih =>
    cases m with
    | feed data => simpa [Inlet.run, move, fed] using ih (hP.feed h data)
    | next => simpa [Inlet.run, move, fed] using ih (hP.next h)

theorem drain (hP : Kept P) (h : P s received items) :
    P (Inlet.drain s).2 received (items ++ (Inlet.drain s).1) := by
  fun_induction Inlet.drain s generalizing items with
  | case1 s s' hnext =>
    have hnone := hP.next h
    rwa [hnext] at hnone
  | case2 s item s' hnext ih =>
    have hsome := hP.next h
    rw [hnext] at hsome
    simpa using ih hsome

/-- Pieces that are drained one by one keep an account that each move keeps. -/
theorem drainEach (hP : Kept P) (h : P s received items) (pieces : List Bytes) :
    P (Inlet.drainEach s pieces).2 (received ++ pieces.flatten)
      (items ++ (Inlet.drainEach s pieces).1) := by
  induction pieces generalizing s received items with
  | nil => simpa [Inlet.drainEach] using h
  | cons data pieces ih =>
    simpa [Inlet.drainEach] using ih (hP.drain (hP.feed h data))

end Kept

/-! ### Streams that give nothing -/

/-- A condition under which a stream gives nothing, and which each move keeps. -/
structure Silent (P : S → Prop) : Prop where
  /-- No bytes end it. -/
  feed : ∀ {s}, P s → ∀ data, P (feed s data)
  /-- There is no next item. -/
  next : ∀ {s}, P s → (next s).1 = none ∧ P (next s).2

/-- **A stream that gives nothing, whatever arrives, gives nothing in a whole run.** -/
theorem Silent.run {P : S → Prop} (hP : Silent P) (h : P s) (moves : List Move) :
    (Inlet.run s moves).1 = [] ∧ P (Inlet.run s moves).2 := by
  induction moves generalizing s with
  | nil => exact ⟨rfl, h⟩
  | cons m moves ih =>
    cases m with
    | feed data => exact ih (hP.feed h data)
    | next =>
      obtain ⟨hnone, hafter⟩ := hP.next h
      obtain ⟨hitems, hend⟩ := ih hafter
      refine ⟨?_, hend⟩
      simp only [Inlet.run, move]
      rw [hnone, hitems]
      rfl

/-! ### Streams that behave alike -/

/-- Streams of two kinds that stand in the relation answer each move alike, and stand in it again
afterwards. -/
structure Simulates (R : S → T → Prop) : Prop where
  /-- The same bytes arrive on both. -/
  feed : ∀ {s t}, R s t → ∀ data, R (feed s data) (feed t data)
  /-- Both are asked for the next item. -/
  next : ∀ {s t}, R s t → (next s).1 = (next t).1 ∧ R (next s).2 (next t).2

namespace Simulates

variable {R : S → T → Prop}

/-- **Streams that answer each move alike answer a run alike.** -/
theorem run (hR : Simulates R) (h : R s t) (moves : List Move) :
    (Inlet.run s moves).1 = (Inlet.run t moves).1 ∧
      R (Inlet.run s moves).2 (Inlet.run t moves).2 := by
  induction moves generalizing s t with
  | nil => exact ⟨rfl, h⟩
  | cons m moves ih =>
    cases m with
    | feed data => exact ih (hR.feed h data)
    | next =>
      obtain ⟨hitem, hafter⟩ := hR.next h
      obtain ⟨hitems, hend⟩ := ih hafter
      refine ⟨?_, hend⟩
      simp only [Inlet.run, move]
      rw [hitem, hitems]

theorem drain (hR : Simulates R) (h : R s t) :
    (Inlet.drain s).1 = (Inlet.drain t).1 ∧ R (Inlet.drain s).2 (Inlet.drain t).2 := by
  fun_induction Inlet.drain s generalizing t with
  | case1 s s' hnext =>
    obtain ⟨hitem, hafter⟩ := hR.next h
    rw [hnext] at hitem hafter
    have ht : Inlet.next t = (none, (Inlet.next t).2) := Prod.ext hitem.symm rfl
    rw [drain_of_none ht]
    exact ⟨rfl, hafter⟩
  | case2 s item s' hnext ih =>
    obtain ⟨hitem, hafter⟩ := hR.next h
    rw [hnext] at hitem hafter
    have ht : Inlet.next t = (some item, (Inlet.next t).2) := Prod.ext hitem.symm rfl
    obtain ⟨hitems, hend⟩ := ih hafter
    rw [drain_of_some ht]
    exact ⟨by rw [hitems], hend⟩

/-- Streams that answer each move alike give the same items when they are drained after each
piece. -/
theorem drainEach (hR : Simulates R) (h : R s t) (pieces : List Bytes) :
    (Inlet.drainEach s pieces).1 = (Inlet.drainEach t pieces).1 ∧
      R (Inlet.drainEach s pieces).2 (Inlet.drainEach t pieces).2 := by
  induction pieces generalizing s t with
  | nil => exact ⟨rfl, h⟩
  | cons data pieces ih =>
    obtain ⟨hfirst, hafter⟩ := hR.drain (hR.feed h data)
    obtain ⟨hmore, hend⟩ := ih hafter
    refine ⟨?_, hend⟩
    simp only [Inlet.drainEach]
    rw [hfirst, hmore]

end Simulates

end Inlet

/-! ### Readers inside -/

namespace Framing

variable {S R A : Type} {step : R → UInt8 → R ⊕ A} {start r r' : R} {item : A} {found : Option A}
  {ahead ahead' received : Bytes} {items : List A}

/-- An item takes up bytes of what lies ahead. -/
theorem length_of_read_some (h : read step start r ahead = (some item, r', ahead')) :
    ahead'.length < ahead.length := by
  obtain ⟨-, used, rfl, hscan⟩ := scan_of_read_some h
  have hused : used ≠ [] := by
    rintro rfl
    cases hscan
  have hlength := List.length_pos_iff.2 hused
  rw [List.length_append]
  omega

/-- Nothing was received, and nothing taken. -/
theorem Holds.fresh (hreader : r = start) (hahead : ahead = []) :
    Holds step start [] ([] : List A) r ahead := by
  rw [hreader, hahead]
  exact ⟨[], rfl, rfl⟩

/-- The next item is put behind those taken, if there is one. -/
theorem Holds.read (h : Holds step start received items r ahead)
    (hread : Framing.read step start r ahead = (found, r', ahead')) :
    Holds step start received (items ++ found.toList) r' ahead' := by
  cases found with
  | none => simpa using (h.read_none hread).1
  | some item => exact h.read_some hread

/-- The stream has a reader inside, which reads what lies ahead whenever an item is asked for. -/
structure Reads [Inlet S A] (step : R → UInt8 → R ⊕ A) (start : R) (reader : S → R)
    (ahead : S → Bytes) : Prop where
  /-- What arrives is not read yet. -/
  reader_feed : ∀ s data, reader (Inlet.feed s data) = reader s
  /-- What arrives lies behind all that lies ahead already. -/
  ahead_feed : ∀ s data, ahead (Inlet.feed s data) = ahead s ++ data
  /-- What is asked for is read. -/
  read_next : ∀ s, Framing.read step start (reader s) (ahead s) =
    ((Inlet.next s).1, reader (Inlet.next s).2, ahead (Inlet.next s).2)

namespace Reads

variable [Inlet S A] {reader : S → R} {unread : S → Bytes}

/-- What was received and what was taken is accounted for. -/
theorem kept (h : Reads step start reader unread) :
    Inlet.Kept fun s received items =>
      Holds step start received items (reader s) (unread s) where
  feed {s received items} hs data := by
    rw [h.reader_feed, h.ahead_feed]
    exact hs.feed data
  next {s received items} hs := hs.read (h.read_next s)

/-- A stream that was drained has looked through all that arrived. -/
theorem unread_drain (h : Reads step start reader unread) (s : S) :
    unread (Inlet.drain s).2 = [] := by
  obtain ⟨s', hnext⟩ := Inlet.exists_of_drain s
  have hread := h.read_next s'
  rw [hnext] at hread
  exact (scan_of_read_none hread).1

variable {s : S}

/-- **Whenever items are asked for, they are those of all the bytes that arrived**, once the stream
is drained. -/
theorem scan_run (h : Reads step start reader unread) (hreader : reader s = start)
    (hunread : unread s = []) (moves : List Inlet.Move) :
    let asked := Inlet.run s moves
    let drained := Inlet.drain asked.2
    scan step start start (Inlet.fed moves) = (asked.1 ++ drained.1, reader drained.2) := by
  intro asked drained
  have hfresh : Holds step start [] [] (reader s) (unread s) := .fresh hreader hunread
  obtain ⟨used, hused, hscan⟩ := h.kept.drain (h.kept.run hfresh moves)
  rw [h.unread_drain, List.append_nil, List.nil_append] at hused
  rw [hused]
  simpa using hscan

theorem unread_drainEach (h : Reads step start reader unread) (hunread : unread s = [])
    (pieces : List Bytes) : unread (Inlet.drainEach s pieces).2 = [] := by
  induction pieces generalizing s with
  | nil => exact hunread
  | cons data pieces ih => exact ih (h.unread_drain _)

/-- **However the bytes are cut into pieces, the items are those of all the bytes**, if the stream
is drained after each piece. -/
theorem scan_drainEach (h : Reads step start reader unread) (hreader : reader s = start)
    (hunread : unread s = []) (pieces : List Bytes) :
    let drained := Inlet.drainEach s pieces
    scan step start start pieces.flatten = (drained.1, reader drained.2) := by
  intro drained
  have hfresh : Holds step start [] [] (reader s) (unread s) := .fresh hreader hunread
  obtain ⟨used, hused, hscan⟩ := h.kept.drainEach hfresh pieces
  rw [h.unread_drainEach hunread, List.append_nil, List.nil_append] at hused
  rw [hused]
  simpa using hscan

end Reads

end Framing

instance : Inlet RequestStream Request where
  feed := RequestStream.feed
  next := RequestStream.next
  size s := s.ahead.length
  size_lt h := Framing.length_of_read_some (RequestStream.read_of_next h)

instance : Inlet ReplyStream Reply where
  feed := ReplyStream.feed
  next := ReplyStream.next
  size s := s.ahead.length
  size_lt h := Framing.length_of_read_some (ReplyStream.read_of_next h)

theorem RequestStream.reads :
    Framing.Reads Request.Reader.step .start RequestStream.reader RequestStream.ahead where
  reader_feed _ _ := rfl
  ahead_feed _ _ := rfl
  read_next _ := read_of_next rfl

theorem ReplyStream.reads :
    Framing.Reads Reply.Reader.step (.start []) ReplyStream.reader ReplyStream.ahead where
  reader_feed _ _ := rfl
  ahead_feed _ _ := rfl
  read_next _ := read_of_next rfl

end CoherentCache
