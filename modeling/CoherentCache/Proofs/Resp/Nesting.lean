import CoherentCache.Proofs.Resp.RoundTrip

/-!
# How deep lists may lie in lists

A reader keeps the lists that are open around a reply, and it keeps so many of them at most.  A
reply whose nodes all lie within that depth is read back from its wire form.  In any other reply
there is a first node that lies too deep: what stands before it is read, and with it the stream goes
wrong, though every byte of the reply has arrived.

* `Reply.height` : how deep the deepest node of a reply lies.
* `Reply.Proper` : a reply that is put on the wire as the protocol has it, however deep.
* `Reply.read_encode_of_deep` : **a reply that is too deep makes the reader give up.**
* `ReplyStream.next_encode_of_proper` : what comes of a reply that arrives, and of what follows it.
-/

namespace CoherentCache

namespace Reply

mutual

/-- How deep the deepest node of a reply lies, the reply itself lying at depth zero. -/
def height : Reply → Nat
  | .simple _ | .error _ | .integer _ | .bulk _ | .null => 0
  | .array items => heightAll items

/-- How deep the deepest node lies in a list of the given items. -/
def heightAll : List Reply → Nat
  | [] => 0
  | r :: rest => max (r.height + 1) (heightAll rest)

end

mutual

/-- No line of the reply holds a line end, and no part of it is longer than a reader accepts. -/
def Proper : Reply → Prop
  | .simple text | .error text => text.OneLine
  | .integer _ | .null => True
  | .bulk data => data.Small
  | .array items => (items.length : Int) ≤ maxItems ∧ AllProper items

/-- All of the replies are proper. -/
def AllProper : List Reply → Prop
  | [] => True
  | r :: rest => r.Proper ∧ AllProper rest

end

/-! ### Replies that are not too deep -/

mutual

/-- A proper reply fits in if its height leaves room for the lists around it. -/
theorem fits_of_proper : (r : Reply) → (depth : Nat) → r.Proper → depth + r.height ≤ maxDepth →
    Fits depth r
  | .simple text, _, h, _ => by simpa only [Fits, Proper] using h
  | .error text, _, h, _ => by simpa only [Fits, Proper] using h
  | .integer _, _, _, _ => by simp only [Fits]
  | .bulk data, _, h, _ => by simpa only [Fits, Proper] using h
  | .null, _, _, _ => by simp only [Fits]
  | .array items, depth, h, hheight => by
    simp only [Proper] at h
    simp only [height] at hheight
    simp only [Fits]
    refine ⟨h.1, fun hnil => ?_, allFit_of_proper items depth h.2 hheight⟩
    obtain ⟨r, rest, rfl⟩ := List.exists_cons_of_ne_nil hnil
    simp only [heightAll] at hheight
    omega

theorem allFit_of_proper : (items : List Reply) → (depth : Nat) → AllProper items →
    depth + heightAll items ≤ maxDepth → AllFit (depth + 1) items
  | [], _, _, _ => by simp only [AllFit]
  | r :: rest, depth, h, hheight => by
    simp only [AllProper] at h
    simp only [heightAll] at hheight
    simp only [AllFit]
    exact ⟨fits_of_proper r (depth + 1) h.1 (by omega), allFit_of_proper rest depth h.2 (by omega)⟩

end

/-! ### Replies that are too deep -/

open Reader

theorem exists_items_of_height {r : Reply} (h : 0 < r.height) :
    ∃ first more, r = .array (first :: more) := by
  cases r with
  | array items =>
    cases items with
    | nil => simp [height, heightAll] at h
    | cons first more => exact ⟨first, more, rfl⟩
  | simple _ | error _ | integer _ | bulk _ | null => simp [height] at h

theorem read_malformed (bytes : Bytes) : Reader.malformed.read bytes = (none, .malformed, []) := by
  rw [read_eq, Framing.read_of_fixed fun _ => rfl]

variable {frames : List Frame} {room : Nat}

/-- The items of a list that has begun are read up to the first that is too deep, with which the
reader gives up. -/
theorem read_encodeAll_of_deep (hroom : frames.length + 1 + room = maxDepth)
    (hitem : ∀ (r : Reply) (frame : Frame) (rest : Bytes), r.Proper → room < r.height →
      (Reader.start (frame :: frames)).read (r.encode ++ rest) = (none, .malformed, []))
    {items : List Reply} (before : List Reply) (rest : Bytes) (h : AllProper items)
    (hdeep : room + 1 < heightAll items) :
    (Reader.start (⟨items.length - 1, before⟩ :: frames)).read
      ((encodeAll items).flatten ++ rest) = (none, .malformed, []) := by
  induction items generalizing before with
  | nil =>
    simp only [heightAll] at hdeep
    omega
  | cons r items ih =>
    simp only [AllProper] at h
    simp only [heightAll] at hdeep
    rw [encodeAll, List.flatten_cons, List.append_assoc]
    by_cases hr : room < r.height
    · exact hitem r _ _ h.1 hr
    · -- This item is read, and so there is one after it that is too deep.
      have hmore : room + 1 < heightAll items := by omega
      obtain ⟨s, items, rfl⟩ : ∃ s more, items = s :: more := by
        refine List.exists_cons_of_ne_nil ?_
        rintro rfl
        simp only [heightAll] at hmore
        omega
      have hfits : Fits (frames.length + 1) r := fits_of_proper r _ h.1 (by omega)
      have hread := read_encode r (⟨(s :: items).length, before⟩ :: frames)
        ((encodeAll (s :: items)).flatten ++ rest) hfits
      exact hread.trans (ih (r :: before) h.2 hmore)

/-- **A reply that is too deep makes the reader give up**, wherever it stands and whatever follows
it.  The induction is on the room that is left for lists. -/
theorem read_encode_of_deep {r : Reply} (hroom : frames.length + room = maxDepth) (rest : Bytes)
    (h : r.Proper) (hdeep : room < r.height) :
    (Reader.start frames).read (r.encode ++ rest) = (none, .malformed, []) := by
  induction room generalizing frames r rest with
  | zero =>
    obtain ⟨first, more, rfl⟩ := exists_items_of_height hdeep
    simp only [Proper] at h
    -- No list with items may be opened here, whatever its items are.
    have hfull : ¬ frames.length < maxDepth := by omega
    rw [read_array h.1, List.length_cons, openList, if_neg hfull]
    exact read_malformed _
  | succ room ih =>
    obtain ⟨first, more, rfl⟩ := exists_items_of_height (Nat.zero_lt_of_lt hdeep)
    simp only [Proper] at h
    simp only [height] at hdeep
    rw [read_array h.1, openList_of_fits (by simp) (by omega)]
    refine read_encodeAll_of_deep (by omega) ?_ [] rest h.2 hdeep
    intro r frame rest hr hheight
    exact ih (by rw [List.length_cons]; omega) rest hr hheight

end Reply

namespace ReplyStream

/-- **What comes of a reply that arrives.**  A proper reply none of whose nodes lies too deep is
given as it was written, and on the stream is left what followed it.  With any other one the stream
goes wrong. -/
theorem next_encode_of_proper {r : Reply} (h : r.Proper) (rest : Bytes) :
    let fed := empty.feed (r.encode ++ rest)
    if r.height ≤ Reply.maxDepth then fed.next = (some r, empty.feed rest)
    else fed.next.1 = none ∧ fed.next.2.malformed = true := by
  intro fed
  have hfed : fed.next = next ⟨.start [], r.encode ++ rest⟩ := rfl
  rw [hfed]
  split_ifs with hheight
  · exact next_encode (Reply.fits_of_proper r 0 h (by omega)) rest
  · have hdeep : (Reply.Reader.start []).read (r.encode ++ rest) = (none, .malformed, []) :=
      Reply.read_encode_of_deep (Nat.zero_add _) rest h (by simpa using hheight)
    rw [next, hdeep]
    exact ⟨rfl, rfl⟩

/-- A line that ends in a carriage return and one that starts with a line feed, the least integer,
and a bulk string that looks like replies lie at depth eight, where they are read back, and at depth
nine, where they are not. -/
theorem next_encode_of_proper_nested :
    let items : List Reply := [.simple [97, 13], .error [10], .integer Int64.minValue,
      .bulk (Bytes.ofString "*1\r\n$-1\r\n"), .null, .array []]
    let within : Reply := Nat.repeat (fun r => .array [.null, r]) 7 (.array items)
    let beyond : Reply := .array [within]
    (within.Proper ∧ beyond.Proper) ∧ (within.height = 8 ∧ beyond.height = 9) ∧
      (empty.feed (within.encode ++ Bytes.ofString "+")).next =
        (some within, empty.feed (Bytes.ofString "+")) ∧
      (empty.feed (beyond.encode ++ Bytes.ofString "+")).next.1 = none ∧
      (empty.feed (beyond.encode ++ Bytes.ofString "+")).next.2.malformed = true := by
  intro items within beyond
  have hitems : (Reply.array items).Proper := by
    simp only [items, Reply.Proper, Reply.AllProper]
    decide
  have hwithin : within.Proper := by
    simpa [within, Nat.repeat, Reply.Proper, Reply.AllProper, Reply.maxItems] using hitems
  have hbeyond : beyond.Proper := by
    simpa [beyond, Reply.Proper, Reply.AllProper, Reply.maxItems] using hwithin
  have hread := next_encode_of_proper hwithin (Bytes.ofString "+")
  have hwrong := next_encode_of_proper hbeyond (Bytes.ofString "+")
  have hheights : within.height = 8 ∧ beyond.height = 9 := by decide
  simp only [hheights.1, Reply.maxDepth, Nat.le_refl, if_true] at hread
  rw [if_neg (by rw [hheights.2]; decide)] at hwrong
  exact ⟨⟨hwithin, hbeyond⟩, hheights, hread, hwrong⟩

end ReplyStream

end CoherentCache
