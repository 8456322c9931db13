import CoherentCache.Proofs.Resp.RoundTrip

/-!
# What readers let through

A reader gives nothing that is too large: every reply that is read could be put on the wire and read
once more, and every request has so many arguments of such a size at most.

* `Reply.Reader.Sound`, `Request.Reader.Sound` : what holds while a reply or a request is read.
* `Reply.Reader.sound_step`, `Request.Reader.sound_step` : **each byte keeps it so.**
* `ReplyStream.fits_of_next`, `RequestStream.Holds.bounded` : so what is taken off a stream is
  bounded.
-/

namespace CoherentCache

namespace Framing

variable {R A : Type} {step : R → UInt8 → R ⊕ A} {r : R} {P : R → Prop} {Q : A → Prop}

/-- What each byte keeps holds of the reader afterwards and of the item. -/
theorem read_invariant (start : R) (hstart : P start)
    (hstep : ∀ r b, P r → Sum.elim P Q (step r b)) (h : P r) (bytes : Bytes) :
    P (read step start r bytes).2.1 ∧ ∀ item ∈ (read step start r bytes).1, Q item := by
  induction bytes generalizing r with
  | nil => exact ⟨h, by simp [read]⟩
  | cons b bytes ih =>
    have hb := hstep r b h
    simp only [read]
    cases hresult : step r b with
    | inl r' =>
      rw [hresult] at hb
      exact ih hb
    | inr item =>
      rw [hresult] at hb
      refine ⟨hstart, ?_⟩
      intro found hfound
      obtain rfl := Option.some.inj hfound
      exact hb

/-- What each byte keeps holds of all items that are complete. -/
theorem scan_invariant (start : R) (hstart : P start)
    (hstep : ∀ r b, P r → Sum.elim P Q (step r b)) (h : P r) (bytes : Bytes) :
    ∀ item ∈ (scan step start r bytes).1, Q item := by
  induction bytes generalizing r with
  | nil => simp [scan]
  | cons b bytes ih =>
    have hb := hstep r b h
    simp only [scan]
    cases hresult : step r b with
    | inl r' =>
      rw [hresult] at hb
      exact ih hb
    | inr item =>
      rw [hresult] at hb
      intro found hfound
      rcases List.mem_cons.1 hfound with rfl | hfound
      · exact hb
      · exact ih hstart found hfound

end Framing

theorem Decimal.le_of_readWithin? {low high i : Int} {text : Bytes}
    (h : Decimal.readWithin? low high text = some i) : low ≤ i ∧ i ≤ high := by
  obtain ⟨-, hbounds⟩ := Option.filter_eq_some_iff.1 h
  simpa using hbounds

/-! ### Replies -/

namespace Reply

namespace Reader

/-- The lists that are open: what was read of them fits, and no list will be too long. -/
def FramesFit : List Frame → Prop
  | [] => True
  | f :: frames =>
    AllFit (frames.length + 1) f.items ∧ ((f.items.length + f.left + 1 : Nat) : Int) ≤ maxItems ∧
      frames.length < maxDepth ∧ FramesFit frames

/-- What was read of a reply fits so far. -/
def Sound : Reader → Prop
  | .start frames => FramesFit frames
  | .line frames _ text => FramesFit frames ∧ Bytes.OneLine text.reverse
  | .bulk frames room data =>
    FramesFit frames ∧ 0 < room ∧ ((data.length + room : Nat) : Int) ≤ maxBulk + 2
  | .malformed => True

variable {frames : List Frame} {r : Reply} {line : Bytes}

theorem sound_complete (hframes : FramesFit frames) (hr : Fits frames.length r) :
    Sum.elim Sound (Fits 0) (complete frames r) := by
  induction frames generalizing r with
  | nil => exact hr
  | cons f frames ih =>
    obtain ⟨hitems, hlength, hdepth, hrest⟩ := hframes
    obtain ⟨left, items⟩ := f
    cases left with
    | zero =>
      refine ih hrest ?_
      have hall : AllFit (frames.length + 1) (r :: items).reverse := by
        rw [allFit_iff]
        intro item hitem
        rcases List.mem_cons.1 (List.mem_reverse.1 hitem) with rfl | hitem
        · exact hr
        · exact allFit_iff.1 hitems item hitem
      refine ⟨?_, fun _ => hdepth, hall⟩
      rw [List.length_reverse, List.length_cons]
      exact hlength
    | succ left =>
      refine ⟨⟨hr, hitems⟩, ?_, hdepth, hrest⟩
      rw [List.length_cons]
      dsimp only at hlength ⊢
      omega

theorem sound_openList (hframes : FramesFit frames) {n : Nat} (hn : (n : Int) ≤ maxItems) :
    Sum.elim Sound (Fits 0) (openList frames n) := by
  cases n with
  | zero => exact sound_complete hframes ⟨by decide, fun h => absurd rfl h, trivial⟩
  | succ left =>
    rw [openList]
    split
    · next hdepth =>
      refine ⟨trivial, ?_, hdepth, hframes⟩
      simp only [List.length_nil]
      omega
    · trivial

theorem sound_ofLine (hframes : FramesFit frames) (tag : UInt8) (hline : line.OneLine) :
    Sum.elim Sound (Fits 0) (ofLine frames tag line) := by
  unfold ofLine
  split
  · exact sound_complete hframes hline
  split
  · exact sound_complete hframes hline
  split
  · split
    · trivial
    · exact sound_complete hframes trivial
  split
  · split
    · trivial
    · next n hn =>
      have hbounds := Decimal.le_of_readWithin? hn
      split
      · exact sound_complete hframes trivial
      · refine ⟨hframes, Nat.succ_pos _, ?_⟩
        simp only [List.length_nil]
        omega
  split
  · split
    · trivial
    · next n hn =>
      have hbounds := Decimal.le_of_readWithin? hn
      split
      · exact sound_complete hframes trivial
      · exact sound_openList hframes (by omega)
  · trivial

theorem oneLine_of_endsLine {text : Bytes} {b : UInt8} (h : Bytes.OneLine text.reverse) :
    if Bytes.endsLine text b then Bytes.OneLine text.tail.reverse
    else Bytes.OneLine (b :: text).reverse := by
  split
  · cases text with
    | nil => exact h
    | cons a text =>
      rw [List.reverse_cons] at h
      exact (List.isChain_append.1 h).1
  · next hend =>
    rw [List.reverse_cons]
    refine h.append (List.isChain_singleton b) ?_
    -- The byte before it is the first one of what is kept in reverse.
    rw [List.getLast?_reverse, List.head?_singleton]
    by_cases hb : b = 10
    · left
      simpa [Bytes.endsLine, hb] using hend
    · right
      simpa using hb

/-- **Each byte keeps what was read in bounds**, and so does the last one of a reply. -/
theorem sound_step (r : Reader) (b : UInt8) (h : r.Sound) :
    Sum.elim Sound (Fits 0) (r.step b) := by
  cases r with
  | start frames => exact ⟨h, List.isChain_nil⟩
  | line frames tag text =>
    obtain ⟨hframes, htext⟩ := h
    have hkept := oneLine_of_endsLine (b := b) htext
    rw [step]
    split
    · next hend =>
      rw [if_pos hend] at hkept
      exact sound_ofLine hframes tag hkept
    · next hend =>
      rw [if_neg hend] at hkept
      exact ⟨hframes, hkept⟩
  | bulk frames room data =>
    obtain ⟨hframes, hroom, hsize⟩ := h
    rcases room with - | - | room
    · omega
    · -- This is the last byte, and the one before it is kept too.
      simp only [step]
      split
      · next hend =>
        refine sound_complete hframes ?_
        have hpos : data ≠ [] := by
          rintro rfl
          simp [Bytes.endsLine] at hend
        have hlength := List.length_pos_iff.2 hpos
        simp only [Fits, Bytes.Small, List.length_reverse, List.length_tail]
        omega
      · trivial
    · refine ⟨hframes, Nat.succ_pos _, ?_⟩
      simp only [List.length_cons]
      omega
  | malformed => trivial

end Reader

end Reply

namespace ReplyStream

variable {s s' : ReplyStream} {found : Option Reply}

/-- What was read of the next reply fits so far. -/
def Sound (s : ReplyStream) : Prop := s.reader.Sound

theorem sound_empty : empty.Sound := trivial

theorem Sound.feed (h : s.Sound) (data : Bytes) : (s.feed data).Sound := h

/-- **What is taken off a stream of replies can be put on one.** -/
theorem fits_of_next (h : s.Sound) (hnext : s.next = (found, s')) :
    s'.Sound ∧ ∀ reply ∈ found, reply.Fits 0 := by
  have hread := Framing.read_invariant (.start []) trivial Reply.Reader.sound_step h s.ahead
  rwa [read_of_next hnext] at hread

end ReplyStream

/-! ### Requests -/

namespace Request

/-- The request has as many arguments as a reader takes, of such a size, at most. -/
def Bounded : Request → Prop
  | .malformed => True
  | .command arguments => (arguments.length : Int) ≤ maxArguments ∧
      ∀ argument ∈ arguments, (argument.length : Int) ≤ maxArgument

namespace Reader

/-- What was read of a request is in bounds so far. -/
def Sound : Reader → Prop
  | .header _ | .stuck => True
  | .length left arguments _ =>
    ((arguments.length + left + 1 : Nat) : Int) ≤ maxArguments ∧
      ∀ argument ∈ arguments, (argument.length : Int) ≤ maxArgument
  | .data left arguments room argument =>
    (((arguments.length + left + 1 : Nat) : Int) ≤ maxArguments ∧
      ∀ argument ∈ arguments, (argument.length : Int) ≤ maxArgument) ∧
      0 < room ∧ ((argument.length + room : Nat) : Int) ≤ maxArgument + 2

variable {left : Nat} {arguments : List Bytes}

theorem sound_resume (hcount : ((arguments.length + left : Nat) : Int) ≤ maxArguments)
    (hsize : ∀ argument ∈ arguments, (argument.length : Int) ≤ maxArgument) :
    Sum.elim Sound Bounded (resume left arguments) := by
  cases left with
  | zero => exact ⟨by simpa using hcount, by simpa using hsize⟩
  | succ left => exact ⟨hcount, hsize⟩

/-- **Each byte keeps what was read in bounds**, and so does the last one of a request. -/
theorem sound_step (r : Reader) (b : UInt8) (h : r.Sound) :
    Sum.elim Sound Bounded (r.step b) := by
  cases r with
  | header line =>
    rw [step]
    split
    · unfold ofHeader
      split
      · trivial
      · split
        · split
          · trivial
          · next n hn =>
            have hbounds := Decimal.le_of_readWithin? hn
            refine sound_resume ?_ (by simp)
            simp only [List.length_nil]
            omega
        · trivial
    · trivial
  | length left arguments line =>
    rw [step]
    split
    · unfold ofLength
      split
      · trivial
      · split
        · split
          · trivial
          · next n hn =>
            have hbounds := Decimal.le_of_readWithin? hn
            refine ⟨h, Nat.succ_pos _, ?_⟩
            simp only [List.length_nil]
            omega
        · trivial
    · exact h
  | data left arguments room argument =>
    obtain ⟨⟨hcount, hall⟩, hroom, hsize⟩ := h
    rcases room with - | - | room
    · omega
    · simp only [step]
      split
      · next hend =>
        have hpos : argument ≠ [] := by
          rintro rfl
          simp [Bytes.endsLine] at hend
        have hlength := List.length_pos_iff.2 hpos
        refine sound_resume ?_ ?_
        · rw [List.length_cons]
          omega
        · intro a ha
          rcases List.mem_cons.1 ha with rfl | ha
          · simp only [List.length_reverse, List.length_tail]
            omega
          · exact hall a ha
      · trivial
    · refine ⟨⟨hcount, hall⟩, Nat.succ_pos _, ?_⟩
      simp only [List.length_cons]
      omega
  | stuck => trivial

end Reader

end Request

/-- **The requests that are taken off a stream are in bounds.** -/
theorem RequestStream.Holds.bounded {s : RequestStream} {received : Bytes}
    {requests : List Request} (h : s.Holds received requests) :
    ∀ request ∈ requests, request.Bounded := by
  obtain ⟨used, -, hscan⟩ := h
  have hstart : Request.Reader.start.Sound := trivial
  have hall := Framing.scan_invariant .start hstart Request.Reader.sound_step hstart used
  rwa [hscan] at hall

end CoherentCache
