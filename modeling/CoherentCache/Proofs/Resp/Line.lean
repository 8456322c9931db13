import CoherentCache.Proofs.Resp.Reading
import Mathlib.Data.List.Chain

/-!
# Lines and counted bytes

Readers of requests and of replies have two things in common.  They read a line up to the first line
end, and they read so many bytes that a line end must follow.  Both are told of any reader whose
steps are of that shape, and both for all that may come: the whole of it, only a part, and, of
counted bytes, something else where the line end should be.

* `Bytes.OneLine` : a text that can stand on a line.
* `Framing.ReadsLine.read_line`, `Framing.ReadsLine.read_part` : a line, and the beginning of one.
* `Framing.Counts.read_counted`, `Framing.Counts.read_part` : counted bytes, and a part of them.
-/

namespace CoherentCache

namespace Bytes

/-- The text holds no carriage return that is followed by a line feed. -/
def OneLine (s : Bytes) : Prop := s.IsChain fun a b => ¬ (a = 13 ∧ b = 10)

instance (s : Bytes) : Decidable (OneLine s) := by unfold OneLine; infer_instance

theorem OneLine.append {s t : Bytes} (hs : s.OneLine) (ht : t.OneLine)
    (h : s.getLast? ≠ some 13 ∨ t.head? ≠ some 10) : (s ++ t).OneLine := by
  refine List.isChain_append.2 ⟨hs, ht, ?_⟩
  rintro a ha b hb ⟨rfl, rfl⟩
  rcases h with h | h
  · exact h ha
  · exact h hb

theorem OneLine.of_not_mem {s : Bytes} (h : 13 ∉ s) : s.OneLine := by
  induction s with
  | nil => exact List.isChain_nil
  | cons b s ih =>
    rw [List.mem_cons, not_or] at h
    have hrest : OneLine s := ih h.2
    cases s with
    | nil => exact List.isChain_singleton b
    | cons c s => exact List.isChain_cons_cons.2 ⟨fun hb => h.1 hb.1.symm, hrest⟩

theorem endsLine_iff {before : Bytes} {b : UInt8} :
    endsLine before b = true ↔ ∃ rest, before = 13 :: rest ∧ b = 10 := by
  rw [endsLine, Bool.and_eq_true]
  constructor
  · rintro ⟨hb, hhead⟩
    cases before with
    | nil => simp at hhead
    | cons a rest => exact ⟨rest, by simpa using hhead, by simpa using hb⟩
  · rintro ⟨rest, rfl, rfl⟩
    simp

/-- Within a line no byte ends it; `before` holds the bytes before that byte, the last one first. -/
theorem OneLine.not_endsLine {before rest : Bytes} {b : UInt8}
    (h : OneLine (before.reverse ++ b :: rest)) : endsLine before b = false := by
  rw [← Bool.not_eq_true, endsLine_iff]
  rintro ⟨rest, rfl, rfl⟩
  rw [List.reverse_cons] at h
  exact (List.isChain_append.1 h).2.2 13 (by simp) 10 rfl ⟨rfl, rfl⟩

end Bytes

namespace Framing

variable {R A : Type} {step : R → UInt8 → R ⊕ A} {start : R}

/-- Reading goes on, unless an item is complete already. -/
def readOn (step : R → UInt8 → R ⊕ A) (start : R) : R ⊕ A → Bytes → Option A × R × Bytes
  | .inl r, bytes => read step start r bytes
  | .inr item, bytes => (some item, start, bytes)

@[simp] theorem readOn_inl (r : R) (bytes : Bytes) :
    readOn step start (.inl r) bytes = read step start r bytes := rfl

@[simp] theorem readOn_inr (item : A) (bytes : Bytes) :
    readOn step start (.inr item) bytes = (some item, start, bytes) := rfl

theorem read_cons (r : R) (b : UInt8) (bytes : Bytes) :
    read step start r (b :: bytes) = readOn step start (step r b) bytes := by
  simp only [read]
  cases step r b <;> rfl

/-- Bytes that complete no item are read once, whatever arrives after them. -/
theorem read_append_of_none {r r' : R} {used ahead : Bytes}
    (h : read step start r used = (none, r', ahead)) (more : Bytes) :
    read step start r (used ++ more) = read step start r' more := by
  induction used generalizing r with
  | nil =>
    cases h
    rfl
  | cons b used ih =>
    rw [read_cons] at h
    rw [List.cons_append, read_cons]
    cases hstep : step r b with
    | inl r =>
      rw [hstep] at h
      exact ih h
    | inr item =>
      rw [hstep] at h
      cases h

/-- An item that is complete is read, whatever arrives after it. -/
theorem read_append_of_some {r r' : R} {item : A} {used ahead : Bytes}
    (h : read step start r used = (some item, r', ahead)) (more : Bytes) :
    read step start r (used ++ more) = (some item, r', ahead ++ more) := by
  induction used generalizing r with
  | nil => cases h
  | cons b used ih =>
    rw [read_cons] at h
    rw [List.cons_append, read_cons]
    cases hstep : step r b with
    | inl r =>
      rw [hstep] at h
      exact ih h
    | inr found =>
      rw [hstep] at h
      cases h
      rfl

/-- A reader that no byte moves reads all there is, for nothing. -/
theorem read_of_fixed {r : R} (h : ∀ b, step r b = .inl r) (bytes : Bytes) :
    read step start r bytes = (none, r, []) := by
  induction bytes with
  | nil => rfl
  | cons b bytes ih => rw [read_cons, h, readOn, ih]

/-! ### Lines -/

/-- The reader reads a line: `state` is where it stands with the bytes before, the last one first,
and `finish` says how it goes on after the line. -/
structure ReadsLine (step : R → UInt8 → R ⊕ A) (state : Bytes → R) (finish : Bytes → R ⊕ A) :
    Prop where
  /-- A byte is kept, unless it ends the line. -/
  step_eq : ∀ before b, step (state before) b =
    if Bytes.endsLine before b then finish before.tail.reverse else .inl (state (b :: before))

namespace ReadsLine

variable {state : Bytes → R} {finish : Bytes → R ⊕ A} {before text : Bytes}

/-- A line that has begun is read up to its end, `before` being what was read of it already. -/
theorem read_line_from (h : ReadsLine step state finish) (rest : Bytes)
    (hline : Bytes.OneLine (before.reverse ++ text)) :
    read step start (state before) (text ++ Bytes.crlf ++ rest) =
      readOn step start (finish (before.reverse ++ text)) rest := by
  induction text generalizing before with
  | nil =>
    have hreturn : Bytes.endsLine before 13 = false := by simp [Bytes.endsLine]
    have hfeed : Bytes.endsLine (13 :: before) 10 = true := by simp [Bytes.endsLine]
    simp [Bytes.crlf, read_cons, h.step_eq, readOn, hreturn, hfeed]
  | cons b text ih =>
    have hnext : Bytes.OneLine ((b :: before).reverse ++ text) := by simpa using hline
    rw [List.cons_append, List.cons_append, read_cons, h.step_eq, hline.not_endsLine]
    simpa [readOn] using ih hnext

/-- **A line is read up to its end.** -/
theorem read_line (h : ReadsLine step state finish) (rest : Bytes) (hline : text.OneLine) :
    read step start (state []) (text ++ Bytes.crlf ++ rest) =
      readOn step start (finish text) rest :=
  h.read_line_from rest hline

/-- The beginning of a line is kept. -/
theorem read_part (h : ReadsLine step state finish)
    (hline : Bytes.OneLine (before.reverse ++ text)) :
    read step start (state before) text = (none, state (text.reverse ++ before), []) := by
  induction text generalizing before with
  | nil => rfl
  | cons b text ih =>
    have hnext : Bytes.OneLine ((b :: before).reverse ++ text) := by simpa using hline
    rw [read_cons, h.step_eq, hline.not_endsLine]
    simpa [readOn] using ih hnext

end ReadsLine

/-! ### Counted bytes -/

/-- The reader reads so many bytes that a line end must follow: `state` is where it stands with so
many bytes to come and the bytes before, the last one first; `finish` says how it goes on after
them, and `fail` where it ends up when something else follows. -/
structure Counts (step : R → UInt8 → R ⊕ A) (state : Nat → Bytes → R) (finish : Bytes → R ⊕ A)
    (fail : R) : Prop where
  /-- A byte that is not the last one is kept. -/
  more : ∀ room before b, step (state (room + 2) before) b = .inl (state (room + 1) (b :: before))
  /-- With the last one a line must end. -/
  last : ∀ before b, step (state 1 before) b =
    if Bytes.endsLine before b then finish before.tail.reverse else .inl fail

namespace Counts

variable {state : Nat → Bytes → R} {finish : Bytes → R ⊕ A} {fail : R}

/-- **Counted bytes are read up to the two bytes after them**, which must be a line end. -/
theorem read_counted (h : Counts step state finish fail) (before data : Bytes) (x y : UInt8)
    (rest : Bytes) :
    read step start (state (data.length + 2) before) (data ++ x :: y :: rest) =
      readOn step start
        (if x = 13 ∧ y = 10 then finish (before.reverse ++ data) else .inl fail) rest := by
  induction data generalizing before with
  | nil =>
    have hlast : Bytes.endsLine (x :: before) y = decide (x = 13 ∧ y = 10) := by
      simp [Bytes.endsLine, Bool.and_comm]
    simp [read_cons, readOn, h.more, h.last, hlast]
  | cons b data ih =>
    have hroom : (b :: data).length + 2 = (data.length + 1) + 2 := rfl
    rw [hroom, List.cons_append, read_cons, h.more, readOn]
    simpa using ih (b :: before)

/-- Counted bytes that a line end follows are read as they are. -/
theorem read_data (h : Counts step state finish fail) (data rest : Bytes) :
    read step start (state (data.length + 2) []) (data ++ Bytes.crlf ++ rest) =
      readOn step start (finish data) rest := by
  rw [List.append_assoc]
  refine (h.read_counted [] data 13 10 rest).trans ?_
  rw [if_pos ⟨rfl, rfl⟩]
  rfl

/-- A part of counted bytes is kept. -/
theorem read_part (h : Counts step state finish fail) {room : Nat} (before : Bytes) {data : Bytes}
    (hroom : data.length < room) :
    read step start (state room before) data =
      (none, state (room - data.length) (data.reverse ++ before), []) := by
  induction data generalizing room before with
  | nil => rfl
  | cons b data ih =>
    rw [List.length_cons] at hroom
    obtain ⟨left, rfl⟩ : ∃ left, room = left + 2 := ⟨room - 2, by omega⟩
    have hleft : left + 2 - (b :: data).length = left + 1 - data.length := by
      rw [List.length_cons]
      omega
    rw [read_cons, h.more, readOn, ih (b :: before) (by omega), hleft]
    simp

end Counts

end Framing

end CoherentCache
