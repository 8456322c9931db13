import CoherentCache.Proofs.Decimal
import CoherentCache.Resp.Reply

/-!
# Requests on the wire are told apart

The wire form of a request says where it ends: it starts with the number of its arguments, and each
argument with its length.  So bytes that start with a request start with one request only, and a
stream of requests determines the requests.

* `Wire.command_append_inj` : a request and what follows it are determined by the bytes of both.
* `Wire.commands_inj` : so is a list of requests.
* `Wire.commands_append_part` : so are requests and the beginning of one more.
-/

namespace CoherentCache

namespace Decimal

theorem ofNat_inj {m n : Nat} (h : ofNat m = ofNat n) : m = n := by
  rw [← value_ofNat m, h, value_ofNat]

end Decimal

namespace Wire

variable {a b : List Bytes} {as bs : List (List Bytes)} {x y : Bytes}

/-- A text without a carriage return ends where the first one stands. -/
theorem text_append_inj {s t : Bytes} (hs : 13 ∉ s) (ht : 13 ∉ t)
    (h : s ++ Bytes.crlf ++ x = t ++ Bytes.crlf ++ y) : s = t ∧ x = y := by
  induction s generalizing t with
  | nil =>
    cases t with
    | nil => exact ⟨rfl, by simpa [Bytes.crlf] using h⟩
    | cons c t => simp_all [Bytes.crlf]
  | cons c s ih =>
    cases t with
    | nil => simp_all [Bytes.crlf]
    | cons d t =>
      obtain ⟨rfl, htail⟩ := List.cons.inj h
      obtain ⟨rfl, hxy⟩ :=
        ih (List.not_mem_of_not_mem_cons hs) (List.not_mem_of_not_mem_cons ht) htail
      exact ⟨rfl, hxy⟩

theorem count_append_inj {tag : UInt8} {m n : Nat}
    (h : line tag (Decimal.ofNat m) ++ x = line tag (Decimal.ofNat n) ++ y) : m = n ∧ x = y := by
  have hdigit : Decimal.isDigit 13 = false := by decide
  obtain ⟨hmn, hxy⟩ := text_append_inj (Decimal.not_mem_ofNat hdigit m)
    (Decimal.not_mem_ofNat hdigit n) (List.cons.inj h).2
  exact ⟨Decimal.ofNat_inj hmn, hxy⟩

theorem bulk_append_inj {s t : Bytes} (h : bulk s ++ x = bulk t ++ y) : s = t ∧ x = y := by
  simp only [bulk, List.append_assoc] at h
  obtain ⟨hlength, h⟩ := count_append_inj h
  obtain ⟨rfl, hend⟩ := List.append_inj h hlength
  exact ⟨rfl, List.append_cancel_left hend⟩

theorem bulks_append_inj (hlength : a.length = b.length)
    (h : (a.map bulk).flatten ++ x = (b.map bulk).flatten ++ y) : a = b ∧ x = y := by
  induction a generalizing b with
  | nil =>
    obtain rfl := List.eq_nil_of_length_eq_zero hlength.symm
    exact ⟨rfl, h⟩
  | cons s a ih =>
    cases b with
    | nil => cases hlength
    | cons t b =>
      simp only [List.map_cons, List.flatten_cons, List.append_assoc] at h
      obtain ⟨rfl, htail⟩ := bulk_append_inj h
      obtain ⟨rfl, hxy⟩ := ih (Nat.succ.inj hlength) htail
      exact ⟨rfl, hxy⟩

/-- **A request ends where its wire form says**: no bytes start with two requests. -/
theorem command_append_inj (h : command a ++ x = command b ++ y) : a = b ∧ x = y := by
  simp only [command, array, List.length_map, List.append_assoc] at h
  obtain ⟨hlength, h⟩ := count_append_inj h
  exact bulks_append_inj hlength h

theorem command_ne_nil : command a ≠ [] := by simp [command, array, line]

/-! ### Streams of requests -/

theorem commands_inj (h : as.flatMap command = bs.flatMap command) : as = bs := by
  induction as generalizing bs with
  | nil =>
    cases bs with
    | nil => rfl
    | cons b bs => simp [command_ne_nil] at h
  | cons a as ih =>
    cases bs with
    | nil => simp [command_ne_nil] at h
    | cons b bs =>
      simp only [List.flatMap_cons] at h
      obtain ⟨rfl, htail⟩ := command_append_inj h
      rw [ih htail]

/-- Bytes that are whole requests, and also whole requests and the beginning of one more: either
nothing of the last one is there, or all of it. -/
theorem commands_append_part {part : Bytes} (hpart : part <+: command b)
    (h : as.flatMap command = bs.flatMap command ++ part) : as = bs ∨ as = bs ++ [b] := by
  induction bs generalizing as with
  | nil =>
    cases as with
    | nil => exact .inl rfl
    | cons a as =>
      -- The whole request at the front is a beginning of the last one, so it is the last one.
      obtain ⟨rest, hrest⟩ := hpart
      have happ : command a ++ (as.flatMap command ++ rest) = command b ++ [] := by
        rw [List.append_nil, ← hrest, ← List.append_assoc, ← List.flatMap_cons, h]
        rfl
      obtain ⟨rfl, hnil⟩ := command_append_inj happ
      have hempty : as.flatMap command = ([] : List (List Bytes)).flatMap command :=
        (List.append_eq_nil_iff.1 hnil).1
      rw [commands_inj hempty]
      exact .inr rfl
  | cons c bs ih =>
    cases as with
    | nil => simp [command_ne_nil] at h
    | cons a as =>
      simp only [List.flatMap_cons, List.append_assoc] at h
      obtain ⟨rfl, htail⟩ := command_append_inj h
      exact (ih htail).imp (congrArg _) (congrArg _)

end Wire

end CoherentCache
