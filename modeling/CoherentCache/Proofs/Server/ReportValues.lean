import CoherentCache.Proofs.Server.Report
import Mathlib.Data.List.Basic

/-!
# What a report says

A reader of a report cuts it at the line feeds and takes a line apart at its colon.  Neither stands
in the names or in the numbers of a report, so that the reader finds the counts that were put in it,
and no line twice.

* `Bytes.valuesOf` : what a report says of a name, as a reader finds it.
* `Service.valuesOf_info` : **the report says of the name of a count what was counted.**
-/

namespace CoherentCache

namespace Bytes

variable {line rest value : Bytes} {name : String}

/-! ### Lines -/

theorem linesGo_append (h : 10 ∉ line) (before rest : Bytes) :
    lines.go before (line ++ 10 :: rest) = (before.reverse ++ line) :: lines rest := by
  induction line generalizing before with
  | nil => simp [lines.go, lines]
  | cons b line ih =>
    obtain ⟨hb, hline⟩ := List.ne_and_not_mem_of_not_mem_cons h
    rw [List.cons_append, lines.go, if_neg hb.symm, ih hline, List.reverse_cons,
      List.append_assoc, List.singleton_append]

/-- The first line ends at the first line feed. -/
theorem lines_append (h : 10 ∉ line) (rest : Bytes) :
    lines (line ++ 10 :: rest) = line :: lines rest := linesGo_append h [] rest

/-! ### Names and values -/

/-- What the lines of a report say of the name. -/
def valuesOf (name : String) (report : Bytes) : List Bytes :=
  (lines report).filterMap (·.dropPrefix? (ofString name ++ [58]))

/-- The name can be told from the value behind it. -/
def IsName (name : String) : Prop := 10 ∉ ofString name ∧ 58 ∉ ofString name

instance (name : String) : Decidable (IsName name) := inferInstanceAs (Decidable (_ ∧ _))

variable {label : String}

theorem dropPrefix?_line (hname : IsName name) (hlabel : IsName label) (value : Bytes) :
    (ofString label ++ 58 :: value).dropPrefix? (ofString name ++ [58]) =
      if ofString label = ofString name then some value else none := by
  ext found
  rw [List.dropPrefix?_eq_some_iff]
  constructor
  · rintro ⟨start, heq, hstart⟩
    rw [eq_of_beq hstart, List.append_assoc, List.singleton_append] at heq
    -- What stands before the first colon is the name on either side.
    have hsplit := congrArg (List.splitOn 58) heq
    rw [List.splitOn_append_cons_self_of_not_mem hlabel.2,
      List.splitOn_append_cons_self_of_not_mem hname.2] at hsplit
    have hsame : ofString label = ofString name := (List.cons.inj hsplit).1
    rw [hsame] at heq
    rw [if_pos hsame, (List.cons.inj (List.append_cancel_left heq)).2]
  · intro h
    split at h
    · next hsame =>
      cases h
      exact ⟨ofString name ++ [58], by rw [hsame, List.append_assoc]; rfl, beq_self_eq_true _⟩
    · cases h

/-- A line in front of a report says one thing of one name. -/
theorem valuesOf_reportLine_append (hname : IsName name) (hlabel : IsName label)
    (hvalue : 10 ∉ value) (rest : Bytes) :
    valuesOf name (reportLine label value ++ rest) =
      (if ofString label = ofString name then [value] else []) ++ valuesOf name rest := by
  have hline : 10 ∉ ofString label ++ 58 :: value := by simp [hlabel.1, hvalue]
  have hreport : reportLine label value ++ rest =
      (ofString label ++ 58 :: value) ++ 10 :: rest := by simp [reportLine]
  rw [hreport, valuesOf, lines_append hline, List.filterMap_cons, dropPrefix?_line hname hlabel]
  by_cases hsame : ofString label = ofString name
  · simp only [if_pos hsame]
    rfl
  · simp only [if_neg hsame]
    rfl

/-- **Lines of counts say what was counted.** -/
theorem valuesOf_countLines_append {counts : List (String × Nat)} (hname : IsName name)
    (hcounts : ∀ count ∈ counts, IsName count.1) (rest : Bytes) :
    valuesOf name (countLines counts ++ rest) =
      (counts.filter (ofString ·.1 = ofString name)).map (Decimal.ofNat ·.2) ++
        valuesOf name rest := by
  induction counts with
  | nil => rfl
  | cons count counts ih =>
    obtain ⟨hcount, hcounts⟩ := List.forall_mem_cons.1 hcounts
    have hdigits : 10 ∉ Decimal.ofNat count.2 := Decimal.not_mem_ofNat (by decide) _
    have hrest := ih hcounts
    rw [countLines] at hrest
    rw [countLines, List.flatMap_cons, List.append_assoc,
      valuesOf_reportLine_append hname hcount hdigits, hrest]
    split
    · next hsame => simp [hsame]
    · next hother => simp [hother]

/-- The one count with a name among counts whose names differ. -/
theorem filter_name_eq {counts : List (String × Nat)} {count : String × Nat}
    (hnodup : (counts.map (ofString ·.1)).Nodup) (h : count ∈ counts) :
    counts.filter (ofString ·.1 = ofString count.1) = [count] := by
  induction counts with
  | nil => cases h
  | cons first counts ih =>
    obtain ⟨hfresh, hrest⟩ := List.nodup_cons.1 hnodup
    rcases List.mem_cons.1 h with rfl | h
    · have hothers : counts.filter (ofString ·.1 = ofString count.1) = [] := by
        simpa [List.filter_eq_nil_iff] using hfresh
      rw [List.filter_cons_of_pos (by simp), hothers]
    · have hne : ofString first.1 ≠ ofString count.1 :=
        (ne_of_mem_of_not_mem (List.mem_map.2 ⟨count, h, rfl⟩) hfresh).symm
      rw [List.filter_cons_of_neg (by simpa using hne), ih hrest h]

end Bytes

open Bytes (IsName valuesOf reportLine countLines valuesOf_reportLine_append
  valuesOf_countLines_append filter_name_eq)

theorem Host.info_of_memory {h : Host} {m : MemoryStore} (hm : h.repository = .memory m) :
    RecordStore.info h = m.info := by
  obtain ⟨repository, network⟩ := h
  cases hm
  rfl

namespace Service

/-- All that is counted on a server with a store in memory. -/
def allCounts (s : Service) (m : MemoryStore) (connected : Nat) : List (String × Nat) :=
  m.counts ++ s.cache.counters.counts ++ s.counts connected

/-- The names of all counts, and those of the other lines of a report. -/
theorem nodup_names (s : Service) (m : MemoryStore) (connected : Nat) :
    (Bytes.ofString "store" :: Bytes.ofString "avg_request_bytes" ::
      (s.allCounts m connected).map (Bytes.ofString ·.1)).Nodup := by
  simp only [allCounts, MemoryStore.counts, Cache.Counters.counts, counts, List.cons_append,
    List.nil_append, List.map_cons, List.map_nil]
  decide

theorem isName_of_mem_allCounts (s : Service) (m : MemoryStore) (connected : Nat) :
    ∀ count ∈ s.allCounts m connected, IsName count.1 := by
  simp only [allCounts, MemoryStore.counts, Cache.Counters.counts, counts, List.cons_append,
    List.nil_append, List.forall_mem_cons]
  decide

/-- **The report says of each name what was counted under it**, and that alone. -/
theorem valuesOf_info {s : Service} {m : MemoryStore}
    (hstore : s.cache.store.repository = .memory m) {connected : Nat} {name : String} {n : Nat}
    (hcount : (name, n) ∈ s.allCounts m connected) :
    valuesOf name (s.info connected) = [Decimal.ofNat n] := by
  have hreport : s.info connected = reportLine "store" MemoryStore.name ++
      (countLines (s.allCounts m connected) ++
        (reportLine "avg_request_bytes" (Decimal.average s.receivedBytes s.requests) ++ [])) := by
    rw [info_eq, Host.info_of_memory hstore, MemoryStore.info_eq]
    simp [allCounts, countLines]
  have haverage : 10 ∉ Decimal.average s.receivedBytes s.requests :=
    Decimal.not_mem_average ⟨by decide, by decide⟩ _ _
  have hname : IsName name := s.isName_of_mem_allCounts m connected _ hcount
  have hmem : Bytes.ofString name ∈ (s.allCounts m connected).map (Bytes.ofString ·.1) :=
    List.mem_map.2 ⟨_, hcount, rfl⟩
  obtain ⟨hfirst, hrest⟩ := List.nodup_cons.1 (s.nodup_names m connected)
  obtain ⟨hlast, hnodup⟩ := List.nodup_cons.1 hrest
  have hstoreName : Bytes.ofString "store" ≠ Bytes.ofString name :=
    (ne_of_mem_of_not_mem (List.mem_cons_of_mem _ hmem) hfirst).symm
  have haverageName : Bytes.ofString "avg_request_bytes" ≠ Bytes.ofString name :=
    (ne_of_mem_of_not_mem hmem hlast).symm
  rw [hreport, valuesOf_reportLine_append hname (by decide) (by decide), if_neg hstoreName,
    valuesOf_countLines_append hname (s.isName_of_mem_allCounts m connected),
    valuesOf_reportLine_append hname (by decide) haverage, if_neg haverageName,
    filter_name_eq hnodup hcount]
  simp [valuesOf, Bytes.lines, Bytes.lines.go]

end Service

end CoherentCache
