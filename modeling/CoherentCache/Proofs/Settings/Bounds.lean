import CoherentCache.Proofs.Draft
import CoherentCache.Proofs.Settings.Loading

/-!
# Loading files one after another

Files are loaded over the settings that are there, any number of them and whatever they hold.  The
settings of a file are taken over one by one, into a copy, and only then it is known whether the
kind of store is one.  So a file that is refused must not show in the settings, and it is by the
range of each setting that no file can spoil them.

* `Settings.InRange` : every number is in its range, and the kind of store is known.
* `Settings.InRange.override`, `Settings.InRange.load` : files keep it so.
* `Settings.override_override` : reading a text once more changes nothing.
* `Settings.loadInto`, `Settings.reload` : settings taken over one by one, and the settings that are
  there after a file was loaded over them.
* `Settings.reloads_in_range` : **settings stay in their ranges, a file that is refused leaves them
  as they were, and a file that is loaded again changes nothing further.**
-/

namespace CoherentCache

namespace Settings

variable {s t : Settings} {files files' : Files} {path path' text : Bytes}

/-! ### Ranges -/

/-- Every number that files can set is in its range, the retention time is the same for both kinds
of store, and the kind of store is known. -/
structure InRange (s : Settings) : Prop where
  /-- The numbers are in their ranges. -/
  number : ∀ f ∈ numberSettings, (f.low : Int) ≤ f.value s ∧ f.value s ≤ f.high
  /-- There is one retention time. -/
  retention : s.memory.retention = s.remote.retention
  /-- The kind of store is known. -/
  backend : s.backend = Backend.word .memory ∨ s.backend = Backend.word .remote

theorem inRange_default : InRange {} := ⟨by decide, rfl, .inl rfl⟩

theorem low_le_high : ∀ f ∈ numberSettings, f.low ≤ f.high := by decide

theorem clamp_mem {low high : Nat} (h : low ≤ high) (n : Nat) :
    low ≤ clamp low high n ∧ clamp low high n ≤ high := by
  unfold clamp
  omega

/-- A number stays in its range, whatever is given for it. -/
theorem NumberSetting.overridden_mem {f : NumberSetting} {current : Int} (hf : f.low ≤ f.high)
    (hcurrent : f.low ≤ current ∧ current ≤ f.high) (given : Option Nat) :
    f.low ≤ f.overridden given current ∧ f.overridden given current ≤ f.high := by
  cases given with
  | none => exact hcurrent
  | some n => exact (clamp_mem hf n).imp Int.ofNat_le.2 Int.ofNat_le.2

/-- **Reading a text keeps the ranges**, if the kind of store is known afterwards. -/
theorem InRange.override (h : s.InRange)
    (hbackend : (Backend.ofWord? (s.override text).backend).isSome) :
    (s.override text).InRange where
  number f hf := by
    rw [number_override s text hf]
    exact f.overridden_mem (low_le_high f hf) (h.number f hf) _
  retention := by
    show rangedMillis text "tombstone_ttl_ms" 86400000 s.memory.retention =
      rangedMillis text "tombstone_ttl_ms" 86400000 s.remote.retention
    rw [h.retention]
  backend := Backend.isSome_ofWord?.1 hbackend

theorem NumberSetting.overridden_overridden (f : NumberSetting) (given : Option Nat)
    (current : Int) :
    f.overridden given (f.overridden given current) = f.overridden given current := by
  cases given <;> rfl

/-- **Reading a text once more changes nothing.** -/
theorem override_override (s : Settings) (text : Bytes) :
    (s.override text).override text = s.override text := by
  refine eq_of_values (fun f hf => ?_) (fun f hf => ?_) rfl rfl
  · rw [number_override _ text hf, number_override s text hf, f.overridden_overridden]
  · rw [text_override _ text hf, text_override s text hf]
    cases Lookup.string? text f.name <;> rfl

/-! ### Loading one file -/

/-- **What it takes for a file to be loaded**, and what it leads to. -/
theorem load_eq_ok_iff :
    s.load files path = .ok t ↔ ∃ text, files path = some text ∧ (123 ∈ text ∧ 125 ∈ text) ∧
      t = s.override text ∧ (Backend.ofWord? t.backend).isSome := by
  unfold load
  cases files path with
  | none => simp
  | some text =>
    simp only [Option.some.injEq, exists_eq_left', ofFile, Bool.and_eq_true, List.contains_iff_mem]
    by_cases hbraces : 123 ∈ text ∧ 125 ∈ text
    · rw [if_pos hbraces]
      by_cases hknown : (Backend.ofWord? (s.override text).backend).isSome
      · rw [if_pos hknown]
        constructor
        · rintro ⟨⟩
          exact ⟨hbraces, rfl, hknown⟩
        · rintro ⟨-, rfl, -⟩
          rfl
      · rw [if_neg hknown]
        constructor
        · rintro ⟨⟩
        · rintro ⟨-, rfl, h⟩
          exact absurd h hknown
    · rw [if_neg hbraces]
      constructor
      · rintro ⟨⟩
      · exact fun h => absurd h.1 hbraces

/-- **Loading a file keeps the ranges.** -/
theorem InRange.load (h : s.InRange) (ht : s.load files path = .ok t) : t.InRange := by
  obtain ⟨text, -, -, rfl, hknown⟩ := load_eq_ok_iff.1 ht
  exact h.override hknown

/-- **A file that was loaded changes nothing when it is loaded again**, at whatever path. -/
theorem load_again (h : files' path' = files path) (ht : s.load files path = .ok t) :
    t.load files' path' = .ok t := by
  obtain ⟨text, htext, hbraces, rfl, hknown⟩ := load_eq_ok_iff.1 ht
  have hsame := override_override s text
  exact load_eq_ok_iff.2 ⟨text, h.trans htext, hbraces, hsame.symm, hknown⟩

/-- A file that is refused is refused at any other path. -/
theorem exists_error_of_error {fault : FileFault} (h : files' path' = files path)
    (hfault : s.load files path = .error fault) :
    ∃ fault', s.load files' path' = .error fault' := by
  cases hload : s.load files' path' with
  | error fault' => exact ⟨fault', rfl⟩
  | ok t =>
    obtain ⟨text, htext, hrest⟩ := load_eq_ok_iff.1 hload
    have hok : s.load files path = .ok t := load_eq_ok_iff.2 ⟨text, h.symm.trans htext, hrest⟩
    rw [hok] at hfault
    cases hfault

/-! ### Loading over the settings that are there -/

/-- Takes over all settings that the text names, one after the other. -/
def takeAll (text : Bytes) : EStateM FileFault (Draft Settings) Unit := do
  Draft.edit fun s => { s with port := rangedPort text "port" s.port }
  Draft.edit fun s => { s with backend := (Lookup.string? text "backend").getD s.backend }
  Draft.edit fun s =>
    { s with maxConnections := ranged text "max_connections" 1 65536 s.maxConnections }
  Draft.edit fun s =>
    { s with maxPending := ranged text "max_pending_out" 4096 1073741824 s.maxPending }
  Draft.edit fun s => { s with memory.shards := ranged text "shards" 1 4096 s.memory.shards }
  Draft.edit fun s =>
    { s with
      memory.retention := rangedMillis text "tombstone_ttl_ms" 86400000 s.memory.retention
      remote.retention := rangedMillis text "tombstone_ttl_ms" 86400000 s.remote.retention }
  Draft.edit fun s =>
    { s with memory.sweepLimit := ranged text "ttl_cleanup_per_tick" 1 1000000 s.memory.sweepLimit }
  Draft.edit fun s =>
    { s with remote.host := (Lookup.string? text "redis_host").getD s.remote.host }
  Draft.edit fun s => { s with remote.port := rangedPort text "redis_port" s.remote.port }
  Draft.edit fun s =>
    { s with
      remote.connectTimeout :=
        rangedMillis text "redis_connect_timeout_ms" 60000 s.remote.connectTimeout }
  Draft.edit fun s =>
    { s with remote.ioTimeout := rangedMillis text "redis_io_timeout_ms" 60000 s.remote.ioTimeout }
  Draft.edit fun s =>
    { s with remote.maxRetries := ranged text "redis_max_retries" 0 16 s.remote.maxRetries }

/-- Hands the copy over if the kind of store is known. -/
def settle : EStateM FileFault (Draft Settings) Unit := do
  let d ← get
  if (Backend.ofWord? d.copy.backend).isSome then Draft.handOver
  else throw (.unknownBackend d.copy.backend)

/-- Takes over what a file says, and hands it over if nothing is wrong with it. -/
def loadInto (files : Files) (path : Bytes) : EStateM FileFault (Draft Settings) Unit :=
  match files path with
  | none => throw (.notFound path)
  | some text =>
    if text.contains 123 && text.contains 125 then do
      takeAll text
      settle
    else throw .noObject

/-- Loads a file over settings: the reason, if it is refused, and the settings that are there
afterwards. -/
def reload (s : Settings) (files : Files) (path : Bytes) : Option Bytes × Settings :=
  Draft.outcome FileFault.message (loadInto files path) ⟨s, s⟩

/-- Setting by setting, the copy becomes what the text makes of it. -/
theorem run_takeAll (text : Bytes) (d : Draft Settings) :
    (takeAll text).run d = .ok () { d with copy := d.copy.override text } := rfl

/-- **A file is loaded as a whole or not at all.** -/
theorem reload_eq (s : Settings) (files : Files) (path : Bytes) :
    s.reload files path =
      match s.load files path with
      | .ok t => (none, t)
      | .error fault => (some fault.message, s) := by
  unfold reload Draft.outcome loadInto load ofFile
  cases files path with
  | none => rfl
  | some text =>
    dsimp only
    by_cases hbraces : (text.contains 123 && text.contains 125) = true
    · have hrun : (do takeAll text; settle).run (⟨s, s⟩ : Draft Settings) =
          settle.run ⟨s.override text, s⟩ := by
        rw [EStateM.run_bind, run_takeAll]
      rw [if_pos hbraces, if_pos hbraces, hrun]
      cases hknown : Backend.ofWord? (s.override text).backend <;>
        simp [settle, hknown, Draft.handOver]
    · rw [if_neg hbraces, if_neg hbraces]
      rfl

theorem reload_of_ok (h : s.load files path = .ok t) : s.reload files path = (none, t) := by
  rw [reload_eq, h]

theorem reload_of_error {fault : FileFault} (h : s.load files path = .error fault) :
    s.reload files path = (some fault.message, s) := by
  rw [reload_eq, h]

/-- **Whatever becomes of a file, the ranges are kept.** -/
theorem InRange.reload (h : s.InRange) (files : Files) (path : Bytes) :
    (s.reload files path).2.InRange := by
  cases hload : s.load files path with
  | ok t =>
    rw [reload_of_ok hload]
    exact h.load hload
  | error fault =>
    rw [reload_of_error hload]
    exact h

/-- **A file that is loaded once more changes nothing further**, and is refused if it was
refused. -/
theorem reload_reload (s : Settings) (h : files' path' = files path) :
    let first := s.reload files path
    let second := first.2.reload files' path'
    second.2 = first.2 ∧ second.1.isSome = first.1.isSome := by
  intro first second
  cases hload : s.load files path with
  | ok t =>
    have hfirst : first = (none, t) := reload_of_ok hload
    have hsecond : second = (none, t) := by
      show first.2.reload files' path' = (none, t)
      rw [hfirst]
      exact reload_of_ok (load_again h hload)
    rw [hsecond, hfirst]
    exact ⟨rfl, rfl⟩
  | error fault =>
    have hfirst : first = (some fault.message, s) := reload_of_error hload
    obtain ⟨fault', hagain⟩ := exists_error_of_error h hload
    have hsecond : second = (some fault'.message, s) := by
      show first.2.reload files' path' = _
      rw [hfirst]
      exact reload_of_error hagain
    rw [hsecond, hfirst]
    exact ⟨rfl, rfl⟩

/-! ### Any number of files -/

/-- The settings after files were loaded one after the other, over the default settings.  The files
may have changed from one to the next. -/
def afterLoads (loads : List (Files × Bytes)) : Settings :=
  loads.foldl (fun s load => (s.reload load.1 load.2).2) {}

theorem inRange_afterLoads (loads : List (Files × Bytes)) : (afterLoads loads).InRange := by
  have hfrom (s : Settings) (h : s.InRange) :
      (loads.foldl (fun s load => (s.reload load.1 load.2).2) s).InRange := by
    induction loads generalizing s with
    | nil => exact h
    | cons load rest ih => exact ih _ (h.reload load.1 load.2)
  exact hfrom {} inRange_default

/-- **No file spoils the settings.**  After any number of files, whatever they hold and whether they
are there or not:

* The settings are in their ranges, and they stay so when one more file is loaded.
* A file that is loaded sets what it names, as a whole; one that is refused leaves all settings as
  they were.
* Loading the same once more, from whatever path, changes nothing further. -/
theorem reloads_in_range (loads : List (Files × Bytes)) (files : Files) (path : Bytes) :
    let s := afterLoads loads
    let reason := (s.reload files path).1
    let s' := (s.reload files path).2
    (s.InRange ∧ s'.InRange) ∧
      (s.load files path = .ok s' ∧ reason = none ∨
        ∃ fault, s.load files path = .error fault ∧ reason = some fault.message ∧ s' = s) ∧
      ∀ files' path', files' path' = files path →
        (s'.reload files' path').2 = s' ∧ (s'.reload files' path').1.isSome = reason.isSome := by
  intro s reason s'
  have hrange : s.InRange := inRange_afterLoads loads
  refine ⟨⟨hrange, hrange.reload files path⟩, ?_, fun files' path' h => reload_reload s h⟩
  cases hload : s.load files path with
  | ok t =>
    have hreload : (reason, s') = (none, t) := reload_of_ok hload
    obtain ⟨hreason, hs'⟩ := Prod.mk.inj hreload
    exact .inl ⟨by rw [hs'], hreason⟩
  | error fault =>
    have hreload : (reason, s') = (some fault.message, s) := reload_of_error hload
    obtain ⟨hreason, hs'⟩ := Prod.mk.inj hreload
    exact .inr ⟨fault, rfl, hreason, hs'⟩

/-- The port was taken over already when the kind of store turns out to be none. -/
example :
    let told := reload {} (fun _ => some (Bytes.ofString
      "\x7b\"port\": 7002, \"backend\": \"memcached\"\x7d")) []
    told.1 = some (Bytes.ofString "unknown backend: memcached") ∧ told.2.port = 6390 := by
  decide +kernel

end Settings

end CoherentCache
