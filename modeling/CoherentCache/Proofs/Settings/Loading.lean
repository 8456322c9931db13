import CoherentCache.Proofs.Settings.FlatObject
import CoherentCache.Settings

/-!
# Loading flat objects

A settings file that is a flat object sets what it names.  A number is brought into the range of its
setting, a string is taken as it is, and what the file does not name stays.  A key that is the name
of no setting is passed over, whatever its value, unless it ends with such a name behind an escaped
quote.  Then the name is found at the escaped quote and the value is taken for the setting's
(`Settings.hidden_port_read`).

* `Settings.numberSettings`, `Settings.textSettings` : what files can set, with the ranges.
* `Settings.Overridden` : settings with the values that an object gives them.
* `Settings.Overridden.unique` : this says of every setting what it is.
* `Settings.overridden_override` : reading the text of an object gives these settings.
* `Settings.load_flat` : **a flat object loads if the kind of store is known afterwards, and then
  it sets what it names and nothing else.**
-/

namespace CoherentCache

namespace Backend

theorem isSome_ofWord? {w : Bytes} :
    (ofWord? w).isSome ↔ w = word .memory ∨ w = word .remote := by
  unfold ofWord?
  by_cases hmemory : w = word .memory
  · simp [hmemory]
  · by_cases hremote : w = word .remote
    · rw [if_neg hmemory, if_pos hremote]
      exact ⟨fun _ => .inr hremote, fun _ => rfl⟩
    · simp [hmemory, hremote]

end Backend

namespace Settings

/-! ### What files can set -/

/-- A setting that is a number. -/
structure NumberSetting where
  /-- The name of the setting. -/
  name : String
  /-- The lower end of its range. -/
  low : Nat
  /-- The upper end of its range. -/
  high : Nat
  /-- Where it is kept. -/
  value : Settings → Int

/-- A setting that is a text. -/
structure TextSetting where
  /-- The name of the setting. -/
  name : String
  /-- Where it is kept. -/
  value : Settings → Bytes

/-- The numbers that a file can set.  The retention time is kept for both kinds of store. -/
def numberSettings : List NumberSetting :=
  [⟨"port", 1, 65535, fun s => s.port⟩,
    ⟨"max_connections", 1, 65536, fun s => s.maxConnections⟩,
    ⟨"max_pending_out", 4096, 1073741824, fun s => s.maxPending⟩,
    ⟨"shards", 1, 4096, fun s => s.memory.shards⟩,
    ⟨"tombstone_ttl_ms", 1, 86400000, fun s => s.memory.retention.toNat⟩,
    ⟨"tombstone_ttl_ms", 1, 86400000, fun s => s.remote.retention.toNat⟩,
    ⟨"ttl_cleanup_per_tick", 1, 1000000, fun s => s.memory.sweepLimit⟩,
    ⟨"redis_port", 1, 65535, fun s => s.remote.port⟩,
    ⟨"redis_connect_timeout_ms", 1, 60000, fun s => s.remote.connectTimeout.toNat⟩,
    ⟨"redis_io_timeout_ms", 1, 60000, fun s => s.remote.ioTimeout.toNat⟩,
    ⟨"redis_max_retries", 0, 16, fun s => s.remote.maxRetries⟩]

/-- The texts that a file can set. -/
def textSettings : List TextSetting :=
  [⟨"backend", fun s => s.backend⟩, ⟨"redis_host", fun s => s.remote.host⟩]

/-- The names of all settings that a file can set. -/
def names : List String :=
  numberSettings.map NumberSetting.name ++ textSettings.map TextSetting.name

theorem isName_of_mem : ∀ name ∈ names, Flat.IsName (Bytes.ofString name) := by decide +kernel

/-- No key of an object hides the name of a setting. -/
def Legible (o : Flat.Object) : Prop :=
  ∀ m ∈ o.members, ∀ name ∈ names, ¬m.Hides (Bytes.ofString name)

instance (o : Flat.Object) : Decidable (Legible o) :=
  inferInstanceAs (Decidable (∀ m ∈ o.members, ∀ name ∈ names, ¬m.Hides (Bytes.ofString name)))

/-! ### Settings with the values of an object -/

/-- A number with what is given for it, brought into the range of the setting. -/
def NumberSetting.overridden (f : NumberSetting) (given : Option Nat) (current : Int) : Int :=
  given.elim current fun n => clamp f.low f.high n

/-- The second settings are the first ones with the values that an object gives.  How many requests
are served in one pass is not for a file to say, nor is how the keys are spread. -/
structure Overridden (o : Flat.Object) (s t : Settings) : Prop where
  /-- Every number is the given one, brought into its range. -/
  number : ∀ f ∈ numberSettings, f.value t = f.overridden (o.number? f.name) (f.value s)
  /-- Every text is the given one. -/
  text : ∀ f ∈ textSettings, f.value t = (o.string? f.name).getD (f.value s)
  /-- The requests served in one pass stay as many. -/
  maxRequestsPerPass : t.maxRequestsPerPass = s.maxRequestsPerPass
  /-- The keys are spread as before. -/
  hash : t.memory.hash = s.memory.hash

variable {o : Flat.Object} {s t t' : Settings}

/-- Nothing else is kept in settings than what files can set, how many requests are served in one
pass, and how the keys are spread. -/
theorem eq_of_values (hnumber : ∀ f ∈ numberSettings, f.value s = f.value t)
    (htext : ∀ f ∈ textSettings, f.value s = f.value t)
    (hpass : s.maxRequestsPerPass = t.maxRequestsPerPass) (hhash : s.memory.hash = t.memory.hash) :
    s = t := by
  obtain ⟨port, backend, maxConnections, maxPending, pass, ⟨_, _, _, _⟩, ⟨_, _, _, _, _, _⟩⟩ := s
  obtain ⟨port, backend, maxConnections, maxPending, pass, ⟨_, _, _, _⟩, ⟨_, _, _, _, _, _⟩⟩ := t
  simp only [numberSettings, textSettings, List.forall_mem_cons, Int.ofNat_inj,
    UInt64.toNat_inj] at hnumber htext hpass hhash
  simp [hnumber, htext, hpass, hhash]

/-- **No setting is left open.** -/
theorem Overridden.unique (h : Overridden o s t) (h' : Overridden o s t') : t = t' :=
  eq_of_values (fun f hf => (h.number f hf).trans (h'.number f hf).symm)
    (fun f hf => (h.text f hf).trans (h'.text f hf).symm)
    (h.maxRequestsPerPass.trans h'.maxRequestsPerPass.symm) (h.hash.trans h'.hash.symm)

section Ranges

variable {text : Bytes} {key : String} {low high : Nat}

theorem ranged_eq (current : Nat) :
    (ranged text key low high current : Int) =
      (Lookup.number? text key).elim (current : Int) fun n => clamp low high n := by
  unfold ranged
  cases Lookup.number? text key <;> rfl

theorem rangedPort_eq (current : Int) :
    rangedPort text key current =
      (Lookup.number? text key).elim current fun n => clamp 1 65535 n := by
  unfold rangedPort
  cases Lookup.number? text key <;> rfl

theorem rangedMillis_eq (hlow : 1 ≤ high) (hhigh : high < UInt64.size) (current : UInt64) :
    ((rangedMillis text key high current).toNat : Int) =
      (Lookup.number? text key).elim (current.toNat : Int) fun n => clamp 1 high n := by
  unfold rangedMillis
  cases Lookup.number? text key with
  | none => rfl
  | some n =>
    have hclamp : clamp 1 high n < UInt64.size := by
      unfold clamp
      omega
    exact congrArg Nat.cast (UInt64.toNat_ofNat_of_lt' hclamp)

end Ranges

/-- Every number is the one that is found in the text, brought into its range. -/
theorem number_override (s : Settings) (text : Bytes) {f : NumberSetting}
    (hf : f ∈ numberSettings) :
    f.value (s.override text) = f.overridden (Lookup.number? text f.name) (f.value s) := by
  simp only [numberSettings, List.mem_cons, List.not_mem_nil, or_false] at hf
  obtain rfl | rfl | rfl | rfl | rfl | rfl | rfl | rfl | rfl | rfl | rfl := hf
  · exact rangedPort_eq _
  · exact ranged_eq _
  · exact ranged_eq _
  · exact ranged_eq _
  · exact rangedMillis_eq (by decide) (by decide) _
  · exact rangedMillis_eq (by decide) (by decide) _
  · exact ranged_eq _
  · exact rangedPort_eq _
  · exact rangedMillis_eq (by decide) (by decide) _
  · exact rangedMillis_eq (by decide) (by decide) _
  · exact ranged_eq _

/-- Every text is the one that is found in the text of the file. -/
theorem text_override (s : Settings) (text : Bytes) {f : TextSetting} (hf : f ∈ textSettings) :
    f.value (s.override text) = (Lookup.string? text f.name).getD (f.value s) := by
  simp only [textSettings, List.mem_cons, List.not_mem_nil, or_false] at hf
  obtain rfl | rfl := hf <;> rfl

/-- **Reading the text of an object overrides the settings that it names.** -/
theorem overridden_override (h : Legible o) (s : Settings) :
    Overridden o s (s.override o.text) where
  number f hf := by
    have hname : f.name ∈ names := List.mem_append_left _ (List.mem_map_of_mem hf)
    rw [← Flat.Object.number?_eq (isName_of_mem _ hname) fun m hm => h m hm _ hname]
    exact number_override s o.text hf
  text f hf := by
    have hname : f.name ∈ names := List.mem_append_right _ (List.mem_map_of_mem hf)
    rw [← Flat.Object.string?_eq (isName_of_mem _ hname) fun m hm => h m hm _ hname]
    exact text_override s o.text hf
  maxRequestsPerPass := rfl
  hash := rfl

/-! ### Loading -/

theorem ofFile_flat (o : Flat.Object) (s : Settings) :
    s.ofFile o.text =
      if (Backend.ofWord? (s.override o.text).backend).isSome then .ok (s.override o.text)
      else .error (.unknownBackend (s.override o.text).backend) := by
  obtain ⟨hopening, hclosing⟩ := o.braces_mem fun _ => none
  rw [o.textWith_none] at hopening hclosing
  unfold ofFile
  rw [List.contains_iff_mem.2 hopening, List.contains_iff_mem.2 hclosing]
  rfl

/-- **A flat object sets what it names and nothing else.**  It loads exactly if the kind of store is
known afterwards; and then every number that it gives is brought into its range, every text that it
gives is taken, the retention time is set for both kinds of store, and every other setting is as
before. -/
theorem load_flat (o : Flat.Object) (hlegible : Legible o) (s : Settings) (files : Files)
    (path : Bytes) (hfile : files path = some o.text) :
    ((∃ t, s.load files path = .ok t) ↔
        (o.string? "backend").getD s.backend = Backend.word .memory ∨
          (o.string? "backend").getD s.backend = Backend.word .remote) ∧
      ∀ t, s.load files path = .ok t → Overridden o s t := by
  have hoverridden := overridden_override hlegible s
  have hbackend : (s.override o.text).backend = (o.string? "backend").getD s.backend :=
    hoverridden.text ⟨"backend", fun s => s.backend⟩ List.mem_cons_self
  have hload : s.load files path = s.ofFile o.text := by
    unfold load
    rw [hfile]
  rw [hload, ofFile_flat, ← hbackend, ← Backend.isSome_ofWord?]
  split
  · next hknown =>
    refine ⟨⟨fun _ => hknown, fun _ => ⟨_, rfl⟩⟩, fun t ht => ?_⟩
    cases ht
    exact hoverridden
  · next hunknown =>
    refine ⟨⟨?_, fun hknown => absurd hknown hunknown⟩, ?_⟩
    · rintro ⟨t, ht⟩
      cases ht
    · rintro t ht
      cases ht

/-- A blank where there is one. -/
def blank : Flat.Blanks := ⟨[32], List.forall_mem_singleton.2 rfl⟩

/-- No blank. -/
def tight : Flat.Blanks := ⟨[], List.forall_mem_nil _⟩

/-- An object with a name as a value, with keys that end like names, and with a number that is out
of range. -/
def sample : Flat.Object where
  members := [
    ⟨Bytes.ofString "import", rfl, .string ⟨Bytes.ofString "port", by decide⟩,
      tight, blank, blank, tight⟩,
    ⟨Bytes.ofString "redis_port", rfl, .number 70000, blank, tight, blank, tight⟩,
    ⟨Bytes.ofString "a\\\"ports", rfl, .number 7, blank, tight, tight, blank⟩,
    ⟨Bytes.ofString "backend", rfl, .string ⟨Bytes.ofString "redis", by decide⟩,
      tight, tight, tight, tight⟩,
    ⟨Bytes.ofString "shards", rfl, .literal none, tight, tight, tight, blank⟩]
  distinct := by decide
  before := tight
  inside := blank
  after := tight

/-- In the sample, the remote store is selected and its port is brought into its range.  The port of
the server stays. -/
theorem load_sample :
    sample.text = Bytes.ofString ("\x7b \"import\" : \"port\", \"redis_port\": 70000, " ++
      "\"a\\\"ports\":7 ,\"backend\":\"redis\",\"shards\":null \x7d") ∧
    ∃ t, load {} (fun _ => some sample.text) [] = .ok t ∧
      t.backend = Backend.word .remote ∧ t.remote.port = 65535 ∧ t.port = 6390 ∧
      t.memory.shards = 16 := by
  obtain ⟨hload, hoverridden⟩ :=
    load_flat sample (by decide +kernel) {} (fun _ => some sample.text) [] rfl
  obtain ⟨t, ht⟩ := hload.2 (.inr (by decide +kernel))
  obtain ⟨hnumber, htext, -, -⟩ := hoverridden t ht
  simp only [numberSettings, textSettings, List.forall_mem_cons] at hnumber htext
  obtain ⟨hport, -, -, hshards, -, -, -, hremotePort, -⟩ := hnumber
  refine ⟨by decide +kernel, t, ht, htext.1.trans ?_, hremotePort.trans ?_, hport.trans ?_,
    Int.ofNat_inj.1 (hshards.trans ?_)⟩ <;> decide +kernel

/-- An object whose only key ends with the name of a setting, behind an escaped quote. -/
def hiddenPort : Flat.Object where
  members := [⟨Bytes.ofString "a\\\"port", rfl, .number 5, tight, tight, blank, tight⟩]
  distinct := by decide
  before := tight
  inside := tight
  after := tight

/-- The key is not the name of a setting, but its value is taken for that of the port. -/
theorem hidden_port_read :
    hiddenPort.text = Bytes.ofString "\x7b\"a\\\"port\": 5\x7d" ∧
    (∀ name ∈ names, hiddenPort.value? name = none) ∧
    ∃ t, load {} (fun _ => some hiddenPort.text) [] = .ok t ∧ t.port = 5 ∧
      ¬Overridden hiddenPort {} t := by
  have hport : (load {} (fun _ => some hiddenPort.text) []).toOption.map Settings.port =
      some 5 := by decide +kernel
  refine ⟨by decide +kernel, by decide +kernel, ?_⟩
  cases hload : load {} (fun _ => some hiddenPort.text) [] with
  | error fault =>
    rw [hload] at hport
    cases hport
  | ok t =>
    rw [hload] at hport
    refine ⟨t, rfl, Option.some.inj hport, fun h => ?_⟩
    -- The object gives no port, so that the port would have to stay.
    have hstays : t.port = 6390 := (h.number _ List.mem_cons_self).trans (by decide +kernel)
    rw [Option.some.inj hport] at hstays
    cases hstays

end Settings

end CoherentCache
