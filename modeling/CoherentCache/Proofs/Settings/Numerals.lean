import CoherentCache.Proofs.Settings.Bounds

/-!
# Numbers of any size

The digits of a number in a file may be any, and as many as one likes.  They are read as a number of
64 bits, zeros in front and all, and that number is brought into the range of the setting.  Digits
of a number that needs more than 64 bits count as none, so that it is not brought down to the upper
end of the range.  The setting stays as it is (`Settings.oversized_port_ignored`), and a larger
number may lead to a smaller setting.

* `Settings.NumberSetting.takes` : the number that digits leave a setting at.
* `Settings.NumberSetting.takes_eq_clamp_iff` : when the digits are brought into the range.
* `Settings.NumberSetting.takes_mono_iff` : when more is never less.
* `Settings.load_numerals` : **a flat object in which digits of any size are given loads if the kind
  of store is known, and leaves the settings at these numbers.**
-/

namespace CoherentCache

namespace Settings

open Flat (Numeral Numerals)

variable {given : Numerals} {o : Flat.Object} {s t : Settings} {files : Files} {path : Bytes}

/-! ### Digits -/

/-- The number of digits, however many they are. -/
def numberOf (d : Numeral) : Nat := Decimal.value d.1

/-- The number that digits leave a setting at. -/
def NumberSetting.takes (f : NumberSetting) (d : Numeral) (current : Int) : Int :=
  f.overridden (Flat.Token.digits d).number? current

namespace NumberSetting

variable {f : NumberSetting} {d d' : Numeral} {current : Int}

theorem takes_of_lt (h : numberOf d < UInt64.size) (current : Int) :
    f.takes d current = clamp f.low f.high (numberOf d) :=
  congrArg (f.overridden · current) (if_pos h)

theorem takes_of_le (h : UInt64.size ≤ numberOf d) (current : Int) : f.takes d current = current :=
  congrArg (f.overridden · current) (if_neg (Nat.not_lt.2 h))

/-- Numbers that need more than 64 bits are beyond the range of every setting. -/
theorem high_lt : ∀ f ∈ numberSettings, f.high < UInt64.size := by decide

theorem clamp_mono {low high n m : Nat} (h : n ≤ m) : clamp low high n ≤ clamp low high m := by
  unfold clamp
  omega

theorem clamp_of_le {low high n : Nat} (h : low ≤ high) (hn : high ≤ n) :
    clamp low high n = high := by
  unfold clamp
  omega

/-- **Digits are brought into the range, unless they need more than 64 bits**, and then the setting
must be at the upper end already. -/
theorem takes_eq_clamp_iff (hf : f ∈ numberSettings) :
    f.takes d current = clamp f.low f.high (numberOf d) ↔
      numberOf d < UInt64.size ∨ current = f.high := by
  rcases Nat.lt_or_ge (numberOf d) UInt64.size with hd | hd
  · exact ⟨fun _ => .inl hd, fun _ => takes_of_lt hd current⟩
  · have hhigh : f.high ≤ numberOf d := Nat.le_trans (Nat.le_of_lt (high_lt f hf)) hd
    rw [takes_of_le hd, clamp_of_le (low_le_high f hf) hhigh]
    exact ⟨.inr, fun h => h.resolve_left (Nat.not_lt.2 hd)⟩

/-- **More digits never make less**, as long as 64 bits are enough for them. -/
theorem takes_mono (h : numberOf d ≤ numberOf d') (hd' : numberOf d' < UInt64.size)
    (current : Int) : f.takes d current ≤ f.takes d' current := by
  rw [takes_of_lt (Nat.lt_of_le_of_lt h hd'), takes_of_lt hd']
  exact Int.ofNat_le.2 (clamp_mono h)

/-- **Whatever the digits, more never makes less** exactly if the setting is not below the upper end
of its range. -/
theorem takes_mono_iff (hf : f ∈ numberSettings) :
    (∀ d d', numberOf d ≤ numberOf d' → f.takes d current ≤ f.takes d' current) ↔
      f.high ≤ current := by
  constructor
  · intro hmono
    -- The upper end itself against the first number that needs more than 64 bits.
    let top : Numeral := .ofNat f.high
    let beyond : Numeral := .ofNat UInt64.size
    have htop : numberOf top = f.high := Decimal.value_ofNat _
    have hbeyond : numberOf beyond = UInt64.size := Decimal.value_ofNat _
    have hsize : f.high < UInt64.size := high_lt f hf
    have hle : numberOf top ≤ numberOf beyond := by
      rw [htop, hbeyond]
      exact Nat.le_of_lt hsize
    have hcompared := hmono top beyond hle
    rw [takes_of_lt (htop ▸ hsize), takes_of_le (Nat.le_of_eq hbeyond.symm), htop,
      clamp_of_le (low_le_high f hf) (Nat.le_refl _)] at hcompared
    exact hcompared
  · intro hcurrent d d' h
    rcases Nat.lt_or_ge (numberOf d') UInt64.size with hd' | hd'
    · exact takes_mono h hd' current
    · rw [takes_of_le hd']
      rcases Nat.lt_or_ge (numberOf d) UInt64.size with hd | hd
      · rw [takes_of_lt hd]
        exact Int.le_trans (Int.ofNat_le.2 (clamp_mem (low_le_high f hf) _).2) hcurrent
      · exact Int.le_of_eq (takes_of_le hd current)

end NumberSetting

/-! ### Objects -/

/-- The object gives digits to a key. -/
def Gives (given : Numerals) (o : Flat.Object) (name : String) (d : Numeral) : Prop :=
  o.token? given name = some (.digits d)

/-- Reading the text leaves every setting that is given digits at their number. -/
theorem override_numerals (hlegible : Legible o) (s : Settings) {f : NumberSetting}
    (hf : f ∈ numberSettings) {d : Numeral} (hd : Gives given o f.name d) :
    f.value (s.override (o.textWith given)) = f.takes d (f.value s) := by
  have hname : f.name ∈ names := List.mem_append_left _ (List.mem_map_of_mem hf)
  rw [number_override s _ hf, Flat.Object.number?_textWith (isName_of_mem _ hname)
    fun m hm => hlegible m hm _ hname, hd]
  rfl

/-- The word for the kind of store is the one that the object gives, if it gives one. -/
theorem backend_numerals (hlegible : Legible o) (given : Numerals) (s : Settings) :
    (s.override (o.textWith given)).backend =
      ((o.token? given "backend").bind Flat.Token.string?).getD s.backend := by
  have hname : "backend" ∈ names := by decide
  rw [← Flat.Object.string?_textWith (isName_of_mem _ hname) fun m hm => hlegible m hm _ hname]
  rfl

/-- **Numbers of any size in flat objects.**  An object in which some keys are given digits, as many
as one likes, loads exactly if the kind of store is known afterwards.  Then each setting that is
given digits is left at their number:

* It is their number, brought into the range of the setting, exactly if 64 bits are enough for it or
  if the setting was at the upper end before.  If 64 bits are not enough, the setting stays.
* Of two numbers for which 64 bits are enough, the larger one leads to a setting that is at least as
  large.  For all numbers this is so exactly if the setting was not below the upper end. -/
theorem load_numerals (o : Flat.Object) (hlegible : Legible o) (given : Numerals) (s : Settings)
    (files : Files) (path : Bytes) (hfile : files path = some (o.textWith given)) :
    ((∃ t, s.load files path = .ok t) ↔
        let word := ((o.token? given "backend").bind Flat.Token.string?).getD s.backend
        word = Backend.word .memory ∨ word = Backend.word .remote) ∧
      (∀ t, s.load files path = .ok t → ∀ f ∈ numberSettings, ∀ d, Gives given o f.name d →
        f.value t = f.takes d (f.value s)) ∧
      ∀ f ∈ numberSettings, ∀ current : Int,
        (∀ d, (f.takes d current = clamp f.low f.high (numberOf d) ↔
            numberOf d < UInt64.size ∨ current = f.high) ∧
          (UInt64.size ≤ numberOf d → f.takes d current = current)) ∧
        (∀ d d', numberOf d ≤ numberOf d' → numberOf d' < UInt64.size →
          f.takes d current ≤ f.takes d' current) ∧
        ((∀ d d', numberOf d ≤ numberOf d' → f.takes d current ≤ f.takes d' current) ↔
          f.high ≤ current) := by
  have hload {t : Settings} : s.load files path = .ok t ↔
      t = s.override (o.textWith given) ∧ (Backend.ofWord? t.backend).isSome := by
    rw [load_eq_ok_iff, hfile]
    constructor
    · rintro ⟨_, ⟨⟩, -, ht⟩
      exact ht
    · exact fun ht => ⟨_, rfl, o.braces_mem given, ht⟩
  refine ⟨?_, fun t ht f hf d hd => ?_, fun f hf current => ⟨fun d => ?_, ?_, ?_⟩⟩
  · rw [← backend_numerals hlegible, ← Backend.isSome_ofWord?]
    constructor
    · rintro ⟨t, ht⟩
      obtain ⟨rfl, hknown⟩ := hload.1 ht
      exact hknown
    · exact fun hknown => ⟨_, hload.2 ⟨rfl, hknown⟩⟩
  · rw [(hload.1 ht).1]
    exact override_numerals hlegible s hf hd
  · exact ⟨NumberSetting.takes_eq_clamp_iff hf, fun hd => NumberSetting.takes_of_le hd current⟩
  · exact fun d d' h hd' => NumberSetting.takes_mono h hd' current
  · exact NumberSetting.takes_mono_iff hf

/-- An object that gives a port and nothing else. -/
def onlyPort : Flat.Object where
  members := [⟨Bytes.ofString "port", rfl, .number 0, tight, tight, blank, tight⟩]
  distinct := by decide
  before := tight
  inside := tight
  after := tight

/-- A number above the range, with more zeros in front than 64 bits have digits. -/
def manyZeros : Numeral := ⟨Bytes.ofString "00000000000000000000099999", by decide⟩

/-- The first number that needs more than 64 bits. -/
def oversized : Numeral := ⟨Bytes.ofString "18446744073709551616", by decide⟩

/-- The zeros do not matter: the port is brought down to the upper end of its range. -/
theorem load_manyZeros :
    onlyPort.textWith (fun _ => some manyZeros) =
      Bytes.ofString "\x7b\"port\": 00000000000000000000099999\x7d" ∧
    ∃ t, load {} (fun _ => some (onlyPort.textWith fun _ => some manyZeros)) [] = .ok t ∧
      t.port = 65535 := by
  obtain ⟨hload, htakes, hclamp⟩ := load_numerals onlyPort (by decide +kernel)
    (fun _ => some manyZeros) {} (fun _ => some (onlyPort.textWith fun _ => some manyZeros)) [] rfl
  obtain ⟨t, ht⟩ := hload.2 (.inl (by decide +kernel))
  have hport := htakes t ht _ List.mem_cons_self manyZeros (by rfl)
  have hfits : numberOf manyZeros < UInt64.size := by decide +kernel
  have hbrought := ((hclamp _ List.mem_cons_self (6390 : Int)).1 manyZeros).1.2 (.inl hfits)
  exact ⟨by decide +kernel, t, ht, hport.trans (hbrought.trans (by decide +kernel))⟩

/-- **A number that needs more than 64 bits is not brought into the range.**  The port stays at its
default, which is below the upper end and below the port that a smaller number leads to. -/
theorem oversized_port_ignored :
    let text := onlyPort.textWith fun _ => some oversized
    let smaller := onlyPort.textWith fun _ => some manyZeros
    text = Bytes.ofString "\x7b\"port\": 18446744073709551616\x7d" ∧
    (load {} (fun _ => some text) []).toOption.map Settings.port = some 6390 ∧
    clamp 1 65535 (numberOf oversized) = 65535 ∧
    numberOf manyZeros < numberOf oversized ∧
    (load {} (fun _ => some smaller) []).toOption.map Settings.port = some 65535 := by
  decide +kernel

end Settings

end CoherentCache
