import SampleStream.Command.Outcome
import SampleStream.Proofs.Options

/-!
# The configuration of a command

A command runs under the settings of its file with those of the command line written over them. The settings
of the file are checked by themselves first, and once more with the others written over them
(`configuration_overridden`). So a value of the file that is out of its range ends the command also where the
command line replaces it.
-/

namespace SampleStream

namespace Config

/-- The configuration that a text describes, whether it is valid or not; none if it does not describe one. -/
def decoded? (text : String) : Option Config :=
  (Toml.parse? text >>= given?).map (override {})

theorem ofText_of_decoded {text : String} {c : Config} (h : decoded? text = some c) :
    ofText text = c.validate.mapError .invalid := by
  obtain ⟨given, hgiven, rfl⟩ := Option.map_eq_some_iff.mp h
  unfold ofText
  rw [hgiven]
  dsimp only
  cases validate (override {} given) <;> rfl

theorem flaw?_eq_none_iff {c : Config} : c.flaw? = none ↔ c.quantumSize ≠ 0 ∧ c.channels ≠ 0 ∧
    ¬(c.controlCapacity = 0 ∨ c.loaderCapacity = 0 ∨ c.eventCapacity = 0) ∧ ¬99 < c.renderPriority := by
  unfold flaw?
  repeat' split
  all_goals simp_all

theorem validate_of_flaw {c : Config} {flaw : Flaw} (h : c.flaw? = some flaw) :
    c.validate = .error flaw := by
  rw [validate, h]

theorem validate_of_none {c : Config} (h : c.flaw? = none) : c.validate = .ok c := by
  rw [validate, h]

end Config

/-- The settings that a command line may give. -/
structure Flags where
  quantumSize : Option UInt64 := none
  channels : Option UInt64 := none
  sampleRate : Option UInt32 := none
  renderPriority : Option UInt8 := none
deriving DecidableEq, Repr

namespace Flags

/-- The configuration with the given settings written over its own. -/
def onto (f : Flags) (c : Config) : Config :=
  { c with
    quantumSize := f.quantumSize.getD c.quantumSize
    channels := f.channels.getD c.channels
    sampleRate := f.sampleRate.getD c.sampleRate
    renderPriority := f.renderPriority.getD c.renderPriority }

/-- All settings in order, the given ones among them. -/
def settings (f : Flags) : List (Option Nat) :=
  [f.quantumSize.map UInt64.toNat, f.channels.map UInt64.toNat, f.sampleRate.map UInt32.toNat,
    none, none, none, f.renderPriority.map UInt8.toNat]

/-- The words of a line give just these settings. -/
structure GivenBy (f : Flags) (words : List String) : Prop where
  quantumSize : Setting.quantumSize.GivenBy words (f.quantumSize.map UInt64.toNat)
  channels : Setting.channels.GivenBy words (f.channels.map UInt64.toNat)
  sampleRate : Setting.sampleRate.GivenBy words (f.sampleRate.map UInt32.toNat)
  renderPriority : Setting.renderPriority.GivenBy words (f.renderPriority.map UInt8.toNat)

theorem exists_eq_map {o : Option Nat} {bound : Nat} (ho : ∀ n, o = some n → n < bound) {α : Type}
    {ofNat : Nat → α} {toNat : α → Nat} (hofNat : ∀ n, n < bound → toNat (ofNat n) = n) :
    ∃ word : Option α, o = word.map toNat := by
  cases o with
  | none => exact ⟨none, rfl⟩
  | some n => exact ⟨some (ofNat n), congrArg some (hofNat n (ho n rfl)).symm⟩

theorem override_settings (f : Flags) (c : Config) : c.override f.settings = f.onto c := by
  obtain ⟨quantum, channels, rate, priority⟩ := f
  cases quantum <;> cases channels <;> cases rate <;> cases priority <;>
    simp [Config.override, settings, onto, Config.values, Config.ofValues]

-- What makes the settings of a file valid is that a value out of its range is replaced.
theorem replaces {f : Flags} {c : Config} (honto : (f.onto c).flaw? = none) (hc : c.flaw? ≠ none) :
    c.quantumSize = 0 ∧ f.quantumSize ≠ none ∨ c.channels = 0 ∧ f.channels ≠ none ∨
      99 < c.renderPriority ∧ f.renderPriority ≠ none := by
  have kept {α : Type} {o : Option α} {a : α} {P : α → Prop} (hbad : P a) (hgood : ¬P (o.getD a)) :
      o ≠ none := by
    rintro rfl
    exact hgood hbad
  obtain ⟨hquantum, hchannels, hcapacities, hpriority⟩ := Config.flaw?_eq_none_iff.mp honto
  by_cases hq : c.quantumSize = 0
  · exact .inl ⟨hq, kept (P := fun n => n = 0) hq hquantum⟩
  by_cases hch : c.channels = 0
  · exact .inr (.inl ⟨hch, kept (P := fun n => n = 0) hch hchannels⟩)
  by_cases hp : 99 < c.renderPriority
  · exact .inr (.inr ⟨hp, kept (P := fun n => 99 < n) hp hpriority⟩)
  -- the capacities of the queues are not on the command line
  exact absurd (Config.flaw?_eq_none_iff.mpr ⟨hq, hch, hcapacities, hp⟩) hc

end Flags

theorem Argument.lt_of_number? {signed : Bool} {bound n : Nat} {text : String}
    (h : number? signed bound text = some n) : n < bound := by
  unfold number? at h
  split at h
  dsimp only at h
  repeat' split at h
  all_goals cases h
  assumption

namespace Invocation

/-- A command line gives each of the four settings or does not. -/
theorem ofWords_overrides {words : List String} {i : Invocation} (h : ofWords words = .ok i) :
    ∃ f : Flags, i.overrides = f.settings ∧ f.GivenBy words := by
  obtain ⟨given, hoverrides, hgiven⟩ := exists_given_ofWords h
  simp only [Setting.all, List.forall_mem_cons] at hgiven
  obtain ⟨hquantum, hchannels, hrate, hpriority, -⟩ := hgiven
  obtain ⟨quantum, hq⟩ := Flags.exists_eq_map (hquantum.lt fun _ _ => Argument.lt_of_number?)
    fun n => UInt64.toNat_ofNat_of_lt'
  obtain ⟨channels, hch⟩ := Flags.exists_eq_map (hchannels.lt fun _ _ => Argument.lt_of_number?)
    fun n => UInt64.toNat_ofNat_of_lt'
  obtain ⟨rate, hr⟩ := Flags.exists_eq_map (hrate.lt fun _ _ => Argument.lt_of_number?)
    fun n => UInt32.toNat_ofNat_of_lt'
  obtain ⟨priority, hp⟩ := Flags.exists_eq_map (hpriority.lt fun _ _ => Argument.lt_of_number?)
    fun n => UInt8.toNat_ofNat_of_lt'
  rw [hq] at hquantum
  rw [hch] at hchannels
  rw [hr] at hrate
  rw [hp] at hpriority
  refine ⟨⟨quantum, channels, rate, priority⟩, ?_, ⟨hquantum, hchannels, hrate, hpriority⟩⟩
  rw [hoverrides, Flags.settings, ← hq, ← hch, ← hr, ← hp]
  rfl

/-- The settings of the file, valid or not, or the default ones where there is no file. -/
def Decodes (place : Surroundings) (i : Invocation) (c : Config) : Prop :=
  match i.config with
  | none => c = {}
  | some path => ∃ text, place.file path = .ok text ∧ Config.decoded? text = some c

/-- The settings of the file are checked before they are made use of. -/
theorem baseConfig_of_decodes {place : Surroundings} {i : Invocation} {c : Config} (h : i.Decodes place c) :
    i.baseConfig place = c.validate.mapError Failure.configInvalid := by
  unfold baseConfig
  cases hpath : i.config with
  | none =>
    obtain rfl : c = {} := by simpa only [Decodes, hpath] using h
    rfl
  | some path =>
    obtain ⟨text, htext, hc⟩ : ∃ text, place.file path = .ok text ∧ Config.decoded? text = some c := by
      simpa only [Decodes, hpath] using h
    dsimp only
    rw [htext]
    change (pure text >>= _ : Except Failure Config) = _
    rw [pure_bind, Config.ofText_of_decoded hc]
    cases c.validate <;> rfl

/-- What becomes of the settings `c` of a file and of those that a command line gives. -/
structure Overridden (place : Surroundings) (i : Invocation) (f : Flags) (c : Config) : Prop where
  /-- the command gets a configuration if the file is valid by itself and with the flags written over it,
  and that is the one it gets -/
  succeeds : ∀ c', i.configuration place = .ok c' ↔
    c.flaw? = none ∧ (f.onto c).flaw? = none ∧ c' = f.onto c
  /-- the failure is the flaw of the file if it has one, and else that of the file with the flags -/
  fails : ∀ e, i.configuration place = .error e ↔ ∃ flaw, e = .configInvalid flaw ∧
    (c.flaw? = some flaw ∨ c.flaw? = none ∧ (f.onto c).flaw? = some flaw)
  /-- for a file without a flaw, and for one that the flags do not mend, it makes no difference that the file
  is checked by itself -/
  late : c.flaw? = none ∨ (f.onto c).flaw? ≠ none →
    ∀ c', i.configuration place = .ok c' ↔ (f.onto c).flaw? = none ∧ c' = f.onto c
  /-- a file that the flags mend is refused for a value that they replace -/
  early : ∀ flaw, c.flaw? = some flaw → (f.onto c).flaw? = none →
    i.configuration place = .error (.configInvalid flaw) ∧
    (c.quantumSize = 0 ∧ f.quantumSize ≠ none ∨ c.channels = 0 ∧ f.channels ≠ none ∨
      99 < c.renderPriority ∧ f.renderPriority ≠ none)

theorem configuration_eq {place : Surroundings} {i : Invocation} {f : Flags} {c : Config}
    (hf : i.overrides = f.settings) (hc : i.Decodes place c) : i.configuration place =
      (c.validate >>= fun c => (f.onto c).validate).mapError Failure.configInvalid := by
  unfold configuration
  rw [baseConfig_of_decodes hc, hf]
  cases hflaw : c.flaw? with
  | none =>
    rw [Config.validate_of_none hflaw]
    change ((c.override f.settings).validate).mapError Failure.configInvalid = _
    rw [Flags.override_settings]
    rfl
  | some flaw => rw [Config.validate_of_flaw hflaw]; rfl

/-- The flags of a command line are written over the settings of its file when these have been checked, and
then all is checked again. Which flags a line gives can be told from its words. -/
theorem configuration_overridden (place : Surroundings) :
    (∀ (i : Invocation) (f : Flags) (c : Config), i.overrides = f.settings → i.Decodes place c →
      Overridden place i f c) ∧
    ∀ (words : List String) (i : Invocation), ofWords words = .ok i →
      ∃ f : Flags, i.overrides = f.settings ∧ f.GivenBy words := by
  refine ⟨fun i f c hf hc => ?_, fun words i h => ofWords_overrides h⟩
  have heq := configuration_eq hf hc
  cases hflaw : c.flaw? with
  | some flaw =>
    have hrefused : i.configuration place = .error (.configInvalid flaw) := by
      rw [heq, Config.validate_of_flaw hflaw]
      rfl
    refine ⟨?_, ?_, ?_, ?_⟩
    · simp [hrefused, hflaw]
    · simp [hrefused, hflaw, eq_comm]
    · rintro (h | h) c'
      · rw [hflaw] at h
        cases h
      · simp [hrefused, h]
    · intro other hother honto
      rw [hflaw] at hother
      cases hother
      exact ⟨hrefused, Flags.replaces honto (by simp [hflaw])⟩
  | none =>
    have hchecked : i.configuration place = (f.onto c).validate.mapError Failure.configInvalid := by
      rw [heq, Config.validate_of_none hflaw]
      rfl
    cases honto : (f.onto c).flaw? with
    | none =>
      have hok : i.configuration place = .ok (f.onto c) := by
        rw [hchecked, Config.validate_of_none honto]
        rfl
      refine ⟨?_, ?_, ?_, ?_⟩ <;> simp [hok, hflaw, honto, eq_comm]
    | some flaw =>
      have hrefused : i.configuration place = .error (.configInvalid flaw) := by
        rw [hchecked, Config.validate_of_flaw honto]
        rfl
      refine ⟨?_, ?_, ?_, ?_⟩ <;> simp [hrefused, hflaw, honto, eq_comm]

/-- One channel on the command line does not help a file with none. -/
theorem configuration_overridden_channels :
    let place : Surroundings := ⟨fun _ => .ok "channels = 0\n", .ok ""⟩
    let words := ["--log-level", "off", "-c", "c.toml", "--channels", "1", "parse", "-e", "x"]
    let flags : Flags := { channels := some 1 }
    let i : Invocation := ⟨some "c.toml", "off", flags.settings, .parse (.inline "x") false false⟩
    Overridden place i flags { channels := 0 } ∧ (flags.onto { channels := 0 }).flaw? = none ∧
      ({ channels := 0 } : Config).flaw? = some .noChannels ∧
      ofWords words = .ok i ∧ ∃ f : Flags, i.overrides = f.settings ∧ f.GivenBy words := by
  intro place words flags i
  have hwords : ofWords words = .ok i := rfl
  exact ⟨(configuration_overridden place).1 i flags _ rfl ⟨_, rfl, by decide +kernel⟩, by decide, by decide, hwords,
    (configuration_overridden place).2 words i hwords⟩

end Invocation

end SampleStream
