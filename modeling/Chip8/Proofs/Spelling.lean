import Chip8.Proofs.Arguments
import Chip8.Proofs.Numerals

/-! # Spelling

What a command line says. It is accepted exactly if its arguments spell out a path and some options,
none of them twice and each with a value that can be read, and these are what is run. -/
namespace Chip8

namespace UnknownOpcodePolicy

theorem toOption_ofText_eq_some_iff {value : String} {policy : UnknownOpcodePolicy} :
    (ofText value).toOption = some policy ↔ lowered value = policy.text := by
  unfold ofText
  split
  next h =>
    rw [h]
    cases policy <;> decide
  next hhalt =>
    split
    next h =>
      rw [h]
      cases policy <;> decide
    next hskip =>
      refine ⟨fun h => (by cases h), fun h => ?_⟩
      cases policy with
      | halt => exact absurd h hhalt
      | skip => exact absurd h hskip

end UnknownOpcodePolicy

namespace OptionName

open CommandLine

/-- What the text of a value stands for. -/
def Reads : (name : OptionName) → String → name.Value → Prop
  | hz => fun value (hz : UInt32) => 1 ≤ hz.toNat ∧ Numeral value hz.toNat
  | instructionsPerTick => fun value (n : UInt32) => Numeral value n.toNat ∨ n = 0 ∧ MinusZero value
  | unknownOpcode => fun value policy => UnknownOpcodePolicy.lowered value = policy.text
  | seed | cycles => fun value (n : UInt64) => Numeral value n.toNat

theorem read?_eq_some_iff {name : OptionName} {value : String} {a : name.Value} :
    name.read? value = some a ↔ name.Reads value a := by
  cases name with
  | hz =>
    refine word32?_eq_some_iff.trans (and_congr_right fun hle => or_iff_left ?_)
    rintro ⟨rfl, _⟩
    exact absurd hle (by decide)
  | instructionsPerTick => exact word32?_eq_some_iff.trans (and_iff_right (Nat.zero_le _))
  | unknownOpcode => exact UnknownOpcodePolicy.toOption_ofText_eq_some_iff
  | seed | cycles => exact word64?_eq_some_iff

end OptionName

/-- The values given for an option lead from what it has been to what it is then. Only an option
that has no value yet takes one. -/
inductive Taken {α : Type} (Reads : String → α → Prop) : Option α → List String → Option α → Prop
  | kept (a? : Option α) : Taken Reads a? [] a?
  | read {value : String} {a : α} (h : Reads value a) : Taken Reads none [value] (some a)

namespace Taken

variable {α : Type} {Reads : String → α → Prop} {a? a?' : Option α} {value : String}
  {values : List String}

theorem nil_iff : Taken Reads a? [] a?' ↔ a?' = a? := by
  constructor
  · rintro ⟨⟩
    rfl
  · rintro rfl
    exact .kept _

theorem cons_iff : Taken Reads a? (value :: values) a?' ↔
    a? = none ∧ ∃ a, Reads value a ∧ Taken Reads (some a) values a?' := by
  constructor
  · rintro ⟨⟩
    exact ⟨rfl, _, by assumption, .kept _⟩
  · rintro ⟨rfl, a, h, ⟨⟩⟩
    exact .read h

end Taken

namespace Setting

def valueOf? (name : OptionName) : Setting → Option String
  | option name' value => if name' = name then some value else none
  | _ => none

def path? : Setting → Option String
  | path s => some s
  | _ => none

def valuesOf (name : OptionName) (ss : List Setting) : List String := ss.filterMap (valueOf? name)

def paths (ss : List Setting) : List String := ss.filterMap path?

/-- A path is the text itself, unless that is empty. -/
def IsPath (s path : String) : Prop := s = path ∧ path ≠ ""

/-- The settings lead from the options `g` to `g'`. -/
structure Leads (g : Given) (ss : List Setting) (g' : Given) : Prop where
  option : ∀ name : OptionName, Taken name.Reads (g.get name) (valuesOf name ss) (g'.get name)
  fast : g.fast.toNat + ss.count .fast = g'.fast.toNat
  path : Taken IsPath g.path (paths ss) g'.path

variable {g g' : Given} {ss : List Setting}

theorem leads_nil_iff : Leads g [] g' ↔ g' = g := by
  constructor
  · intro h
    have hfast : g'.fast = g.fast := by
      rw [Bool.eq_iff_iff, ← Bool.toNat_eq_one, ← Bool.toNat_eq_one, ← h.fast]
      rfl
    exact Given.eq_of_get (fun name => Taken.nil_iff.mp (h.option name)) (Taken.nil_iff.mp h.path)
      hfast
  · rintro rfl
    exact ⟨fun _ => .kept _, rfl, .kept _⟩

theorem leads_option_iff {name : OptionName} {value : String} :
    Leads g (.option name value :: ss) g' ↔
      ∃ g₁, CommandLine.setOption g name value = .ok g₁ ∧ Leads g₁ ss g' := by
  have hself : valuesOf name (.option name value :: ss) = value :: valuesOf name ss :=
    List.filterMap_cons_some (if_pos rfl)
  have hne : ∀ {name'}, name' ≠ name →
      valuesOf name' (.option name value :: ss) = valuesOf name' ss := fun h =>
    List.filterMap_cons_none (if_neg h.symm)
  constructor
  · intro h
    have ho := h.option name
    rw [hself] at ho
    obtain ⟨hn, a, ha, ho⟩ := Taken.cons_iff.mp ho
    have hs : CommandLine.setOption g name value = .ok (g.set name a) :=
      CommandLine.setOption_eq_ok_iff.mpr ⟨hn, a, OptionName.read?_eq_some_iff.mpr ha, rfl⟩
    refine ⟨g.set name a, hs, fun name' => ?_, ?_, ?_⟩
    · by_cases he : name' = name
      · subst he
        rwa [Given.get_set_self]
      · rw [Given.get_set_of_ne g he, ← hne he]
        exact h.option name'
    · rw [Given.fast_set]
      exact h.fast
    · rw [Given.path_set]
      exact h.path
  · rintro ⟨g₁, hs, h⟩
    obtain ⟨hn, a, ha, rfl⟩ := CommandLine.setOption_eq_ok_iff.mp hs
    refine ⟨fun name' => ?_, ?_, ?_⟩
    · have ho := h.option name'
      by_cases he : name' = name
      · subst he
        rw [Given.get_set_self] at ho
        rw [hself]
        exact Taken.cons_iff.mpr ⟨hn, a, OptionName.read?_eq_some_iff.mp ha, ho⟩
      · rwa [hne he, ← Given.get_set_of_ne g he a]
    · have hf := h.fast
      rwa [Given.fast_set] at hf
    · have hp := h.path
      rwa [Given.path_set] at hp

theorem leads_fast_iff :
    Leads g (.fast :: ss) g' ↔ ∃ g₁, CommandLine.setFast g = .ok g₁ ∧ Leads g₁ ss g' := by
  unfold CommandLine.setFast
  constructor
  · intro h
    have hf := h.fast
    rw [List.count_cons_self] at hf
    cases hg : g.fast with
    | true =>
      rw [hg] at hf
      have := Bool.toNat_le g'.fast
      simp at hf
      omega
    | false =>
      rw [hg] at hf
      refine ⟨_, rfl, h.option, ?_, h.path⟩
      rw [← hf]
      change 1 + _ = 0 + (_ + 1)
      omega
  · rintro ⟨g₁, hs, h⟩
    cases hg : g.fast with
    | true =>
      rw [hg] at hs
      cases hs
    | false =>
      rw [hg] at hs
      cases hs
      refine ⟨h.option, ?_, h.path⟩
      rw [← h.fast, hg, List.count_cons_self]
      change 0 + (_ + 1) = 1 + _
      omega

theorem taken_path_iff {paths : List String} {a : String} :
    Taken IsPath none paths (some a) ↔ paths = [a] ∧ a ≠ "" := by
  constructor
  · rintro (_ | ⟨rfl, hne⟩)
    exact ⟨rfl, hne⟩
  · rintro ⟨rfl, hne⟩
    exact .read ⟨rfl, hne⟩

theorem enter_path_eq_ok_iff {g₁ : Given} {path : String} :
    (Setting.path path).enter g = .ok g₁ ↔
      g.path = none ∧ ∃ a, IsPath path a ∧ g₁ = { g with path := some a } := by
  have henter : (Setting.path path).enter g =
      if g.path.isSome then CommandLine.fail (.unknownArgument path)
      else if path.isEmpty then CommandLine.fail .pathEmpty
      else .ok { g with path := some path } := rfl
  rw [henter]
  cases g.path with
  | some => exact ⟨fun h => (by cases h), fun ⟨h, _⟩ => (by cases h)⟩
  | none =>
    rw [Option.isSome_none, if_neg Bool.false_ne_true]
    by_cases he : path.isEmpty = true
    · rw [if_pos he]
      refine ⟨fun h => (by cases h), ?_⟩
      rintro ⟨_, _, ⟨rfl, hne⟩, _⟩
      exact absurd (String.isEmpty_iff.mp he) hne
    · rw [if_neg he]
      constructor
      · rintro ⟨⟩
        exact ⟨rfl, path, ⟨rfl, fun hs => he (String.isEmpty_iff.mpr hs)⟩, rfl⟩
      · rintro ⟨_, _, ⟨rfl, _⟩, rfl⟩
        rfl

theorem leads_path_iff {path : String} :
    Leads g (.path path :: ss) g' ↔
      ∃ g₁, (Setting.path path).enter g = .ok g₁ ∧ Leads g₁ ss g' := by
  constructor
  · intro h
    obtain ⟨hn, a, ha, hp⟩ := Taken.cons_iff.mp h.path
    exact ⟨_, enter_path_eq_ok_iff.mpr ⟨hn, a, ha, rfl⟩, h.option, h.fast, hp⟩
  · rintro ⟨g₁, hs, h⟩
    obtain ⟨hn, a, ha, rfl⟩ := enter_path_eq_ok_iff.mp hs
    exact ⟨h.option, h.fast, Taken.cons_iff.mpr ⟨hn, a, ha, h.path⟩⟩

/-- One setting after another is taken, in every order with the same outcome. -/
theorem foldlM_enter_eq_ok_iff : ss.foldlM enter g = .ok g' ↔ Leads g ss g' := by
  induction ss generalizing g with
  | nil =>
    rw [leads_nil_iff]
    exact ⟨fun h => (Except.ok.inj h).symm, fun h => h ▸ rfl⟩
  | cons s ss ih =>
    rw [List.foldlM_cons, Refusal.bind_eq_ok_iff]
    simp only [ih]
    cases s with
    | option name value => exact leads_option_iff.symm
    | fast => exact leads_fast_iff.symm
    | path path => exact leads_path_iff.symm

end Setting

/-- The value that has been given, or else the usual one. -/
inductive Chosen {α : Type} (Reads : String → α → Prop) (usual : α) : List String → α → Prop
  | usual : Chosen Reads usual [] usual
  | given {value : String} {a : α} (h : Reads value a) : Chosen Reads usual [value] a

namespace Chosen

variable {α : Type} {Reads : String → α → Prop} {usual a : α} {values : List String}

theorem iff_taken :
    Chosen Reads usual values a ↔ ∃ a?, Taken Reads none values a? ∧ a?.getD usual = a := by
  constructor
  · rintro (_ | h)
    · exact ⟨none, .kept none, rfl⟩
    · exact ⟨some a, .read h, rfl⟩
  · rintro ⟨a?, _ | h, rfl⟩
    · exact .usual
    · exact .given h

theorem eq_or (h : Chosen Reads usual values a) : a = usual ∨ ∃ value, Reads value a := by
  cases h with
  | usual => exact .inl rfl
  | given h => exact .inr ⟨_, h⟩

end Chosen

open Setting in
/-- The options that the settings ask for together. None is set twice, and there is one path. -/
structure Describes (ss : List Setting) (o : Options) : Prop where
  path : paths ss = [o.path]
  path_ne : o.path ≠ ""
  hz : Chosen OptionName.hz.Reads (250 : UInt32) (valuesOf .hz ss) o.hz
  instructionsPerTick : Chosen OptionName.instructionsPerTick.Reads (2 : UInt32)
    (valuesOf .instructionsPerTick ss) o.configuration.instructionsPerTick
  unknownOpcode : Chosen OptionName.unknownOpcode.Reads UnknownOpcodePolicy.halt
    (valuesOf .unknownOpcode ss) o.configuration.unknownOpcode
  seed : Taken OptionName.seed.Reads none (valuesOf .seed ss) o.configuration.seed
  cycles : Taken OptionName.cycles.Reads none (valuesOf .cycles ss) o.cycles
  fast : ss.count .fast = o.fast.toNat

namespace CommandLine

theorem describes_iff {ss : List Setting} {o : Options} :
    Describes ss o ↔ ∃ g, Setting.Leads {} ss g ∧ complete g = .ok o := by
  constructor
  · obtain ⟨path, hz, ⟨instructionsPerTick, unknownOpcode, seed⟩, cycles, fast⟩ := o
    intro h
    obtain ⟨hz?, hhz, rfl⟩ := Chosen.iff_taken.mp h.hz
    obtain ⟨instructionsPerTick?, hinstructionsPerTick, rfl⟩ :=
      Chosen.iff_taken.mp h.instructionsPerTick
    obtain ⟨unknownOpcode?, hunknownOpcode, rfl⟩ := Chosen.iff_taken.mp h.unknownOpcode
    refine ⟨⟨hz?, instructionsPerTick?, unknownOpcode?, seed, cycles, fast, some path⟩,
      ⟨?_, ?_, ?_⟩, rfl⟩
    · rintro (_ | _)
      exacts [hhz, hinstructionsPerTick, hunknownOpcode, h.seed, h.cycles]
    · exact (Nat.zero_add _).trans h.fast
    · exact Setting.taken_path_iff.mpr ⟨h.path, h.path_ne⟩
  · rintro ⟨g, h, hc⟩
    unfold complete at hc
    split at hc
    next => cases hc
    next path hp =>
      cases hc
      have hpaths := h.path
      rw [hp] at hpaths
      obtain ⟨path_eq, path_ne⟩ := Setting.taken_path_iff.mp hpaths
      exact ⟨path_eq, path_ne, Chosen.iff_taken.mpr ⟨_, h.option .hz, rfl⟩,
        Chosen.iff_taken.mpr ⟨_, h.option .instructionsPerTick, rfl⟩,
        Chosen.iff_taken.mpr ⟨_, h.option .unknownOpcode, rfl⟩, h.option .seed, h.option .cycles,
        (Nat.zero_add _).symm.trans h.fast⟩

/-- A command line is accepted exactly with the options that its arguments spell out. -/
theorem parse_eq_ok_iff {arguments : List String} {o : Options} :
    parse arguments = .ok o ↔ ∃ ss, Spells ss arguments ∧ Describes ss o := by
  simp only [describes_iff, ← Setting.foldlM_enter_eq_ok_iff]
  constructor
  · intro h
    obtain ⟨g, hs, hc⟩ := Refusal.ok_of_bind h
    obtain ⟨ss, spells⟩ := exists_spells hs
    exact ⟨ss, spells, g, (scan_of_spells spells {}).mp hs, hc⟩
  · rintro ⟨ss, spells, g, hs, hc⟩
    rw [parse, (scan_of_spells spells {}).mpr hs]
    exact hc

/-- A rate of zero is never accepted. -/
theorem hz_of_parse {arguments : List String} {o : Options} (h : parse arguments = .ok o) :
    1 ≤ o.hz.toNat := by
  obtain ⟨ss, _, describes⟩ := parse_eq_ok_iff.mp h
  rcases describes.hz.eq_or with he | ⟨value, hv⟩
  · rw [he]
    decide
  · exact hv.1

theorem isOperand_toString (n : Nat) : IsOperand (toString n) := by
  intro c cs h
  rw [Nat.toString_eq_repr, Nat.toList_repr] at h
  have head := (denotes_toDigits n).digits '-' (h ▸ List.mem_cons_self)
  exact absurd head (by decide)

/-- Numbers are taken as they are written, after their options or behind an equals sign. -/
theorem parse_numbers {path : String} (operand : IsOperand path) (hne : path ≠ "") {hz : UInt32}
    (hhz : 1 ≤ hz.toNat) (cycles seed : UInt64) :
    parse ["--hz", toString hz.toNat, "--cycles", toString cycles.toNat,
        "--seed=" ++ toString seed.toNat, path] =
      .ok ⟨path, hz, ⟨2, .halt, some seed⟩, some cycles, false⟩ := by
  have hseed : "--seed=" = "--" ++ OptionName.seed.text ++ "=" := by decide
  rw [hseed]
  have spells := Spells.separate .hz (isOperand_toString hz.toNat)
    (.separate .cycles (isOperand_toString cycles.toNat)
      (.joined .seed (toString seed.toNat) (.path operand .nothing)))
  exact parse_eq_ok_iff.mpr ⟨_, spells,
    { path := rfl
      path_ne := hne
      hz := .given ⟨hhz, numeral_toString hz.toNat⟩
      instructionsPerTick := .usual
      unknownOpcode := .usual
      seed := .read (numeral_toString seed.toNat)
      cycles := .read (numeral_toString cycles.toNat)
      fast := rfl }⟩

end CommandLine
end Chip8
