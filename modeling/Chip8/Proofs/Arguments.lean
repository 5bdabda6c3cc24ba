import Chip8.CommandLine
import Mathlib.Data.List.TakeWhile

/-! # Arguments

The arguments of a command line spell out one setting after another. Those that spell out none are
refused; the others are taken as if each setting were entered as soon as it is complete, although
an option or a path is settled only when its successor is seen. -/
namespace Chip8

theorem Refusal.ok_of_bind {α β : Type} {x : Except Refusal α} {f : α → Except Refusal β} {b : β}
    (h : x >>= f = .ok b) : ∃ a, x = .ok a ∧ f a = .ok b := by
  cases x with
  | error e => cases h
  | ok a => exact ⟨a, rfl, h⟩

theorem Refusal.bind_eq_ok_iff {α β : Type} {x : Except Refusal α} {f : α → Except Refusal β}
    {b : β} : x >>= f = .ok b ↔ ∃ a, x = .ok a ∧ f a = .ok b := by
  refine ⟨ok_of_bind, ?_⟩
  rintro ⟨a, rfl, h⟩
  exact h

namespace OptionName

def Value : OptionName → Type
  | hz | instructionsPerTick => UInt32
  | unknownOpcode => UnknownOpcodePolicy
  | seed | cycles => UInt64

def read? : (name : OptionName) → String → Option name.Value
  | hz => CommandLine.word32? 1
  | instructionsPerTick => CommandLine.word32? 0
  | unknownOpcode => fun value => (UnknownOpcodePolicy.ofText value).toOption
  | seed | cycles => CommandLine.word64?

theorem text_of_ofText? {s : String} {name : OptionName} (h : ofText? s = some name) :
    s = name.text := by
  unfold ofText? at h
  split at h <;> cases h <;> rfl

end OptionName

namespace Given

def get (g : Given) : (name : OptionName) → Option name.Value
  | .hz => g.hz
  | .instructionsPerTick => g.instructionsPerTick
  | .unknownOpcode => g.unknownOpcode
  | .seed => g.seed
  | .cycles => g.cycles

def set (g : Given) : (name : OptionName) → name.Value → Given
  | .hz => fun a => { g with hz := some a }
  | .instructionsPerTick => fun a => { g with instructionsPerTick := some a }
  | .unknownOpcode => fun a => { g with unknownOpcode := some a }
  | .seed => fun a => { g with seed := some a }
  | .cycles => fun a => { g with cycles := some a }

variable (g : Given)

theorem get_set_self (name : OptionName) (a : name.Value) : (g.set name a).get name = some a := by
  cases name <;> rfl

theorem get_set_of_ne {name name' : OptionName} (h : name' ≠ name) (a : name.Value) :
    (g.set name a).get name' = g.get name' := by
  cases name <;> cases name' <;> first | rfl | exact absurd rfl h

theorem path_set (name : OptionName) (a : name.Value) : (g.set name a).path = g.path := by
  cases name <;> rfl

theorem fast_set (name : OptionName) (a : name.Value) : (g.set name a).fast = g.fast := by
  cases name <;> rfl

theorem eq_of_get {g g' : Given} (h : ∀ name, g'.get name = g.get name) (path : g'.path = g.path)
    (fast : g'.fast = g.fast) : g' = g := by
  obtain ⟨hz, instructionsPerTick, unknownOpcode, seed, cycles, _, _⟩ := g
  cases path
  cases fast
  cases h .hz
  cases h .instructionsPerTick
  cases h .unknownOpcode
  cases h .seed
  cases h .cycles
  rfl

end Given

/-- What one or two arguments ask for. -/
inductive Setting
  | option (name : OptionName) (value : String)
  | fast
  | path (path : String)
  deriving DecidableEq

/-- An argument that does not begin with a minus sign, or is nothing but one. -/
def IsOperand (argument : String) : Prop := ∀ c cs, argument.toList ≠ '-' :: c :: cs

/-- The arguments spell out the settings in turn. A value of its own must not look like an option,
and everything after the escape is a path. -/
inductive Spells : List Setting → List String → Prop
  | nothing : Spells [] []
  | separate (name : OptionName) {value : String} {ss : List Setting} {rest : List String}
      (operand : IsOperand value) (spells : Spells ss rest) :
      Spells (.option name value :: ss) (("--" ++ name.text) :: value :: rest)
  | joined (name : OptionName) (value : String) {ss : List Setting} {rest : List String}
      (spells : Spells ss rest) :
      Spells (.option name value :: ss) (("--" ++ name.text ++ "=" ++ value) :: rest)
  | fast {ss : List Setting} {rest : List String} (spells : Spells ss rest) :
      Spells (.fast :: ss) ("--fast" :: rest)
  | path {path : String} {ss : List Setting} {rest : List String} (operand : IsOperand path)
      (spells : Spells ss rest) : Spells (.path path :: ss) (path :: rest)
  | escape (paths : List String) : Spells (paths.map .path) ("--" :: paths)

namespace Setting

/-- The options given so far, and a setting after them. -/
def enter (g : Given) : Setting → Except Refusal Given
  | option name value => CommandLine.setOption g name value
  | fast => CommandLine.setFast g
  | path s =>
    if g.path.isSome then CommandLine.fail (.unknownArgument s) else CommandLine.settle g (.path s)

end Setting

namespace CommandLine

open Refusal

variable {g g' g₁ : Given} {p p' : Pending} {argument : String} {arguments : List String}

theorem setOption_eq (g : Given) (name : OptionName) (value : String) :
    setOption g name value =
      if (g.get name).isSome then fail (.repeatedOption name)
      else (name.read? value).elim (fail (.valueRefused name value))
        fun a => .ok (g.set name a) := by
  have key : ∀ {α : Type} (a? : Option α) (f : Option α → Given),
      (if (g.get name).isSome then fail (.repeatedOption name)
        else accept name value a? >>= fun b? => Except.ok (f b?)) =
      if (g.get name).isSome then fail (.repeatedOption name)
      else a?.elim (fail (.valueRefused name value)) fun a => .ok (f (some a)) := by
    intro α a? f
    cases a? <;> rfl
  cases name with
  | hz => exact key (word32? 1 value) fun b? => { g with hz := b? }
  | instructionsPerTick =>
    exact key (word32? 0 value) fun b? => { g with instructionsPerTick := b? }
  | unknownOpcode =>
    exact key (UnknownOpcodePolicy.ofText value).toOption fun b? => { g with unknownOpcode := b? }
  | seed => exact key (word64? value) fun b? => { g with seed := b? }
  | cycles => exact key (word64? value) fun b? => { g with cycles := b? }

theorem setOption_eq_ok_iff {name : OptionName} {value : String} :
    setOption g name value = .ok g' ↔
      g.get name = none ∧ ∃ a, name.read? value = some a ∧ g' = g.set name a := by
  rw [setOption_eq]
  cases g.get name with
  | some => exact ⟨nofun, nofun⟩
  | none =>
    cases name.read? value with
    | none => exact ⟨nofun, fun ⟨_, _, h, _⟩ => nomatch h⟩
    | some a =>
      constructor
      · rintro ⟨⟩
        exact ⟨rfl, a, rfl, rfl⟩
      · rintro ⟨_, _, ⟨⟩, rfl⟩
        rfl

theorem splitValue_append {cs : List Char} (h : '=' ∉ cs) (value : List Char) :
    splitValue (cs ++ '=' :: value) = (String.ofList cs, some (String.ofList value)) := by
  have hp : ∀ c ∈ cs, (c != '=') = true := fun c hc => bne_iff_ne.mpr fun he => h (he ▸ hc)
  rw [splitValue, List.takeWhile_append_of_pos hp, List.dropWhile_append_of_pos hp,
    List.takeWhile_cons_of_neg (by decide), List.dropWhile_cons_of_neg (by decide), List.append_nil]

theorem eq_of_splitValue (cs : List Char) :
    cs = (splitValue cs).1.toList ++ (splitValue cs).2.elim [] ('=' :: ·.toList) := by
  have h := List.takeWhile_append_dropWhile (p := (· != '=')) (l := cs)
  unfold splitValue
  cases hd : cs.dropWhile (· != '=') with
  | nil =>
    rw [hd] at h
    simpa using h.symm
  | cons c value =>
    have hc := List.head?_dropWhile_not (· != '=') cs
    rw [hd] at hc
    rw [hd, bne_eq_false_iff_eq.mp hc] at h
    simpa using h.symm

namespace Token

theorem eq_of_escape (h : ofArgument argument = .escape) : argument = "--" := by
  unfold ofArgument at h
  split at h
  next he => exact String.toList_inj.mp he
  all_goals cases h

theorem toList_of_long {name : String} {value : Option String}
    (h : ofArgument argument = .long name value) :
    argument.toList = '-' :: '-' :: (name.toList ++ value.elim [] ('=' :: ·.toList)) := by
  unfold ofArgument at h
  split at h
  case h_2 cs _ he =>
    cases h
    rw [he, ← eq_of_splitValue]
  all_goals cases h

theorem eq_of_long {name : String} (h : ofArgument argument = .long name none) :
    argument = "--" ++ name := by
  rw [← String.toList_inj, toList_of_long h]
  simp

theorem eq_of_joined {name value : String} (h : ofArgument argument = .long name (some value)) :
    argument = "--" ++ name ++ "=" ++ value := by
  rw [← String.toList_inj, toList_of_long h]
  simp

theorem ofArgument_eq_plain_iff : ofArgument argument = .plain ↔ IsOperand argument := by
  unfold ofArgument
  split
  case h_1 he => exact ⟨nofun, fun h => absurd he (h _ _)⟩
  case h_2 he => exact ⟨nofun, fun h => absurd he (h _ _)⟩
  case h_3 he => exact ⟨nofun, fun h => absurd he (h _ _)⟩
  case h_4 hne => exact ⟨fun _ => hne, fun _ => rfl⟩

theorem ofArgument_option (name : OptionName) :
    ofArgument ("--" ++ name.text) = .long name.text none := by
  cases name <;> rfl

theorem ofArgument_joined (name : OptionName) (value : String) :
    ofArgument ("--" ++ name.text ++ "=" ++ value) = .long name.text (some value) := by
  have hn : '=' ∉ name.text.toList := by cases name <;> decide
  have hl : ("--" ++ name.text ++ "=" ++ value).toList =
      '-' :: '-' :: (name.text.toList ++ '=' :: value.toList) := by
    simp
  unfold ofArgument
  rw [hl]
  split
  case h_1 he => simp at he
  case h_2 he =>
    cases he
    rw [splitValue_append hn, String.ofList_toList, String.ofList_toList]
  case h_3 hc he => exact (hc (List.cons.inj (List.cons.inj he).2).1.symm).elim
  case h_4 he => exact absurd rfl (he _ _)

end Token

theorem settle_of_takePath (h : takePath g p argument = .ok (g₁, p')) : settle g p = .ok g₁ := by
  unfold takePath at h
  split at h
  next => cases h
  next =>
    obtain ⟨_, hs, he⟩ := ok_of_bind h
    cases he
    exact hs

theorem takeShort_ne_ok {letter : Char} : takeShort g p argument letter ≠ .ok (g₁, p') := by
  intro hs
  unfold takeShort at hs
  split at hs
  case h_1 | h_2 =>
    obtain ⟨_, _, he⟩ := ok_of_bind hs
    cases he
  case h_3 => cases hs

theorem settle_of_takeLong {name : String} {value : Option String}
    (h : takeLong g p argument name value = .ok (g₁, p')) : ∃ g₂, settle g p = .ok g₂ := by
  unfold takeLong at h
  split at h
  case h_1 | h_2 | h_3 =>
    obtain ⟨g₂, hs, _⟩ := ok_of_bind h
    exact ⟨g₂, hs⟩
  case h_4 | h_5 | h_6 => cases h
  case h_7 =>
    split at h
    next => cases h
    all_goals
      obtain ⟨g₂, hs, _⟩ := ok_of_bind h
      exact ⟨g₂, hs⟩

theorem settle_of_scan_escaped (h : scan g p true arguments = .ok g') :
    ∃ g₁, settle g p = .ok g₁ := by
  cases arguments with
  | nil => exact ⟨g', h⟩
  | cons argument rest =>
    obtain ⟨⟨g₁, _⟩, ht, _⟩ := ok_of_bind h
    exact ⟨g₁, settle_of_takePath ht⟩

/-- Only a value that is still missing may come before a pending argument is accepted. -/
theorem settle_of_scan (h : scan g p false arguments = .ok g') : (∃ g₁, settle g p = .ok g₁) ∨
    ∃ name value rest, p = .option name none ∧ arguments = value :: rest ∧ IsOperand value := by
  cases arguments with
  | nil => exact .inl ⟨g', h⟩
  | cons argument rest =>
    unfold scan at h
    rw [if_neg Bool.false_ne_true] at h
    split at h
    next => exact .inl (settle_of_scan_escaped h)
    next =>
      obtain ⟨_, ht, _⟩ := ok_of_bind h
      exact .inl (settle_of_takeLong ht)
    next =>
      obtain ⟨_, ht, _⟩ := ok_of_bind h
      exact absurd ht takeShort_ne_ok
    next name hplain =>
      have operand := Token.ofArgument_eq_plain_iff.mp hplain
      exact .inr ⟨name, argument, rest, rfl, rfl, operand⟩
    next =>
      obtain ⟨⟨g₁, _⟩, ht, _⟩ := ok_of_bind h
      exact .inl ⟨g₁, settle_of_takePath ht⟩

theorem hasPath_of_settle (h : settle g p = .ok g₁) : hasPath g p = g₁.path.isSome := by
  unfold settle at h
  split at h
  next =>
    cases h
    rfl
  next => cases h
  next =>
    obtain ⟨_, _, _, rfl⟩ := setOption_eq_ok_iff.mp h
    rw [Given.path_set]
    rfl
  next =>
    split at h
    · cases h
    · cases h
      rfl

/-- A pending argument that is not refused can be settled at once. -/
theorem scan_of_settle (h : settle g p = .ok g₁) (escaped : Bool) (arguments : List String) :
    scan g p escaped arguments = scan g₁ .nothing escaped arguments := by
  have hpath : ∀ argument, takePath g p argument = takePath g₁ .nothing argument := by
    intro argument
    rw [takePath, hasPath_of_settle h, h]
    rfl
  -- nothing but the escape leaves the pending argument to the arguments that follow
  induction arguments generalizing escaped with
  | nil => exact h
  | cons argument rest ih =>
    unfold scan
    cases escaped with
    | true => rw [if_pos rfl, if_pos rfl, hpath]
    | false =>
      rw [if_neg Bool.false_ne_true, if_neg Bool.false_ne_true]
      cases Token.ofArgument argument with
      | escape => exact ih true
      | long name value =>
        have hlong : takeLong g p argument name value =
            takeLong g₁ .nothing argument name value := by
          unfold takeLong
          rw [h]
          rfl
        exact congrArg (· >>= _) hlong
      | short letter =>
        have hshort : takeShort g p argument letter = takeShort g₁ .nothing argument letter := by
          unfold takeShort
          rw [h]
          rfl
        exact congrArg (· >>= _) hshort
      | plain =>
        cases p with
        | option name value =>
          cases value with
          | none => cases h
          | some value => exact congrArg (· >>= _) (hpath argument)
        | _ => exact congrArg (· >>= _) (hpath argument)

theorem scan_eq_ok_iff {escaped : Bool} (hp : ∀ name, p ≠ .option name none) :
    scan g p escaped arguments = .ok g' ↔
      ∃ g₁, settle g p = .ok g₁ ∧ scan g₁ .nothing escaped arguments = .ok g' := by
  constructor
  · intro h
    have hs : ∃ g₁, settle g p = .ok g₁ := by
      cases escaped with
      | true => exact settle_of_scan_escaped h
      | false =>
        rcases settle_of_scan h with hs | ⟨name, _, _, he, _⟩
        · exact hs
        · exact absurd he (hp name)
    obtain ⟨g₁, hs⟩ := hs
    exact ⟨g₁, hs, scan_of_settle hs _ _ ▸ h⟩
  · rintro ⟨g₁, hs, h⟩
    rw [scan_of_settle hs, h]

theorem scan_separate {name : OptionName} {value : String} (h : IsOperand value) :
    scan g .nothing false (("--" ++ name.text) :: value :: arguments) = .ok g' ↔
      ∃ g₁, (Setting.option name value).enter g = .ok g₁ ∧
        scan g₁ .nothing false arguments = .ok g' := by
  have hs : scan g .nothing false (("--" ++ name.text) :: value :: arguments) =
      scan g (.option name (some value)) false arguments := by
    have htake : takeLong g .nothing ("--" ++ name.text) name.text none =
        .ok (g, .option name none) := by cases name <;> rfl
    simp only [scan, if_neg Bool.false_ne_true, Token.ofArgument_option, htake,
      Token.ofArgument_eq_plain_iff.mpr h]
    rfl
  rw [hs, scan_eq_ok_iff fun _ he => by cases he]
  rfl

theorem scan_joined (name : OptionName) (value : String) :
    scan g .nothing false (("--" ++ name.text ++ "=" ++ value) :: arguments) = .ok g' ↔
      ∃ g₁, (Setting.option name value).enter g = .ok g₁ ∧
        scan g₁ .nothing false arguments = .ok g' := by
  rw [← Refusal.bind_eq_ok_iff, Setting.enter]
  have htake : takeLong g .nothing ("--" ++ name.text ++ "=" ++ value) name.text (some value) =
      setOption g name value >>= fun g₁ => .ok (g₁, .nothing) := by cases name <;> rfl
  simp only [scan, if_neg Bool.false_ne_true, Token.ofArgument_joined, htake]
  cases setOption g name value <;> rfl

theorem scan_fast : scan g .nothing false ("--fast" :: arguments) = .ok g' ↔
    ∃ g₁, Setting.fast.enter g = .ok g₁ ∧ scan g₁ .nothing false arguments = .ok g' := by
  rw [← Refusal.bind_eq_ok_iff]
  have hs : scan g .nothing false ("--fast" :: arguments) =
      (setFast g >>= fun g₁ => .ok (g₁, .nothing)) >>= fun x => scan x.1 x.2 false arguments := rfl
  rw [hs, Setting.enter]
  cases setFast g <;> rfl

theorem takePath_bind {path : String} {escaped : Bool} :
    (takePath g .nothing path >>= fun x => scan x.1 x.2 escaped arguments) = .ok g' ↔
      ∃ g₁, (Setting.path path).enter g = .ok g₁ ∧
        scan g₁ .nothing escaped arguments = .ok g' := by
  unfold Setting.enter takePath hasPath
  cases g.path.isSome with
  | true => exact ⟨nofun, fun ⟨_, h, _⟩ => nomatch h⟩
  | false => exact scan_eq_ok_iff fun _ => nofun

theorem scan_path {path : String} (h : IsOperand path) :
    scan g .nothing false (path :: arguments) = .ok g' ↔
      ∃ g₁, (Setting.path path).enter g = .ok g₁ ∧ scan g₁ .nothing false arguments = .ok g' := by
  rw [← takePath_bind]
  simp only [scan, if_neg Bool.false_ne_true, Token.ofArgument_eq_plain_iff.mpr h]

theorem scan_escaped (g : Given) (paths : List String) : scan g .nothing true paths = .ok g' ↔
    (paths.map Setting.path).foldlM Setting.enter g = .ok g' := by
  induction paths generalizing g with
  | nil => rfl
  | cons path paths ih =>
    rw [List.map_cons, List.foldlM_cons, bind_eq_ok_iff]
    exact takePath_bind.trans (exists_congr fun g₁ => and_congr_right fun _ => ih g₁)

theorem foldlM_enter_cons {s : Setting} {ss : List Setting}
    (h : ∀ g, scan g .nothing false arguments = .ok g' ↔ ss.foldlM Setting.enter g = .ok g') :
    (∃ g₁, s.enter g = .ok g₁ ∧ scan g₁ .nothing false arguments = .ok g') ↔
      (s :: ss).foldlM Setting.enter g = .ok g' := by
  rw [List.foldlM_cons, bind_eq_ok_iff]
  exact exists_congr fun g₁ => and_congr_right fun _ => h g₁

/-- Arguments are taken as the settings that they spell out. -/
theorem scan_of_spells {ss : List Setting} (h : Spells ss arguments) (g : Given) :
    scan g .nothing false arguments = .ok g' ↔ ss.foldlM Setting.enter g = .ok g' := by
  induction h generalizing g with
  | nothing => rfl
  | separate name operand _ ih => exact (scan_separate operand).trans (foldlM_enter_cons ih)
  | joined name value _ ih => exact (scan_joined name value).trans (foldlM_enter_cons ih)
  | fast _ ih => exact scan_fast.trans (foldlM_enter_cons ih)
  | path operand _ ih => exact (scan_path operand).trans (foldlM_enter_cons ih)
  | escape paths => exact scan_escaped g paths

/-- An argument that begins with two minus signs is the switch, or names an option. -/
theorem takeLong_cases {name : String} {value : Option String}
    (h : takeLong g p argument name value = .ok (g₁, p')) :
    name = "fast" ∧ value = none ∧ p' = .nothing ∨ ∃ option : OptionName, name = option.text ∧
      (value = none ∧ p' = .option option none ∨ ∃ v, value = some v ∧ p' = .nothing) := by
  unfold takeLong at h
  split at h
  case h_1 =>
    obtain ⟨_, _, h⟩ := ok_of_bind h
    obtain ⟨_, _, he⟩ := ok_of_bind h
    cases he
    exact .inl ⟨rfl, rfl, rfl⟩
  case h_2 | h_3 =>
    obtain ⟨_, _, he⟩ := ok_of_bind h
    cases he
  case h_4 | h_5 | h_6 => cases h
  case h_7 =>
    cases ho : OptionName.ofText? name with
    | none =>
      rw [ho] at h
      cases h
    | some option =>
      rw [ho] at h
      refine .inr ⟨option, OptionName.text_of_ofText? ho, ?_⟩
      cases value with
      | none =>
        obtain ⟨_, _, he⟩ := ok_of_bind h
        cases he
        exact .inl ⟨rfl, rfl⟩
      | some v =>
        obtain ⟨_, _, h⟩ := ok_of_bind h
        obtain ⟨_, _, he⟩ := ok_of_bind h
        cases he
        exact .inr ⟨v, rfl, rfl⟩

/-- Whatever is accepted spells out some settings. -/
theorem exists_spells : ∀ {arguments : List String} {g : Given},
    scan g .nothing false arguments = .ok g' → ∃ ss, Spells ss arguments
  | [], _, _ => ⟨[], .nothing⟩
  | argument :: rest, g, h => by
    cases ht : Token.ofArgument argument with
    | escape =>
      rw [Token.eq_of_escape ht]
      exact ⟨_, .escape rest⟩
    | short letter =>
      simp only [scan, if_neg Bool.false_ne_true, ht] at h
      obtain ⟨_, hs, _⟩ := ok_of_bind h
      exact absurd hs takeShort_ne_ok
    | plain =>
      have operand := Token.ofArgument_eq_plain_iff.mp ht
      obtain ⟨g₁, _, hs⟩ := (scan_path operand).mp h
      obtain ⟨ss, spells⟩ := exists_spells hs
      exact ⟨_, .path operand spells⟩
    | long name value =>
      have hl := h
      simp only [scan, if_neg Bool.false_ne_true, ht] at hl
      obtain ⟨⟨g₁, p⟩, hs, hrest⟩ := ok_of_bind hl
      rcases takeLong_cases hs with ⟨rfl, rfl, rfl⟩ | ⟨option, rfl, ⟨rfl, rfl⟩ | ⟨v, rfl, rfl⟩⟩
      · rw [Token.eq_of_long ht]
        obtain ⟨ss, spells⟩ := exists_spells hrest
        exact ⟨_, .fast spells⟩
      · rw [Token.eq_of_long ht] at h ⊢
        -- the next argument is the value, and the settings go on behind it
        rcases settle_of_scan hrest with ⟨_, he⟩ | ⟨_, value, rest, _, rfl, operand⟩
        · cases he
        · obtain ⟨_, _, hs⟩ := (scan_separate operand).mp h
          obtain ⟨ss, spells⟩ := exists_spells hs
          exact ⟨_, .separate option operand spells⟩
      · rw [Token.eq_of_joined ht]
        obtain ⟨ss, spells⟩ := exists_spells hrest
        exact ⟨_, .joined option v spells⟩

end CommandLine
end Chip8
