import Chip8.Narration
import Chip8.Proofs.Failures

/-! # Narrations

What is told of a machine's work goes to the log as notes that do not depend on the log, and that
ring no bell when they are shown. Only the reason why a program could not be read, which comes from
elsewhere, may hold one. -/
namespace Chip8

/-- A text that rings no bell. -/
def Silent (s : String) : Prop := '\x07' ∉ s.toList

namespace Silent

instance (s : String) : Decidable (Silent s) := inferInstanceAs (Decidable ('\x07' ∉ s.toList))

variable {s t : String}

theorem append (hs : Silent s) (ht : Silent t) : Silent (s ++ t) := by
  unfold Silent at *
  rw [String.toList_append, List.mem_append, not_or]
  exact ⟨hs, ht⟩

theorem toString (n : Nat) : Silent (ToString.toString n) := by
  intro hm
  rw [Nat.toString_eq_repr, Nat.toList_repr] at hm
  exact absurd (Nat.isDigit_of_mem_toDigits (by decide) (by decide) hm) (by decide)

theorem intercalate (hs : Silent s) {ts : List String} (h : ∀ t ∈ ts, Silent t) :
    Silent (s.intercalate ts) := by
  induction ts with
  | nil => exact List.not_mem_nil
  | cons t ts ih =>
    obtain ⟨ht, hts⟩ := List.forall_mem_cons.mp h
    cases ts with
    | nil => simpa using ht
    | cons u us =>
      rw [String.intercalate_cons_cons]
      exact (ht.append hs).append (ih hts)

end Silent

namespace Hexadecimal

theorem digit_ne_bell {d : Nat} (h : d < 16) : digit d ≠ '\x07' := by
  revert d
  decide

theorem not_mem_digits (n : Nat) : '\x07' ∉ digits n := by
  induction n using digits.induct with
  | case1 n h =>
    rw [digits, if_pos h, List.mem_singleton]
    exact (digit_ne_bell h).symm
  | case2 n h ih =>
    rw [digits, if_neg h, List.mem_append, List.mem_singleton, not_or]
    exact ⟨ih, (digit_ne_bell (Nat.mod_lt n (by decide))).symm⟩

theorem silent_padded (width n : Nat) : Silent (padded width n) := by
  rw [Silent, padded, String.toList_ofList]
  intro hm
  rcases List.mem_append.mp hm with hm | hm
  · exact absurd (List.eq_of_mem_replicate hm) (by decide)
  · exact not_mem_digits n hm

end Hexadecimal

open Hexadecimal (silent_padded)

theorem Timer.silent_name (t : Timer) : Silent t.name := by
  cases t <;> decide

namespace Fault

theorem silent_addressText (a : UInt16) : Silent (addressText a) :=
  .append (by decide) (silent_padded 3 _)

theorem silent_opcodeText (w : UInt16) : Silent (opcodeText w) :=
  .append (by decide) (silent_padded 4 _)

theorem silent_message {fault : Fault}
    (h : ∀ reason, fault = .programUnavailable reason → Silent reason) : Silent fault.message := by
  cases fault with
  | stackOverflow a => exact (Silent.append (by decide) (silent_addressText a)).append (by decide)
  | stackUnderflow a => exact (Silent.append (by decide) (silent_addressText a)).append (by decide)
  | unknownOpcode w a =>
    exact ((Silent.append (by decide) (silent_opcodeText w)).append (by decide)).append
      (silent_addressText a)
  | programTooLarge size limit =>
    exact (((Silent.append (by decide) (.toString size)).append (by decide)).append
      (.toString limit)).append (by decide)
  | programUnavailable reason => exact .append (by decide) (h reason rfl)

end Fault

namespace Note

theorem silent_registersText (v : List UInt8) : Silent (registersText v) := by
  have hv : ∀ t ∈ v.map fun b => Hexadecimal.padded 2 b.toNat, Silent t := by
    intro t ht
    obtain ⟨b, _, rfl⟩ := List.mem_map.mp ht
    exact silent_padded 2 _
  exact (Silent.append (by decide) (.intercalate (by decide) hv)).append (by decide)

/-- The text that a note takes over from elsewhere. -/
def quoted? : Note → Option String
  | programUnavailable text | failed text => some text
  | programRejected fault | halting fault | interpreterHalted fault => some fault.message
  | _ => none

theorem silent_text {n : Note} (h : ∀ s, n.quoted? = some s → Silent s) : Silent n.text := by
  cases n with
  | programLoaded size => exact (Silent.append (by decide) (.toString size)).append (by decide)
  | programRejected fault => exact .append (by decide) (h _ rfl)
  | programUnavailable reason => exact .append (by decide) (h _ rfl)
  | keyCaptured key x =>
    exact ((Silent.append (by decide) (silent_padded 1 _)).append (by decide)).append
      (silent_padded 1 _)
  | instructionFetched w v i pc =>
    exact (((((((silent_padded 4 _).append (by decide)).append (silent_registersText v)).append
      (by decide)).append (silent_padded 4 _)).append (by decide)).append (silent_padded 4 _))
  | routineIgnored a => exact .append (by decide) (Fault.silent_addressText a)
  | opcodeSkipped w a =>
    exact ((Silent.append (by decide) (silent_padded 4 _)).append (by decide)).append
      (silent_padded 3 _)
  | halting fault => exact .append (by decide) (h _ rfl)
  | timerStarting t => exact (Silent.append (by decide) t.silent_name).append (by decide)
  | timerStopped t => exact t.silent_name.append (by decide)
  | staleTickIgnored t epoch =>
    exact ((Silent.append (by decide) t.silent_name).append (by decide)).append (.toString _)
  | cycleLimitReached n => exact (Silent.append (by decide) (.toString n)).append (by decide)
  | interpreterHalted fault => exact .append (by decide) (h _ rfl)
  | ticksPending n => exact .append (.toString n) (by decide)
  | runRendered frames soundPeriods =>
    exact (((Silent.append (by decide) (.toString frames)).append (by decide)).append
      (.toString soundPeriods)).append (by decide)
  | failed message => exact h _ rfl

theorem silent_of_quoted? {n : Note} (h : n.quoted? = none) : Silent n.text :=
  silent_text fun s hs => by
    rw [h] at hs
    cases hs

end Note

namespace Log

variable {l l' : Log}

theorem verbosity_add (l : Log) (n : Note) : (l.add n).verbosity = l.verbosity := by
  unfold add
  split <;> rfl

theorem verbosity_addAll (l : Log) (ns : List Note) : (l.addAll ns).verbosity = l.verbosity := by
  induction ns generalizing l with
  | nil => rfl
  | cons n ns ih => exact (ih _).trans (l.verbosity_add n)

theorem addAll_append (l : Log) (ns ns' : List Note) :
    l.addAll (ns ++ ns') = (l.addAll ns).addAll ns' :=
  List.foldl_append

theorem addAll_of_verbosity (h : l.verbosity = none) (ns : List Note) : l.addAll ns = l := by
  induction ns with
  | nil => rfl
  | cons n ns ih =>
    have hn : l.add n = l := by rw [add, admits, h]; rfl
    exact (congrArg (addAll · ns) hn).trans ih

/-- Whatever the log, `f` adds the same notes to it, and none of them rings a bell. -/
def Adds (f : Log → Log) : Prop :=
  ∃ ns : List Note, (∀ n ∈ ns, Silent n.text) ∧ ∀ l, f l = l.addAll ns

namespace Adds

variable {f g : Log → Log}

theorem congr (hg : Adds g) (h : ∀ l, f l = g l) : Adds f := by
  rwa [funext h]

theorem nothing : Adds fun l => l := ⟨[], List.forall_mem_nil _, fun _ => rfl⟩

theorem all {ns : List Note} (h : ∀ n ∈ ns, Silent n.text) : Adds (·.addAll ns) :=
  ⟨ns, h, fun _ => rfl⟩

theorem note {n : Note} (h : Silent n.text) : Adds (·.add n) :=
  ⟨[n], List.forall_mem_singleton.mpr h, fun _ => rfl⟩

theorem comp (hf : Adds f) (hg : Adds g) : Adds fun l => g (f l) := by
  obtain ⟨ns, hns, hf⟩ := hf
  obtain ⟨ns', hns', hg⟩ := hg
  exact ⟨ns ++ ns', List.forall_mem_append.mpr ⟨hns, hns'⟩, fun l =>
    (hg (f l)).trans ((congrArg (addAll · ns') (hf l)).trans (l.addAll_append ns ns').symm)⟩

/-- A log that admits nothing may be left alone. -/
theorem unlessNone (hf : Adds f) : Adds fun l => if l.verbosity.isNone then l else f l := by
  obtain ⟨ns, hns, hf⟩ := hf
  refine ⟨ns, hns, fun l => ?_⟩
  dsimp only
  split
  next h => exact (addAll_of_verbosity (Option.isNone_iff_eq_none.mp h) ns).symm
  next => exact hf l

end Adds

theorem mem_notes_addAll {n : Note} {ns : List Note} (h : n ∈ (l.addAll ns).notes.toList) :
    n ∈ l.notes.toList ∨ n ∈ ns := by
  induction ns generalizing l with
  | nil => exact .inl h
  | cons n' ns ih =>
    rcases ih h with h | h
    · unfold add at h
      split at h
      · rcases List.mem_append.mp (Array.toList_push ▸ h) with h | h
        · exact .inl h
        · exact .inr (List.mem_cons.mpr (.inl (List.mem_singleton.mp h)))
      · exact .inl h
    · exact .inr (List.mem_cons_of_mem n' h)

/-- The log has become the other one by notes that ring no bell. -/
def Gains (l l' : Log) : Prop :=
  ∃ ns : List Note, (∀ n ∈ ns, Silent n.text) ∧ l' = l.addAll ns

namespace Gains

theorem of_adds {f : Log → Log} (h : Adds f) (l : Log) : l.Gains (f l) := by
  obtain ⟨ns, hns, hf⟩ := h
  exact ⟨ns, hns, hf l⟩

theorem trans {l₁ l₂ : Log} (h : l.Gains l₁) (h' : l₁.Gains l₂) : l.Gains l₂ := by
  obtain ⟨ns, hns, rfl⟩ := h
  obtain ⟨ns', hns', rfl⟩ := h'
  exact ⟨ns ++ ns', List.forall_mem_append.mpr ⟨hns, hns'⟩, (l.addAll_append ns ns').symm⟩

theorem note {n : Note} (h : Silent n.text) (l : Log) : l.Gains (l.add n) :=
  ⟨[n], List.forall_mem_singleton.mpr h, rfl⟩

theorem verbosity (h : l.Gains l') : l'.verbosity = l.verbosity := by
  obtain ⟨ns, _, rfl⟩ := h
  exact l.verbosity_addAll ns

/-- A log that was empty rings no bell. -/
theorem silent {verbosity : Option Level} (h : (upTo verbosity).Gains l) :
    ∀ n ∈ l.notes.toList, Silent n.text := by
  obtain ⟨ns, hns, rfl⟩ := h
  intro n hn
  exact hns n ((mem_notes_addAll hn).resolve_left List.not_mem_nil)

end Gains

end Log

/-- The text that comes with an event. -/
def Event.quoted? : Event → Option String
  | programUnavailable reason => some reason
  | _ => none

namespace Machine

open Log (Adds)

theorem silent_of_step {m : Machine} {fault : Fault} (h : m.step = .error fault) :
    Silent fault.message := by
  refine Fault.silent_message fun reason hr => ?_
  subst hr
  unfold step at h
  split at h
  next i _ =>
    have he := Fault.error_of_map h
    cases i with
    | call a => obtain ⟨_, hf⟩ := Registers.push_eq_error_iff.mp (Fault.error_of_map he); cases hf
    | ret => obtain ⟨_, hf⟩ := Registers.pop_eq_error_iff.mp (Fault.error_of_map he); cases hf
    | _ => cases he
  next => split at h <;> cases h

theorem silent_of_load {memory : Memory} {start : UInt16} {program : List UInt8} {fault : Fault}
    (h : memory.load start program = .error fault) : Silent fault.message := by
  refine Fault.silent_message fun reason hr => ?_
  subst hr
  unfold Memory.load at h
  split at h <;> cases h

theorem adds_narrateStep (m : Machine) : Adds m.narrateStep := by
  have hfetch : Adds (·.add
      (.instructionFetched m.fetched m.state.registers.v.toList m.state.registers.i
        m.state.registers.pc)) := .note (Note.silent_of_quoted? rfl)
  have hmore : ∀ n : Note, n.quoted? = none → Adds fun log => (log.add
      (.instructionFetched m.fetched m.state.registers.v.toList m.state.registers.i
        m.state.registers.pc)).add n := by
    exact fun n hn => hfetch.comp (.note (Note.silent_of_quoted? hn))
  unfold narrateStep
  cases Instruction.decode? m.fetched with
  | none =>
    cases m.configuration.unknownOpcode with
    | skip => exact hmore _ rfl
    | halt => exact hfetch
  | some i =>
    cases i with
    | routine a => exact hmore _ rfl
    | _ => exact hfetch

theorem adds_narrateBatch (before : Timers) (n : Nat) (m : Machine) :
    Adds (narrateBatch before n m) := by
  have hstarts : ∀ m : Machine, Adds (·.addAll ((m.startedTimers before).map .timerStarting)) := by
    refine fun m => .all fun n hn => ?_
    obtain ⟨t, _, rfl⟩ := List.mem_map.mp hn
    exact Note.silent_of_quoted? rfl
  induction n generalizing m with
  | zero => exact hstarts m
  | succ n ih =>
    by_cases hr : m.mode = .running
    · cases hs : m.step with
      | ok m' =>
        exact (m.adds_narrateStep.comp (ih m')).congr fun l => by rw [narrateBatch, if_pos hr, hs]
      | error fault =>
        refine (m.adds_narrateStep.comp (.note (Note.silent_text ?_))).congr fun l => by
          rw [narrateBatch, if_pos hr, hs]
        rintro _ ⟨⟩
        exact silent_of_step hs
    · exact (hstarts m).congr fun l => by rw [narrateBatch, if_neg hr]

theorem adds_narrateTimerTick (t : Timer) (epoch : UInt32) (m : Machine) :
    Adds (m.narrateTimerTick t epoch) := by
  unfold narrateTimerTick
  split
  · split
    · exact .note (Note.silent_of_quoted? rfl)
    · exact .nothing
  · exact .note (Note.silent_of_quoted? rfl)

theorem adds_narrateLoad (program : List UInt8) : Adds (narrateLoad program) := by
  unfold narrateLoad
  split
  next => exact .note (Note.silent_of_quoted? rfl)
  next fault h =>
    refine .note (Note.silent_text ?_)
    rintro _ ⟨⟩
    exact silent_of_load h

theorem adds_narrate (m : Machine) {e : Event} (h : ∀ s, e.quoted? = some s → Silent s) :
    Adds (m.narrate e) := by
  refine .unlessNone ?_
  cases e with
  | cpuTick =>
    change Adds (m.narrateTick _)
    unfold narrateTick
    split
    · exact adds_narrateBatch ..
    · exact .nothing
  | timerTick t epoch => exact m.adds_narrateTimerTick t epoch
  | keyDown key =>
    change Adds (m.narrateKeyDown _)
    unfold narrateKeyDown
    split
    · exact .note (Note.silent_of_quoted? rfl)
    · exact .nothing
  | keyUp key => exact .nothing
  | programLoaded program => exact adds_narrateLoad program
  | programUnavailable reason =>
    refine .note (Note.silent_text ?_)
    rintro _ ⟨⟩
    exact h reason rfl

theorem adds_narrate_of_quoted? (m : Machine) {e : Event} (h : e.quoted? = none) :
    Adds (m.narrate e) :=
  m.adds_narrate fun s hs => by
    rw [h] at hs
    cases hs

end Machine
end Chip8
