import Chip8.Proofs.Closing
import Chip8.Proofs.Families
import Chip8.Proofs.Reachability
import Chip8.Proofs.WholeRuns

/-! # Tallies

The events of a run that can be told from outside are those that lower the sound timer, those that
paint on the screen and those that fail. The frontend beeps once for each of the first kind and
shows a frame for each of the second. -/
namespace Chip8

namespace Opcode

/-- Whether the word clears the screen or draws on it. -/
def paints (w : Opcode) : Bool := w = 0x00E0 ∨ (family w).val = 0xD

theorem draws_meaning (w : Opcode) : (meaning w).draws = paints w := by
  by_cases hd : (family w).val = 0xD
  · rw [meaning_of_family_draw hd, paints, decide_eq_true (.inr hd)]
    rfl
  by_cases hc : w = 0x00E0
  · rw [meaning_eq_clear_iff.mpr hc, paints, decide_eq_true (.inl hc)]
    rfl
  have hp : paints w = false := decide_eq_false (not_or.mpr ⟨hc, hd⟩)
  rw [hp]
  cases hm : meaning w with
  | clear => exact absurd (meaning_eq_clear_iff.mp hm) hc
  | draw => exact absurd (family_of_meaning hm (by simp)) hd
  | _ => rfl

end Opcode

namespace Call

end Call

/-- The number of calls of one kind. -/
def callCount (c : Call → Bool) (os : List Occurrence) : Nat :=
  (os.filterMap Occurrence.call?).countP c

theorem callCount_append (c : Call → Bool) (os os' : List Occurrence) :
    callCount c (os ++ os') = callCount c os + callCount c os' := by
  rw [callCount, List.filterMap_append, List.countP_append]
  rfl

theorem callCount_events (c : Call → Bool) (es : List Event) :
    callCount c (es.map .event) = 0 := by
  induction es with
  | nil => rfl
  | cons e es ih => exact ih

namespace Machine

/-- The event is a batch that succeeds and in which a word clears the screen or draws on it. -/
def paints (m : Machine) : Event → Bool
  | .cpuTick =>
    (m.handle .cpuTick).2.isOk && (m.executed (.event .cpuTick)).any Opcode.paints
  | _ => false

/-- The event is a batch that fails. -/
def stumbles (m : Machine) : Event → Bool
  | .cpuTick => !(m.handle .cpuTick).2.isOk
  | _ => false

/-- How many of the events are of a kind, each judged by the machine that handles it. -/
def tally (P : Machine → Event → Bool) (m : Machine) : List Occurrence → Nat
  | [] => 0
  | .call _ :: os => m.tally P os
  | .event e :: os => (P m e).toNat + (m.handle e).1.tally P os

variable {P : Machine → Event → Bool} {m m' : Machine}

theorem tally_append (P : Machine → Event → Bool) (m : Machine) (os os' : List Occurrence) :
    m.tally P (os ++ os') = m.tally P os + (m.replay os).tally P os' := by
  induction os generalizing m with
  | nil => exact (Nat.zero_add _).symm
  | cons o os ih =>
    cases o with
    | call c => exact ih m
    | event e =>
      rw [List.cons_append, tally, ih, ← Nat.add_assoc]
      rfl

theorem tally_eq_zero {os : List Occurrence} (h : ∀ e, .event e ∈ os → ∀ m, P m e = false)
    (m : Machine) : m.tally P os = 0 := by
  induction os generalizing m with
  | nil => rfl
  | cons o os ih =>
    have ih := ih fun e he => h e (List.mem_cons_of_mem _ he)
    cases o with
    | call c => exact ih m
    | event e =>
      rw [tally, h e List.mem_cons_self, ih]
      rfl

theorem tally_showing (P : Machine → Event → Bool) (m : Machine) (fs : List Screen) :
    m.tally P (fs.map showing) = 0 := by
  refine tally_eq_zero (fun e he => ?_) m
  obtain ⟨_, _, hs⟩ := List.mem_map.mp he
  cases hs

theorem tally_chime (P : Machine → Event → Bool) (m m' : Machine) (t : Timer) (epoch : UInt32) :
    m'.tally P (m.chime t epoch) = 0 := by
  unfold chime
  split <;> rfl

/-- The draw flag is raised by the words that paint. -/
theorem Path.drawFlag {ws : List Opcode} (h : Path m ws m') :
    m'.state.drawFlag = (ws.any Opcode.paints || m.state.drawFlag) := by
  induction h with
  | nil => rfl
  | cons _ hs _ ih =>
    rw [ih, (footprint_of_step hs).drawFlag, Opcode.draws_meaning, List.any_cons, Bool.or_left_comm,
      Bool.or_assoc]

end Machine

/-- The frontend gets one call of the kind `c` for each event of the kind `P`. -/
structure Counts (c : Call → Bool) (P : Machine → Event → Bool) : Prop where
  poll : c .poll = false
  keyDown : ∀ m key, P m (.keyDown key) = false
  keyUp : ∀ m key, P m (.keyUp key) = false
  timerTick : ∀ m t epoch, callCount c (m.chime t epoch) = (P m (.timerTick t epoch)).toNat
  cpuTick : ∀ m es, (m.handle .cpuTick).2 = .ok es →
    callCount c ((frames es).map showing) = (P m .cpuTick).toNat
  fails : ∀ m fault, (m.handle .cpuTick).2 = .error fault → P m .cpuTick = false

section

variable {c : Call → Bool} {P : Machine → Event → Bool} {f : Frontend} {p : Pace} {n : Nat}
  {s s' : Session} {m : Machine} {os : List Occurrence} {exit : Option Exit}

namespace Counts

theorem answered (h : Counts c P) (inputs : List Input) (m : Machine) :
    callCount c (answered inputs) = m.tally P (answered inputs) := by
  have hc : callCount c (Chip8.answered inputs) = 0 := by
    change List.countP c (.poll :: _) = 0
    rw [List.countP_cons_of_neg (by simp [h.poll])]
    exact callCount_events c (keys inputs)
  rw [hc, Machine.tally_eq_zero]
  intro e he m
  obtain ⟨_, hk, he⟩ := List.mem_map.mp ((List.mem_cons.mp he).resolve_left nofun)
  cases he
  obtain ⟨key, rfl | rfl⟩ := eq_of_mem_keys hk
  · exact h.keyDown m key
  · exact h.keyUp m key

theorem phase (h : Counts c P) (phase : TimerPhase m os) : callCount c os = m.tally P os := by
  induction phase with
  | done => rfl
  | @tick m os t epoch _ ih =>
    have hc : callCount c (.event (.timerTick t epoch) :: m.chime t epoch) =
        (P m (.timerTick t epoch)).toNat := h.timerTick m t epoch
    rw [callCount_append, hc, ih, List.cons_append, Machine.tally, Machine.tally_append,
      Machine.tally_chime, Machine.replay_chime, Nat.zero_add]

theorem opening (h : Counts c P) {inputs : List Input} (opening : Opening inputs m os) :
    callCount c os = m.tally P os := by
  obtain ⟨_, phase⟩ := opening
  rw [callCount_append, Machine.tally_append, h.answered, h.phase phase]

theorem turn (h : Counts c P) (turn : Turn f p s os exit) :
    callCount c os = s.machine.tally P os := by
  cases turn with
  | limit => rfl
  | quit => exact h.answered _ _
  | halted _ opening fails =>
    rw [callCount_append, Machine.tally_append, h.opening opening, Machine.tally,
      h.fails _ _ fails]
    rfl
  | @renderFailed os es frame _ _ opening answers shows _ =>
    have hc := h.cpuTick _ _ answers
    rw [shows] at hc
    rw [callCount_append, Machine.tally_append, h.opening opening, Machine.tally, ← hc]
    rfl
  | @completed os es _ opening answers =>
    rw [callCount_append, Machine.tally_append, h.opening opening, Machine.tally,
      Machine.tally_showing, ← h.cpuTick _ _ answers]
    rfl

theorem course (h : Counts c P) (course : Course f p n s os exit s') :
    callCount c os = s.machine.tally P os := by
  induction course with
  | pause => rfl
  | stop turn _ => exact h.turn turn
  | next turn leads _ _ ih =>
    rw [callCount_append, Machine.tally_append, h.turn turn, ih, leads.machine]

end Counts

/-- The number of batches that have failed by the end of a session, which none outlasts. -/
def Exit.failures : Option Exit → Nat
  | some (.halted _) => 1
  | _ => 0

theorem Polling.tally_stumbles (h : Polling os) (m : Machine) :
    m.tally Machine.stumbles os = 0 := by
  obtain ⟨rest, rfl, hr⟩ := h
  refine Machine.tally_eq_zero (fun e he m => ?_) m
  have hm := hr _ ((List.mem_cons.mp he).resolve_left nofun)
  cases e with
  | cpuTick => cases hm
  | _ => rfl

theorem Turn.tally_stumbles (h : Turn f p s os exit) :
    s.machine.tally Machine.stumbles os = Exit.failures exit := by
  cases h with
  | limit => rfl
  | quit => exact (polling_answered _).tally_stumbles _
  | halted _ opening fails =>
    rw [Machine.tally_append, opening.polling.tally_stumbles, Machine.tally, Machine.stumbles,
      fails]
    rfl
  | renderFailed _ opening answers =>
    rw [Machine.tally_append, opening.polling.tally_stumbles, Machine.tally, Machine.stumbles,
      answers]
    rfl
  | completed _ opening answers =>
    rw [Machine.tally_append, opening.polling.tally_stumbles, Machine.tally, Machine.tally_showing,
      Machine.stumbles, answers]
    rfl

theorem Course.tally_stumbles (h : Course f p n s os exit s') :
    s.machine.tally Machine.stumbles os = Exit.failures exit := by
  induction h with
  | pause => rfl
  | stop turn _ => exact turn.tally_stumbles
  | next turn leads _ _ ih =>
    rw [Machine.tally_append, turn.tally_stumbles, ← leads.machine, ih]
    exact Nat.zero_add _

end

end Chip8
