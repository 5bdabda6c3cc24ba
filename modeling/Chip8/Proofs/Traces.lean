import Chip8.Proofs.Draining

/-! # Traces

What a session goes through is a list of occurrences. The machine that they lead to is the one that
has handled the events among them, and the session counts its polls and renderings by them. -/
namespace Chip8

def showing (frame : Screen) : Occurrence := .call (.render frame)

def Occurrence.frame? : Occurrence → Option Screen
  | call (.render frame) => some frame
  | _ => none

/-- The frames shown to the frontend. -/
def shown (os : List Occurrence) : List Screen := os.filterMap Occurrence.frame?

theorem shown_map_showing (fs : List Screen) : shown (fs.map showing) = fs := by
  rw [shown, List.filterMap_map]
  exact List.filterMap_some

theorem count_showing {o : Occurrence} (h : o.frame? = none) (fs : List Screen) :
    (fs.map showing).count o = 0 := by
  apply List.count_eq_zero.mpr
  intro hm
  obtain ⟨frame, _, rfl⟩ := List.mem_map.mp hm
  cases h

def pollCount (os : List Occurrence) : Nat := os.count (.call .poll)

/-- The number of batches of instructions. -/
def batchCount (os : List Occurrence) : Nat := os.count (.event .cpuTick)

theorem shown_append (os os' : List Occurrence) : shown (os ++ os') = shown os ++ shown os' :=
  List.filterMap_append

theorem pollCount_append (os os' : List Occurrence) :
    pollCount (os ++ os') = pollCount os + pollCount os' :=
  List.count_append

theorem batchCount_append (os os' : List Occurrence) :
    batchCount (os ++ os') = batchCount os + batchCount os' :=
  List.count_append

/-- The call to the frontend by which an effect is carried out. -/
def Effect.occurrence? : Effect → Option Occurrence
  | render frame => some (showing frame)
  | playSound => some (.call .beep)
  | schedule .. => none

theorem count_beep (es : List Effect) :
    (es.filterMap Effect.occurrence?).count (.call .beep) = es.count .playSound := by
  induction es with
  | nil => rfl
  | cons e es ih =>
    cases e with
    | render =>
      rw [List.count_cons_of_ne (by nofun)]
      exact (List.count_cons_of_ne (by nofun)).trans ih
    | playSound =>
      rw [List.count_cons_self, ← ih]
      exact List.count_cons_self
    | schedule =>
      rw [List.count_cons_of_ne (by nofun)]
      exact ih

/-- The machine after the events among the occurrences. -/
def Machine.replay (m : Machine) : List Occurrence → Machine
  | [] => m
  | .call _ :: os => m.replay os
  | .event e :: os => (m.handle e).1.replay os

theorem Machine.replay_append (m : Machine) (os os' : List Occurrence) :
    m.replay (os ++ os') = (m.replay os).replay os' := by
  induction os generalizing m with
  | nil => rfl
  | cons o os ih => cases o <;> exact ih _

theorem Machine.replay_showing (m : Machine) (fs : List Screen) :
    m.replay (fs.map showing) = m := by
  induction fs with
  | nil => rfl
  | cons frame fs ih => exact ih

namespace Session

/-- One session has become the other by the occurrences `os`. -/
structure Leads (s : Session) (os : List Occurrence) (s' : Session) : Prop where
  trace : s'.trace.toList = s.trace.toList ++ os
  machine : s'.machine = s.machine.replay os
  polls : s'.polls = s.polls + pollCount os
  renders : s'.renders = s.renders + (shown os).length

namespace Leads

variable {s s₁ s₂ : Session} {os os' : List Occurrence}

theorem refl (s : Session) : s.Leads [] s := ⟨by simp, rfl, rfl, rfl⟩

theorem trans (h : s.Leads os s₁) (h' : s₁.Leads os' s₂) : s.Leads (os ++ os') s₂ where
  trace := by rw [h'.trace, h.trace, List.append_assoc]
  machine := by rw [h'.machine, h.machine, Machine.replay_append]
  polls := by rw [h'.polls, h.polls, pollCount_append, Nat.add_assoc]
  renders := by rw [h'.renders, h.renders, shown_append, List.length_append, Nat.add_assoc]

theorem of_polled (s : Session) : s.Leads [.call .poll] s.polled :=
  ⟨Array.toList_push, rfl, rfl, rfl⟩

theorem of_handled (e : Event) (s : Session) : s.Leads [.event e] (s.handled e).1 :=
  ⟨Array.toList_push, rfl, rfl, rfl⟩

theorem of_rendered (frame : Screen) (s : Session) :
    s.Leads [showing frame] (s.rendered frame) :=
  ⟨Array.toList_push, rfl, rfl, rfl⟩

theorem of_cycled (cycleTime : Nat) (s : Session) : s.Leads [] (s.cycled cycleTime) :=
  ⟨by simp [cycled], rfl, rfl, rfl⟩

theorem of_performed (now : Nat) (e : Effect) (s : Session) :
    s.Leads e.occurrence?.toList (s.performed now e) := by
  cases e with
  | render frame => exact .of_rendered frame s
  | playSound => exact ⟨Array.toList_push, rfl, rfl, rfl⟩
  | schedule t epoch after => exact ⟨by simp [performed, scheduled, Effect.occurrence?], rfl, rfl, rfl⟩

theorem of_carriedOut (now : Nat) (es : List Effect) (s : Session) :
    s.Leads (es.filterMap Effect.occurrence?) (s.carriedOut now es) := by
  induction es generalizing s with
  | nil => exact .refl s
  | cons e es ih =>
    have h := (of_performed now e s).trans (ih (s.performed now e))
    cases e <;> exact h

theorem of_fired (s : Session) (k : PendingTick) (agenda : Agenda) :
    s.Leads (.event (.timerTick k.timer k.epoch) ::
      (s.machine.timerTick k.timer k.epoch).2.filterMap Effect.occurrence?) (s.fired k agenda) := by
  have h : s.Leads [] { s with agenda } := ⟨by simp, rfl, rfl, rfl⟩
  exact (h.trans (of_handled _ _)).trans (of_carriedOut ..)

end Leads

/-- The step `x` makes `s` into `s'` by the occurrences `os`, and may end the session there. -/
structure Runs (x : SessionM Unit) (s : Session) (os : List Occurrence) (exit : Option Exit)
    (s' : Session) : Prop where
  result : x s = exit.elim (.ok () s') (.error · s')
  leads : s.Leads os s'

namespace Runs

variable {x y : SessionM Unit} {s s₁ s₂ : Session} {os os' : List Occurrence}
  {exit : Option Exit}

theorem bind (h : Runs x s os none s₁) (h' : Runs y s₁ os' exit s₂) :
    Runs (x >>= fun _ => y) s (os ++ os') exit s₂ :=
  ⟨(SessionM.bind_of_ok h.result _).trans h'.result, h.leads.trans h'.leads⟩

theorem stop {e : Exit} (h : Runs x s os (some e) s₁) (k : Unit → SessionM Unit) :
    Runs (x >>= k) s os (some e) s₁ :=
  ⟨SessionM.bind_of_error h.result k, h.leads⟩

end Runs

end Session
end Chip8
