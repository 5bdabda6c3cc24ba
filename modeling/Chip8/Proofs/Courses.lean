import Chip8.Proofs.Cycles
import Chip8.Proofs.Turns

/-! # Courses

A session carries out the effects that it is given and then takes one turn after another. When it
has ended, its display is handed over unless a frame has failed. -/
namespace Chip8

/-- Effects carried out one by one after `n` renderings, up to a frame that is not shown. -/
inductive Outset (f : Frontend) : Nat → List Effect → List Occurrence → Option Exit → Prop
  | done (n : Nat) : Outset f n [] [] none
  | render {n : Nat} {frame : Screen} {es : List Effect} {os : List Occurrence} {exit : Option Exit}
      (shows : f.renderFault (n + 1) = none) (rest : Outset f (n + 1) es os exit) :
      Outset f n (.render frame :: es) (showing frame :: os) exit
  | renderFailed {n : Nat} {frame : Screen} {es : List Effect} {reason : String}
      (fails : f.renderFault (n + 1) = some reason) :
      Outset f n (.render frame :: es) [showing frame] (some (.renderFailed reason))
  | beep {n : Nat} {es : List Effect} {os : List Occurrence} {exit : Option Exit}
      (rest : Outset f n es os exit) : Outset f n (.playSound :: es) (.call .beep :: os) exit
  | scheduled {n : Nat} {t : Timer} {epoch : UInt32} {after : Nat} {es : List Effect}
      {os : List Occurrence} {exit : Option Exit} (rest : Outset f n es os exit) :
      Outset f n (.schedule t epoch after :: es) os exit

/-- At most `n` turns one after another, and all of them if there is no exit. -/
inductive Course (f : Frontend) (p : Pace) :
    Nat → Session → List Occurrence → Option Exit → Session → Prop
  | pause (s : Session) : Course f p 0 s [] none s
  | stop {n : Nat} {s s' : Session} {os : List Occurrence} {exit : Exit}
      (turn : Turn f p s os (some exit)) (leads : s.Leads os s') :
      Course f p (n + 1) s os (some exit) s'
  | next {n : Nat} {s s₁ s' : Session} {os os' : List Occurrence} {exit : Option Exit}
      (turn : Turn f p s os none) (leads : s.Leads os s₁) (cycles : s₁.cycles = s.cycles + 1)
      (rest : Course f p n s₁ os' exit s') : Course f p (n + 1) s (os ++ os') exit s'

/-- What a session goes through from its start on. -/
inductive Play (f : Frontend) (p : Pace) (n : Nat) (es : List Effect) (s : Session) :
    List Occurrence → Option Exit → Session → Prop
  | stop {s' : Session} {os : List Occurrence} {exit : Exit}
      (outset : Outset f s.renders es os (some exit)) (leads : s.Leads os s') :
      Play f p n es s os (some exit) s'
  | go {s' : Session} {os os' : List Occurrence} {exit : Option Exit}
      (outset : Outset f s.renders es os none) (leads : s.Leads os (s.carriedOut s.clock es))
      (course : Course f p n (s.carriedOut s.clock es) os' exit s') :
      Play f p n es s (os ++ os') exit s'

/-- Why a session that has gone through `os` comes to an exit. -/
def Exit.Cause (f : Frontend) (p : Pace) (s : Session) (os : List Occurrence) : Exit → Prop
  | limit => p.Reached (s.cycles + pollCount os)
  | quit => .quit ∈ f.inputs (s.polls + pollCount os)
  | halted fault => ∃ os', os = os' ++ [.event .cpuTick] ∧
      ((s.machine.replay os').handle .cpuTick).2 = .error fault
  | renderFailed reason => ∃ os' frame, os = os' ++ [showing frame] ∧
      f.renderFault (s.renders + (shown os).length) = some reason

/-- The call made after the end of a session, with the display that it has then. -/
def Exit.closing (frame : Screen) : Exit → List Occurrence
  | renderFailed _ => []
  | limit | quit | halted _ => [.call (.finish frame)]

section

variable {f : Frontend} {p : Pace} {n : Nat} {es : List Effect} {s s₁ s' : Session}
  {os os' : List Occurrence} {exit : Exit}

theorem Exit.Cause.prepend (leads : s.Leads os s₁) (cycles : s₁.cycles = s.cycles + pollCount os)
    (h : exit.Cause f p s₁ os') : exit.Cause f p s (os ++ os') := by
  cases exit with
  | limit =>
    unfold Cause at h ⊢
    rwa [cycles, Nat.add_assoc, ← pollCount_append] at h
  | quit =>
    unfold Cause at h ⊢
    rwa [leads.polls, Nat.add_assoc, ← pollCount_append] at h
  | halted fault =>
    obtain ⟨pre, rfl, fails⟩ := h
    rw [leads.machine, ← Machine.replay_append] at fails
    exact ⟨os ++ pre, (List.append_assoc ..).symm, fails⟩
  | renderFailed reason =>
    obtain ⟨pre, frame, rfl, fails⟩ := h
    rw [leads.renders, Nat.add_assoc, ← List.length_append, ← shown_append] at fails
    exact ⟨os ++ pre, frame, (List.append_assoc ..).symm, fails⟩

theorem Turn.cause (h : Turn f p s os (some exit)) : exit.Cause f p s os := by
  cases h with
  | limit reached => exact reached
  | quit _ quits =>
    unfold Exit.Cause
    rwa [(polling_answered _).pollCount_eq]
  | halted _ _ fails => exact ⟨_, rfl, fails⟩
  | @renderFailed os _ frame reason _ opening _ _ fails =>
    refine ⟨os ++ [.event .cpuTick], frame, by simp, ?_⟩
    have hs : shown [.event .cpuTick, showing frame] = [frame] := rfl
    rw [shown_append, opening.polling.shown_eq, hs]
    exact fails

namespace Outset

variable {r : Nat} {exit : Option Exit}

theorem pollCount_eq (h : Outset f r es os exit) : pollCount os = 0 := by
  induction h with
  | done => rfl
  | render _ _ ih =>
    rw [pollCount, List.count_cons_of_ne (by simp [showing])]
    exact ih
  | renderFailed => rfl
  | beep _ ih =>
    rw [pollCount, List.count_cons_of_ne (by simp)]
    exact ih
  | scheduled _ ih => exact ih

/-- Only the last frame can fail to be shown. -/
theorem eq_of_some (h : Outset f r es os exit) {e : Exit} (he : exit = some e) :
    ∃ reason os' frame, e = .renderFailed reason ∧ os = os' ++ [showing frame] ∧
      f.renderFault (r + (Chip8.shown os).length) = some reason := by
  induction h with
  | done => cases he
  | @render r frame _ os _ shows _ ih =>
    obtain ⟨reason, os', last, rfl, rfl, fails⟩ := ih he
    refine ⟨reason, showing frame :: os', last, rfl, rfl, ?_⟩
    rw [Nat.add_right_comm] at fails
    exact fails
  | @renderFailed r frame _ reason fails =>
    cases he
    exact ⟨reason, [], frame, rfl, rfl, fails⟩
  | @beep _ _ os _ _ ih =>
    obtain ⟨reason, os', last, rfl, rfl, fails⟩ := ih he
    exact ⟨reason, .call .beep :: os', last, rfl, rfl, fails⟩
  | scheduled _ ih => exact ih he

end Outset

theorem Course.leads {exit : Option Exit} (h : Course f p n s os exit s') : s.Leads os s' := by
  induction h with
  | pause s => exact .refl s
  | stop _ leads => exact leads
  | next _ leads _ _ ih => exact leads.trans ih

theorem Course.cause {exit : Option Exit} (h : Course f p n s os exit s') :
    ∀ e, exit = some e → e.Cause f p s os := by
  induction h with
  | pause => nofun
  | stop turn _ =>
    rintro e ⟨⟩
    exact turn.cause
  | next turn leads cycles _ ih =>
    intro e he
    refine (ih e he).prepend leads ?_
    rw [cycles, turn.pollCount_eq, if_neg nofun]

theorem Play.cause {e : Exit} (h : Play f p n es s os (some e) s') : e.Cause f p s os := by
  cases h with
  | stop outset _ =>
    obtain ⟨reason, os', frame, rfl, rfl, fails⟩ := outset.eq_of_some rfl
    exact ⟨os', frame, rfl, fails⟩
  | go outset leads course =>
    refine (course.cause e rfl).prepend leads ?_
    rw [Session.cycles_carriedOut, outset.pollCount_eq, Nat.add_zero]

end

namespace Session

open SessionM

theorem runs_dispatch (f : Frontend) (now : Nat) (es : List Effect) (s : Session) :
    ∃ os exit s', Outset f s.renders es os exit ∧ Runs (dispatch f now es) s os exit s' := by
  induction es generalizing s with
  | nil => exact ⟨[], none, s, .done _, ⟨rfl, .refl s⟩⟩
  | cons e es ih =>
    obtain ⟨os, exit, s', outset, runs⟩ := ih (s.performed now e)
    have hl := Leads.of_performed now e s
    cases e with
    | render frame =>
      cases hf : f.renderFault (s.renders + 1) with
      | none =>
        have hp : perform f now (.render frame) s = .ok () (s.rendered frame) := by
          rw [perform_render, hf]
        have hr : Runs (perform f now (.render frame)) s [showing frame] none (s.rendered frame) :=
          ⟨hp, hl⟩
        exact ⟨_, _, _, .render hf outset, hr.bind runs⟩
      | some reason => exact ⟨_, _, _, .renderFailed hf, ⟨dispatch_of_fault hf .., hl⟩⟩
    | playSound =>
      have hr : Runs (perform f now .playSound) s [.call .beep] none (s.called .beep) := ⟨rfl, hl⟩
      exact ⟨_, _, _, .beep outset, hr.bind runs⟩
    | schedule t epoch after =>
      have hr : Runs (perform f now (.schedule t epoch after)) s [] none
          (s.scheduled (now + after) t epoch) := ⟨rfl, hl⟩
      exact ⟨_, _, _, .scheduled outset, hr.bind runs⟩

theorem runs_repeatCycle (f : Frontend) (p : Pace) (n : Nat) (s : Session) :
    ∃ os exit s', Course f p n s os exit s' ∧ Runs (repeatCycle f p n) s os exit s' := by
  induction n generalizing s with
  | zero => exact ⟨[], none, s, .pause s, ⟨rfl, .refl s⟩⟩
  | succ n ih =>
    obtain ⟨os, exit, s₁, turn, runs, hc⟩ := runs_cycle f p s
    cases exit with
    | some exit => exact ⟨_, _, _, .stop turn runs.leads, runs.stop _⟩
    | none =>
      obtain ⟨os', exit, s', course, runs'⟩ := ih s₁
      exact ⟨_, _, _, .next turn runs.leads (hc rfl) course, runs.bind runs'⟩

theorem runs_play (f : Frontend) (p : Pace) (n : Nat) (es : List Effect) (s : Session) :
    ∃ os exit s', Play f p n es s os exit s' ∧ Runs (play f p n es) s os exit s' := by
  obtain ⟨os, exit, s₁, outset, runs⟩ := runs_dispatch f s.clock es s
  have hp := play_eq f p n es s
  cases exit with
  | some exit =>
    have hr := runs.stop fun _ => repeatCycle f p n
    exact ⟨_, _, _, .stop outset runs.leads, hp.trans hr.result, hr.leads⟩
  | none =>
    cases carriedOut_of_ok runs.result
    obtain ⟨os', exit, s', course, runs'⟩ := runs_repeatCycle f p n (s.carriedOut s.clock es)
    have hr := runs.bind runs'
    exact ⟨_, _, _, .go outset runs.leads course, hp.trans hr.result, hr.leads⟩

/-- At the end there is at most one more call, and it is handed the display. -/
theorem leads_close (exit : Exit) (s : Session) :
    s.Leads (exit.closing s.machine.state.screen) (s.close exit) := by
  cases exit with
  | renderFailed reason => exact .refl s
  | limit => exact ⟨Array.toList_push, rfl, rfl, rfl⟩
  | quit => exact ⟨Array.toList_push, rfl, rfl, rfl⟩
  | halted fault => exact ⟨Array.toList_push, rfl, rfl, rfl⟩

variable {f : Frontend} {p : Pace} {n : Nat} {es : List Effect} {s : Session}

/-- An outcome is the end of a play that has come to an exit. -/
theorem play_of_runFor {o : Outcome} (h : runFor f p n es s = some o) :
    ∃ os s', Play f p n es s os (some o.exit) s' ∧ s.Leads os s' ∧ o.session = s'.close o.exit := by
  obtain ⟨os, exit, s', played, runs⟩ := runs_play f p n es s
  rw [runFor, runs.result] at h
  cases exit with
  | none => cases h
  | some exit =>
    cases h
    exact ⟨os, s', played, runs.leads, rfl⟩

theorem play_of_ok {s' : Session} (h : play f p n es s = .ok () s') :
    ∃ os, Play f p n es s os none s' ∧ s.Leads os s' := by
  obtain ⟨os, exit, s₁, played, runs⟩ := runs_play f p n es s
  cases exit with
  | none =>
    cases runs.result.symm.trans h
    exact ⟨os, played, runs.leads⟩
  | some exit => cases runs.result.symm.trans h

end Session

/-- A run that has just loaded a program shows the blank screen and takes its turns if it can. -/
theorem Run.Fresh.play_cases {r : Run} {n : Nat} {s : Session} {os : List Occurrence}
    {exit : Option Exit} (h : r.Fresh)
    (hp : Play r.frontend r.pace n r.effects r.session os exit s) :
    ∃ cs, os = showing .blank :: cs ∧
      ((∃ reason, r.frontend.renderFault (r.session.renders + 1) = some reason ∧ cs = [] ∧
          exit = some (.renderFailed reason)) ∨
        r.frontend.renderFault (r.session.renders + 1) = none ∧
          Course r.frontend r.pace n (r.session.rendered .blank) cs exit s) := by
  have he := h.booted.1
  cases hp with
  | stop outset _ =>
    rw [he] at outset
    cases outset with
    | render shows rest => cases rest
    | renderFailed fails => exact ⟨[], rfl, .inl ⟨_, fails, rfl, rfl⟩⟩
  | go outset _ course =>
    rw [he] at outset course
    cases outset with
    | render shows rest =>
      cases rest
      exact ⟨_, rfl, .inr ⟨shows, course⟩⟩

end Chip8
