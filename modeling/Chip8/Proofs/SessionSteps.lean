import Chip8.Session
import Chip8.Proofs.Effects

/-! # Steps of a session

What a session does between two points that it reaches is a function of the session at the first of
them. Frontends only decide how far a session gets. -/
namespace Chip8

namespace SessionM

variable {α β : Type}

theorem bind_of_ok {x : SessionM α} {s s₁ : Session} {a : α} (h : x s = .ok a s₁)
    (k : α → SessionM β) : (x >>= k) s = k a s₁ := by
  change EStateM.bind x k s = _
  rw [EStateM.bind, h]

theorem bind_of_error {x : SessionM α} {s s₁ : Session} {exit : Exit} (h : x s = .error exit s₁)
    (k : α → SessionM β) : (x >>= k) s = .error exit s₁ := by
  change EStateM.bind x k s = _
  rw [EStateM.bind, h]

/-- What follows a step is only reached if the step is. -/
theorem ok_of_bind {x : SessionM α} {k : α → SessionM β} {s s' : Session} {b : β}
    (h : (x >>= k) s = .ok b s') : ∃ a s₁, x s = .ok a s₁ ∧ k a s₁ = .ok b s' := by
  change EStateM.bind x k s = _ at h
  unfold EStateM.bind at h
  split at h
  next a s₁ hx => exact ⟨a, s₁, hx, h⟩
  next => cases h

theorem get_eq (s : Session) : (get : SessionM Session) s = .ok s s := rfl

theorem modify_eq (g : Session → Session) (s : Session) :
    (modify g : SessionM Unit) s = .ok () (g s) := rfl

theorem modifyGet_eq (g : Session → α × Session) (s : Session) :
    (modifyGet g : SessionM α) s = .ok (g s).1 (g s).2 := rfl

end SessionM

namespace Session

open SessionM

/-- The effect carried out at time `now`. -/
def performed (now : Nat) (s : Session) : Effect → Session
  | .render frame => s.rendered frame
  | .playSound => s.called .beep
  | .schedule t epoch after => s.scheduled (now + after) t epoch

def carriedOut (now : Nat) (es : List Effect) (s : Session) : Session := es.foldl (performed now) s

theorem perform_render (f : Frontend) (now : Nat) (frame : Screen) (s : Session) :
    perform f now (.render frame) s =
      match f.renderFault (s.renders + 1) with
      | none => .ok () (s.rendered frame)
      | some reason => .error (.renderFailed reason) (s.rendered frame) := by
  have hr : (s.rendered frame).renders = s.renders + 1 := rfl
  rw [perform, bind_of_ok (modify_eq _ s), bind_of_ok (get_eq _), hr]
  cases f.renderFault (s.renders + 1) <;> rfl

theorem performed_of_ok {f : Frontend} {now : Nat} {e : Effect} {s s' : Session}
    (h : perform f now e s = .ok () s') : s' = s.performed now e := by
  cases e with
  | render frame =>
    rw [perform_render] at h
    split at h
    · cases h
      rfl
    · cases h
  | playSound =>
    cases h
    rfl
  | schedule t epoch after =>
    cases h
    rfl

theorem carriedOut_of_ok {f : Frontend} {now : Nat} {es : List Effect} {s s' : Session}
    (h : dispatch f now es s = .ok () s') : s' = s.carriedOut now es := by
  induction es generalizing s with
  | nil =>
    cases h
    rfl
  | cons e es ih =>
    obtain ⟨_, s₁, he, hs⟩ := ok_of_bind h
    have h₁ := performed_of_ok he
    subst h₁
    exact ih hs

/-- Only frames can fail to be shown. -/
theorem dispatch_of_frames {es : List Effect} (h : frames es = []) (f : Frontend) (now : Nat)
    (s : Session) : dispatch f now es s = .ok () (s.carriedOut now es) := by
  induction es generalizing s with
  | nil => rfl
  | cons e es ih =>
    cases e with
    | render frame => cases h
    | playSound => exact ih h _
    | schedule t epoch after => exact ih h _

theorem dispatch_of_renderFault {f : Frontend} (h : ∀ n, f.renderFault n = none) (now : Nat)
    (es : List Effect) (s : Session) : dispatch f now es s = .ok () (s.carriedOut now es) := by
  induction es generalizing s with
  | nil => rfl
  | cons e es ih =>
    have he : perform f now e s = .ok () (s.performed now e) := by
      cases e with
      | render frame => rw [perform_render, h, performed]
      | playSound => rfl
      | schedule t epoch after => rfl
    exact (bind_of_ok he _).trans (ih _)

theorem dispatch_of_shown {f : Frontend} {es : List Effect} {s : Session} (h : frames es = [])
    (shown : f.renderFault (s.renders + 1) = none) (now : Nat) (frame : Screen) :
    dispatch f now (.render frame :: es) s = .ok () (s.carriedOut now (.render frame :: es)) := by
  have hp : perform f now (.render frame) s = .ok () (s.rendered frame) := by
    rw [perform_render, shown]
  exact (bind_of_ok hp _).trans (dispatch_of_frames h ..)

theorem dispatch_of_fault {f : Frontend} {reason : String} {s : Session}
    (fails : f.renderFault (s.renders + 1) = some reason) (now : Nat) (frame : Screen)
    (es : List Effect) :
    dispatch f now (.render frame :: es) s = .error (.renderFailed reason) (s.rendered frame) := by
  have hp : perform f now (.render frame) s = .error (.renderFailed reason) (s.rendered frame) := by
    rw [perform_render, fails]
  exact bind_of_error hp _

theorem deliver_of_ok {e : Event} {s : Session} {es : List Effect}
    (h : (s.machine.handle e).2 = .ok es) : deliver e s = .ok es (s.handled e).1 := by
  obtain ⟨s₁, hs⟩ : ∃ s₁, s.handled e = (s₁, .ok es) := ⟨_, Prod.ext rfl h⟩
  rw [deliver, bind_of_ok (modifyGet_eq _ s), hs]
  rfl

theorem deliver_of_error {e : Event} {s : Session} {fault : Fault}
    (h : (s.machine.handle e).2 = .error fault) :
    deliver e s = .error (.halted fault) (s.handled e).1 := by
  obtain ⟨s₁, hs⟩ : ∃ s₁, s.handled e = (s₁, .error fault) := ⟨_, Prod.ext rfl h⟩
  rw [deliver, bind_of_ok (modifyGet_eq _ s), hs]
  rfl

theorem ok_of_deliver {e : Event} {s s' : Session} {es : List Effect}
    (h : deliver e s = .ok es s') : (s.machine.handle e).2 = .ok es ∧ s' = (s.handled e).1 := by
  obtain ⟨response, s₁, hm, h⟩ := ok_of_bind h
  cases hm
  cases hr : (s.machine.handle e).2 with
  | error fault =>
    rw [hr] at h
    cases h
  | ok effects =>
    rw [hr] at h
    cases h
    exact ⟨rfl, rfl⟩

theorem answer_of_ok {f : Frontend} {e : Event} {s : Session} {es : List Effect}
    (h : (s.machine.handle e).2 = .ok es) :
    answer f e s = dispatch f s.clock es (s.handled e).1 :=
  bind_of_ok (deliver_of_ok h) _

theorem ok_of_answer {f : Frontend} {e : Event} {s s' : Session} (h : answer f e s = .ok () s') :
    ∃ es, (s.machine.handle e).2 = .ok es ∧ s' = (s.handled e).1.carriedOut s.clock es := by
  obtain ⟨es, s₁, hd, h⟩ := ok_of_bind h
  obtain ⟨he, rfl⟩ := ok_of_deliver hd
  exact ⟨es, he, carriedOut_of_ok h⟩

theorem ok_of_compute {f : Frontend} {p : Pace} {s s' : Session} (h : compute f p s = .ok () s') :
    ∃ es, (s.machine.handle .cpuTick).2 = .ok es ∧
      s' = ((s.handled .cpuTick).1.carriedOut s.clock es).cycled p.cycleTime := by
  obtain ⟨_, s₁, ha, h⟩ := ok_of_bind h
  obtain ⟨es, he, rfl⟩ := ok_of_answer ha
  cases h
  exact ⟨es, he, rfl⟩

theorem ok_of_checkLimit {p : Pace} {s s' : Session} (h : checkLimit p s = .ok () s') : s' = s := by
  obtain ⟨_, s₁, hg, h⟩ := ok_of_bind h
  cases hg
  split at h
  · cases h
  · cases h
    rfl

/-- How often the frontend has been asked to beep. -/
def beeps (s : Session) : Nat := s.calls.count .beep

theorem calls_called (c : Call) (s : Session) : (s.called c).calls = s.calls ++ [c] := by
  simp [calls, called]

theorem calls_rendered (frame : Screen) (s : Session) :
    (s.rendered frame).calls = s.calls ++ [.render frame] := by
  simp [calls, rendered]

theorem calls_polled (s : Session) : s.polled.calls = s.calls ++ [.poll] := by
  simp [calls, polled]

theorem calls_handled (e : Event) (s : Session) : (s.handled e).1.calls = s.calls := by
  simp [calls, handled]

/-- Effects are carried out on the agenda and the frontend alone. -/
theorem carriedOut_frame (now : Nat) (es : List Effect) (s : Session) :
    ∃ agenda renders trace, s.carriedOut now es = { s with agenda, renders, trace } := by
  induction es generalizing s with
  | nil => exact ⟨_, _, _, rfl⟩
  | cons e es ih =>
    obtain ⟨agenda, renders, trace, h⟩ := ih (s.performed now e)
    refine ⟨agenda, renders, trace, h.trans ?_⟩
    cases e <;> rfl

theorem machine_carriedOut (now : Nat) (es : List Effect) (s : Session) :
    (s.carriedOut now es).machine = s.machine := by
  obtain ⟨_, _, _, h⟩ := carriedOut_frame now es s
  rw [h]

theorem clock_carriedOut (now : Nat) (es : List Effect) (s : Session) :
    (s.carriedOut now es).clock = s.clock := by
  obtain ⟨_, _, _, h⟩ := carriedOut_frame now es s
  rw [h]

theorem cycles_carriedOut (now : Nat) (es : List Effect) (s : Session) :
    (s.carriedOut now es).cycles = s.cycles := by
  obtain ⟨_, _, _, h⟩ := carriedOut_frame now es s
  rw [h]

theorem beeps_carriedOut (now : Nat) (es : List Effect) (s : Session) :
    (s.carriedOut now es).beeps = s.beeps + es.count .playSound := by
  induction es generalizing s with
  | nil => rfl
  | cons e es ih =>
    have he : (s.performed now e).beeps = s.beeps + [e].count .playSound := by
      cases e with
      | render frame => simp [performed, beeps, calls_rendered]
      | playSound => simp [performed, beeps, calls_called]
      | schedule => rfl
    have hc : (e :: es).count .playSound = [e].count .playSound + es.count .playSound := by
      rw [← List.count_append]
      rfl
    exact (ih _).trans (by rw [he, hc, Nat.add_assoc])

theorem length_agenda_carriedOut (now : Nat) (es : List Effect) (s : Session) :
    (s.carriedOut now es).agenda.length = s.agenda.length + (schedulings es).length := by
  induction es generalizing s with
  | nil => rfl
  | cons e es ih =>
    cases e with
    | render => exact ih _
    | playSound => exact ih _
    | schedule t epoch after =>
      have he : (s.performed now (.schedule t epoch after)).agenda.length = s.agenda.length + 1 :=
        Agenda.length_schedule _ _
      have hs : (schedulings (.schedule t epoch after :: es)).length = (schedulings es).length + 1 :=
        rfl
      exact (ih _).trans (by rw [he, hs, Nat.add_assoc, Nat.add_comm 1])

end Session
end Chip8
