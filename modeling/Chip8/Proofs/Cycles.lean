import Chip8.Launch
import Chip8.Proofs.Draining
import Chip8.Proofs.Loading

/-! # Cycles of a run

The points that a run passes in every cycle: its beginning, the end of its polling, and the moment
right before its instructions. -/
namespace Chip8

namespace Session

open SessionM

/-- Nothing has happened that timers depend on. -/
structure Calm (s s' : Session) : Prop where
  timers : s'.machine.state.timers = s.machine.state.timers
  epoch : s'.machine.epoch = s.machine.epoch
  agenda : s'.agenda = s.agenda
  clock : s'.clock = s.clock
  beeps : s'.beeps = s.beeps

namespace Calm

theorem refl (s : Session) : s.Calm s := ⟨rfl, rfl, rfl, rfl, rfl⟩

theorem trans {s s₁ s₂ : Session} (h₁ : s.Calm s₁) (h₂ : s₁.Calm s₂) : s.Calm s₂ where
  timers := h₂.timers.trans h₁.timers
  epoch := h₂.epoch.trans h₁.epoch
  agenda := h₂.agenda.trans h₁.agenda
  clock := h₂.clock.trans h₁.clock
  beeps := h₂.beeps.trans h₁.beeps

theorem of_polled (s : Session) : s.Calm s.polled where
  timers := rfl
  epoch := rfl
  agenda := rfl
  clock := rfl
  beeps := by simp [Session.beeps, calls_polled]

theorem of_keyDown {f : Frontend} {key : UInt8} {s s' : Session}
    (h : answer f (.keyDown key) s = .ok () s') : s.Calm s' := by
  obtain ⟨es, he, rfl⟩ := ok_of_answer h
  cases he
  obtain ⟨_, _, _, hk⟩ := s.machine.keyDown_frame (.ofByte key)
  exact ⟨congrArg (·.state.timers) hk, congrArg (·.epoch) hk, rfl, rfl,
    congrArg (List.count _) (calls_handled ..)⟩

theorem of_keyUp {f : Frontend} {key : UInt8} {s s' : Session}
    (h : answer f (.keyUp key) s = .ok () s') : s.Calm s' := by
  obtain ⟨es, he, rfl⟩ := ok_of_answer h
  cases he
  exact ⟨rfl, rfl, rfl, rfl, congrArg (List.count _) (calls_handled ..)⟩

theorem of_feed {f : Frontend} {inputs : List Input} {s s' : Session}
    (h : feed f inputs s = .ok () s') : s.Calm s' := by
  induction inputs generalizing s with
  | nil =>
    cases h
    exact refl _
  | cons i inputs ih =>
    cases i with
    | quit => cases h
    | keyDown key =>
      obtain ⟨_, s₁, ha, hf⟩ := ok_of_bind h
      exact (of_keyDown ha).trans (ih hf)
    | keyUp key =>
      obtain ⟨_, s₁, ha, hf⟩ := ok_of_bind h
      exact (of_keyUp ha).trans (ih hf)

theorem of_poll {f : Frontend} {s s' : Session} (h : poll f s = .ok () s') : s.Calm s' := by
  obtain ⟨_, s₁, hm, h⟩ := ok_of_bind h
  cases hm
  obtain ⟨_, s₂, hg, hf⟩ := ok_of_bind h
  cases hg
  exact (of_polled s).trans (of_feed hf)

end Calm

theorem compute_of_ok {f : Frontend} (hf : ∀ n, f.renderFault n = none) (p : Pace) {s : Session}
    {es : List Effect} (h : (s.machine.handle .cpuTick).2 = .ok es) :
    compute f p s =
      .ok () (((s.handled .cpuTick).1.carriedOut s.clock es).cycled p.cycleTime) := by
  have ha : answer f .cpuTick s = .ok () ((s.handled .cpuTick).1.carriedOut s.clock es) :=
    (answer_of_ok h).trans (dispatch_of_renderFault hf ..)
  exact bind_of_ok ha _

theorem clock_of_compute {f : Frontend} {p : Pace} {s s' : Session}
    (h : compute f p s = .ok () s') : s'.clock = s.clock + p.cycleTime := by
  obtain ⟨es, _, rfl⟩ := ok_of_compute h
  exact congrArg (· + p.cycleTime) (clock_carriedOut ..)

theorem machine_of_compute {f : Frontend} {p : Pace} {s s' : Session}
    (h : compute f p s = .ok () s') : s'.machine = (s.machine.handle .cpuTick).1 := by
  obtain ⟨es, _, rfl⟩ := ok_of_compute h
  exact machine_carriedOut ..

theorem repeatCycle_add (f : Frontend) (p : Pace) (n k : Nat) :
    repeatCycle f p (n + k) = repeatCycle f p n >>= fun _ => repeatCycle f p k := by
  induction n with
  | zero => rw [Nat.zero_add, repeatCycle, pure_bind]
  | succ n ih =>
    calc repeatCycle f p (n + 1 + k)
        = cycle f p >>= fun _ => repeatCycle f p (n + k) := by rw [Nat.add_right_comm, repeatCycle]
      _ = cycle f p >>= fun _ => repeatCycle f p n >>= fun _ => repeatCycle f p k := by rw [ih]
      _ = repeatCycle f p (n + 1) >>= fun _ => repeatCycle f p k := (bind_assoc ..).symm

theorem play_eq (f : Frontend) (p : Pace) (n : Nat) (es : List Effect) (s : Session) :
    play f p n es s = (dispatch f s.clock es >>= fun _ => repeatCycle f p n) s :=
  bind_of_ok (get_eq s) _

theorem play_add (f : Frontend) (p : Pace) (n k : Nat) (initial : List Effect) :
    play f p (n + k) initial = play f p n initial >>= fun _ => repeatCycle f p k := by
  simp only [play, repeatCycle_add, bind_assoc]

theorem play_succ (f : Frontend) (p : Pace) (n : Nat) (initial : List Effect) :
    play f p (n + 1) initial = play f p n initial >>= fun _ => cycle f p := by
  have h : repeatCycle f p 1 = cycle f p := bind_pure _
  rw [play_add, h]

end Session

/-- A session to be played with the effects that are still to be carried out. -/
structure Run where
  frontend : Frontend
  pace : Pace
  effects : List Effect
  session : Session

namespace Run

open Session SessionM

/-- The run is entered right after its machine has loaded a program. -/
structure Fresh (r : Run) : Prop where
  loaded : ∃ (m : Machine) (program : List UInt8),
    m.load program = (r.session.machine, .ok r.effects)
  agenda : r.session.agenda = .empty
  clock : r.session.clock = 0

/-- The run stands at the beginning of cycle `j`. -/
def Begins (r : Run) (j : Nat) (s : Session) : Prop :=
  play r.frontend r.pace j r.effects r.session = .ok () s

/-- In cycle `j` the run has polled, and its timer phase is about to begin. -/
def Polled (r : Run) (j : Nat) (s : Session) : Prop :=
  ∃ s₀, r.Begins j s₀ ∧ checkLimit r.pace s₀ = .ok () s₀ ∧ poll r.frontend s₀ = .ok () s

/-- In cycle `j` the run is about to let the machine execute instructions. -/
def Ready (r : Run) (j : Nat) (s : Session) : Prop :=
  ∃ s₀, r.Begins j s₀ ∧ prepare r.frontend r.pace s₀ = .ok () s

variable {r : Run} {j : Nat} {s s' : Session}

theorem Begins.unique (h : r.Begins j s) (h' : r.Begins j s') : s = s' :=
  (EStateM.Result.ok.inj (h.symm.trans h')).2

theorem Ready.unique (h : r.Ready j s) (h' : r.Ready j s') : s = s' := by
  obtain ⟨s₀, hb, hp⟩ := h
  obtain ⟨s₁, hb', hp'⟩ := h'
  cases hb.unique hb'
  exact (EStateM.Result.ok.inj (hp.symm.trans hp')).2

theorem Polled.ready (h : r.Polled j s) : r.Ready j (s.drained s.dueBound) := by
  obtain ⟨s₀, hb, hc, hp⟩ := h
  refine ⟨s₀, hb, ?_⟩
  exact (bind_of_ok hc _).trans ((bind_of_ok hp _).trans (drainDue_eq _ _))

theorem Ready.polled (h : r.Ready j s) : ∃ u, r.Polled j u ∧ s = u.drained u.dueBound := by
  obtain ⟨s₀, hb, hp⟩ := h
  obtain ⟨_, s₁, hc, h⟩ := ok_of_bind hp
  cases ok_of_checkLimit hc
  obtain ⟨_, u, hu, hd⟩ := ok_of_bind h
  rw [drainDue_eq] at hd
  exact ⟨u, ⟨s₀, hb, hc, hu⟩, (EStateM.Result.ok.inj hd).2.symm⟩

/-- Every cycle but the first begins where the instructions of the one before have led. -/
theorem Begins.ready (h : r.Begins (j + 1) s) :
    ∃ b, r.Ready j b ∧ compute r.frontend r.pace b = .ok () s := by
  rw [Begins, play_succ] at h
  obtain ⟨_, s₀, hb, h⟩ := ok_of_bind h
  obtain ⟨_, b, hp, hc⟩ := ok_of_bind h
  exact ⟨b, ⟨s₀, hb, hp⟩, hc⟩

theorem Ready.begins {b : Session} (h : r.Ready j b)
    (hc : compute r.frontend r.pace b = .ok () s) : r.Begins (j + 1) s := by
  obtain ⟨s₀, hb, hp⟩ := h
  rw [Begins, play_succ, bind_of_ok hb]
  exact (bind_of_ok hp _).trans hc

theorem Polled.calm (h : r.Polled j s) : ∃ s₀, r.Begins j s₀ ∧ s₀.Calm s := by
  obtain ⟨s₀, hb, _, hp⟩ := h
  exact ⟨s₀, hb, .of_poll hp⟩

namespace Fresh

theorem booted (h : r.Fresh) :
    r.effects = [.render .blank] ∧
      ∃ (m : Machine) (program : List UInt8), r.session.machine = m.booted program := by
  obtain ⟨m, program, hl⟩ := h.loaded
  rcases m.load_cases program with hc | ⟨fault, hc⟩
  · obtain ⟨hm, he⟩ := Prod.ext_iff.mp (hl.symm.trans hc)
    exact ⟨Except.ok.inj he, m, program, hm⟩
  · cases (Prod.ext_iff.mp (hl.symm.trans hc)).2

/-- The first cycle begins with idle timers. -/
theorem begins (h : r.Fresh) (hb : r.Begins 0 s) :
    (∀ t, s.machine.timer t = .idle) ∧ s.agenda = .empty ∧ s.clock = 0 := by
  obtain ⟨he, m, program, hm⟩ := h.booted
  obtain ⟨_, s₀, hg, hb⟩ := ok_of_bind hb
  cases hg
  obtain ⟨_, s₁, hd, hb⟩ := ok_of_bind hb
  cases hb
  rw [he] at hd
  have hs : s = r.session.rendered .blank := carriedOut_of_ok hd
  have ht : ∀ t, r.session.machine.timer t = .idle := by
    intro t
    rw [hm]
    cases t <;> rfl
  rw [hs]
  exact ⟨ht, h.agenda, h.clock⟩

/-- The clock moves on by the cycle time, whatever happens in a cycle. -/
theorem clock_begins (h : r.Fresh) (hb : r.Begins j s) : s.clock = j * r.pace.cycleTime := by
  induction j generalizing s with
  | zero => rw [(h.begins hb).2.2, Nat.zero_mul]
  | succ j ih =>
    obtain ⟨b, hr, hc⟩ := hb.ready
    obtain ⟨u, hu, rfl⟩ := hr.polled
    obtain ⟨s₀, hs, calm⟩ := hu.calm
    rw [clock_of_compute hc, clock_drained, calm.clock, ih hs, Nat.succ_mul]

theorem clock_ready (h : r.Fresh) (hr : r.Ready j s) : s.clock = j * r.pace.cycleTime := by
  obtain ⟨u, hu, rfl⟩ := hr.polled
  obtain ⟨s₀, hs, calm⟩ := hu.calm
  rw [clock_drained, calm.clock, h.clock_begins hs]

end Fresh
end Run
end Chip8
