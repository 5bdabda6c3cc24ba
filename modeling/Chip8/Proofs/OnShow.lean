import Chip8.Proofs.Closing

/-! # Current frames

A session never polls with a frame on show that is not its machine's screen, and what it hands over
at the end is that screen, too. -/
namespace Chip8

variable {f : Frontend} {p : Pace} {n : Nat} {s s' : Session} {m : Machine} {frame : Screen}
  {os os' : List Occurrence} {exit : Option Exit}

/-- The frame on show after the occurrences, if it was `frame` before them. -/
def onShow (frame : Screen) (os : List Occurrence) : Screen := (shown os).getLastD frame

theorem onShow_append (frame : Screen) (os os' : List Occurrence) :
    onShow frame (os ++ os') = onShow (onShow frame os) os' := by
  unfold onShow
  rw [shown_append]
  induction shown os generalizing frame with
  | nil => rfl
  | cons x fs ih => rw [List.cons_append, List.getLastD_cons, List.getLastD_cons, ih]

/-- Whenever the frontend is polled, the screen is on show. -/
def Current (m : Machine) (frame : Screen) (os : List Occurrence) : Prop :=
  ∀ os₁ os₂, os = os₁ ++ .call .poll :: os₂ → onShow frame os₁ = (m.replay os₁).state.screen

theorem Current.append (h : Current m frame os)
    (h' : Current (m.replay os) (onShow frame os) os') : Current m frame (os ++ os') := by
  intro os₁ os₂ he
  rcases List.append_eq_append_iff.mp he with ⟨os₃, rfl, hr⟩ | ⟨os₃, rfl, hr⟩
  · rw [onShow_append, Machine.replay_append]
    exact h' os₃ os₂ hr
  · cases os₃ with
    | nil =>
      rw [List.append_nil] at h'
      exact h' [] os₂ hr.symm
    | cons o os₃ =>
      obtain ⟨rfl, rfl⟩ := List.cons.inj hr
      exact h os₁ os₃ rfl

theorem current_of_not_mem (h : .call .poll ∉ os) : Current m frame os := by
  rintro os₁ os₂ rfl
  exact absurd (List.mem_append_right _ List.mem_cons_self) h

/-- Timer ticks and keys leave the screen alone. -/
theorem screen_replay_minor (h : ∀ o ∈ os, o.isMinor = true) (m : Machine) :
    (m.replay os).state.screen = m.state.screen := by
  induction os generalizing m with
  | nil => rfl
  | cons o os ih =>
    have ih := ih fun o ho => h o (List.mem_cons_of_mem _ ho)
    have ho := h o List.mem_cons_self
    cases o with
    | call c => exact ih m
    | event e =>
      refine (ih _).trans ?_
      cases e with
      | keyDown key => exact m.screen_keyDown _
      | keyUp key => rfl
      | timerTick t epoch =>
        obtain ⟨timers, ht⟩ := m.timerTick_frame t epoch
        exact congrArg (·.state.screen) ht
      | cpuTick => cases ho
      | programLoaded program => cases ho
      | programUnavailable reason => cases ho

theorem Polling.screen_replay (h : Polling os) (m : Machine) :
    (m.replay os).state.screen = m.state.screen := by
  obtain ⟨rest, rfl, hr⟩ := h
  exact screen_replay_minor hr m

theorem Polling.current (h : Polling os) : Current m m.state.screen os := by
  obtain ⟨rest, rfl, hr⟩ := h
  intro os₁ os₂ he
  cases os₁ with
  | nil => rfl
  | cons o os₁ =>
    obtain ⟨-, rfl⟩ := List.cons.inj he
    cases hr _ (List.mem_append_right _ List.mem_cons_self)

theorem Turn.current (h : Turn f p s os exit) : Current s.machine s.machine.state.screen os := by
  have hb : ∀ fs : List Screen, .call .poll ∉ .event .cpuTick :: fs.map showing := fun fs hm =>
    (List.mem_cons.mp hm).elim nofun (List.count_eq_zero.mp (count_showing rfl fs))
  cases h with
  | limit => exact current_of_not_mem nofun
  | quit => exact (polling_answered _).current
  | halted _ opening => exact opening.polling.current.append (current_of_not_mem (hb []))
  | renderFailed _ opening => exact opening.polling.current.append (current_of_not_mem (hb [_]))
  | completed _ opening => exact opening.polling.current.append (current_of_not_mem (hb _))

/-- A cycle that has been completed leaves the screen on show. -/
theorem Turn.onShow_eq (h : Turn f p s os none) :
    onShow s.machine.state.screen os = (s.machine.replay os).state.screen := by
  obtain _ | _ | _ | _ | @⟨os, es, _, opening, answers, _, _⟩ := h
  have hshown : shown (os ++ .event .cpuTick :: (frames es).map showing) = frames es := by
    rw [shown_append, opening.polling.shown_eq]
    exact shown_map_showing _
  have hreplay : s.machine.replay (os ++ .event .cpuTick :: (frames es).map showing) =
      ((s.machine.replay os).handle .cpuTick).1 := by
    rw [Machine.replay_append, Machine.replay, Machine.replay_showing]
  rw [onShow, hshown, hreplay]
  rcases Machine.shows_of_tick (Prod.ext rfl answers) with ⟨hf, hs⟩ | hf
  · rw [hf, ← opening.polling.screen_replay]
    exact hs.symm
  · rw [hf]
    rfl

theorem Course.current (h : Course f p n s os exit s') :
    Current s.machine s.machine.state.screen os := by
  induction h with
  | pause => exact current_of_not_mem nofun
  | stop turn _ => exact turn.current
  | next turn leads _ _ ih =>
    refine turn.current.append ?_
    rw [turn.onShow_eq, ← leads.machine]
    exact ih

theorem Current.getLast?_eq {os₁ os₂ : List Occurrence} (h : Current m frame os)
    (he : showing frame :: os = os₁ ++ .call .poll :: os₂) :
    (shown os₁).getLast? = some (m.replay os₁).state.screen := by
  cases os₁ with
  | nil => cases he
  | cons o os₁ =>
    obtain ⟨rfl, rfl⟩ := List.cons.inj he
    have hs : (shown (showing frame :: os₁)).getLast? = some (onShow frame os₁) := by
      rw [onShow, List.getLastD_eq_getLast?]
      exact List.getLast?_cons
    exact hs.trans (congrArg some (h os₁ os₂ rfl))

/-- At every poll the screen is the frame shown last, and it is what is handed over at the end. -/
structure UpToDate (m : Machine) (os : List Occurrence) : Prop where
  poll : ∀ os₁ os₂, os = os₁ ++ .call .poll :: os₂ →
    (shown os₁).getLast? = some (m.replay os₁).state.screen
  finish : ∀ os₁ frame os₂, os = os₁ ++ .call (.finish frame) :: os₂ →
    frame = (m.replay os₁).state.screen

theorem Current.upToDate (h : Current m frame os) (unclosed : Unclosed (showing frame :: os)) :
    UpToDate m (showing frame :: os) where
  poll _ _ he := h.getLast?_eq he
  finish os₁ last os₂ he := by
    rw [he] at unclosed
    exact absurd (List.mem_append_right _ List.mem_cons_self) (unclosed last)

theorem UpToDate.concat (h : UpToDate m os) :
    UpToDate m (os ++ [.call (.finish (m.replay os).state.screen)]) where
  poll os₁ os₂ he := by
    rcases List.eq_nil_or_concat os₂ with rfl | ⟨os₃, o, rfl⟩
    · cases (List.append_inj' he rfl).2
    · rw [List.concat_eq_append, ← List.cons_append, ← List.append_assoc] at he
      exact h.poll os₁ os₃ (List.append_inj' he rfl).1
  finish os₁ frame os₂ he := by
    rcases List.eq_nil_or_concat os₂ with rfl | ⟨os₃, o, rfl⟩
    · obtain ⟨rfl, ho⟩ := List.append_inj' he rfl
      cases ho
      rfl
    · rw [List.concat_eq_append, ← List.cons_append, ← List.append_assoc] at he
      exact h.finish os₁ frame os₃ (List.append_inj' he rfl).1

theorem UpToDate.append_closing (h : UpToDate m os) (exit : Exit) :
    UpToDate m (os ++ exit.closing (m.replay os).state.screen) := by
  cases exit with
  | renderFailed =>
    rw [Exit.closing, List.append_nil]
    exact h
  | _ => exact h.concat

namespace Run

/-- The run comes by the session at the beginning of a cycle or at its end. -/
def Visits (r : Run) (s : Session) : Prop :=
  ∃ n, r.Begins n s ∨
    ∃ exit, Session.runFor r.frontend r.pace n r.effects r.session = some ⟨s, exit⟩

variable {r : Run}

theorem Fresh.upToDate_of_play (h : r.Fresh)
    (hp : Play r.frontend r.pace n r.effects r.session os exit s) :
    UpToDate r.session.machine os := by
  have unclosed := hp.unclosed
  obtain ⟨cs, rfl, ⟨_, _, rfl, _⟩ | ⟨_, course⟩⟩ := h.play_cases hp
  · exact Current.upToDate (current_of_not_mem nofun) unclosed
  · obtain ⟨-, m, program, hm⟩ := h.booted
    have hb : r.session.machine.state.screen = .blank := by
      rw [hm]
      rfl
    have current : Current r.session.machine .blank cs := hb ▸ course.current
    exact current.upToDate unclosed

theorem Fresh.upToDate (h : r.Fresh) (hv : r.Visits s) :
    ∃ os, r.session.Leads os s ∧ UpToDate r.session.machine os := by
  obtain ⟨n, hb | ⟨exit, ho⟩⟩ := hv
  · obtain ⟨os, played, leads⟩ := Session.play_of_ok hb
    exact ⟨os, leads, h.upToDate_of_play played⟩
  · obtain ⟨os, s', played, leads, hs⟩ := Session.play_of_runFor ho
    change s = s'.close exit at hs
    have closing := Session.leads_close exit s'
    rw [leads.machine] at closing
    exact ⟨_, hs ▸ leads.trans closing, (h.upToDate_of_play played).append_closing exit⟩

/-- The screen is never stale. In a run every poll is made with the screen on show and every display
handed over is the screen, and the machine shows each new screen in the response in which it
changes, and no other frame. -/
theorem Fresh.never_stale (h : r.Fresh) :
    (∀ s, r.Visits s → ∃ os, r.session.Leads os s ∧ UpToDate r.session.machine os) ∧
      ∀ (m m' : Machine) (e : Event) (es : List Effect), m.handle e = (m', .ok es) →
        (m'.state.screen ≠ m.state.screen → frames es = [m'.state.screen]) ∧
          ∀ frame ∈ frames es, frame = m'.state.screen := by
  refine ⟨fun s hv => h.upToDate hv, fun m m' e es he => ?_⟩
  rcases Machine.shows_of_handle he with ⟨hf, hs⟩ | hf
  · rw [hf]
    exact ⟨fun hne => absurd hs hne, nofun⟩
  · rw [hf]
    exact ⟨fun _ => rfl, fun frame hm => List.mem_singleton.mp hm⟩

/-- The program `D005 1202` draws a digit and then goes round in circles. In three cycles there are
two frames to show, the blank one and that of the digit. -/
theorem Fresh.never_stale_digit :
    let r : Run := ⟨⟨fun _ => [], fun _ => none⟩, ⟨1, some 3⟩, [.render .blank],
      .start ((Machine.new {} 0).booted [0xD0, 0x05, 0x12, 0x02]) .silent⟩
    r.Fresh ∧ ∃ s, r.Visits s ∧ s.polls = 3 ∧ s.renders = 2 ∧
      ∃ os, r.session.Leads os s ∧ UpToDate r.session.machine os := by
  intro r
  have hfresh : r.Fresh := ⟨⟨_, _, Machine.load_of_le (by decide) _⟩, rfl, rfl⟩
  have he : (Session.runFor r.frontend r.pace 4 r.effects r.session).map
      (fun o => (o.session.polls, o.session.renders)) = some (3, 2) := by
    decide +kernel
  obtain ⟨o, ho, he⟩ := Option.map_eq_some_iff.mp he
  obtain ⟨hp, hr⟩ := Prod.ext_iff.mp he
  have hv : r.Visits o.session := ⟨4, .inr ⟨o.exit, ho⟩⟩
  exact ⟨hfresh, o.session, hv, hp, hr, (Fresh.never_stale hfresh).1 _ hv⟩

end Run
end Chip8
