import Chip8.Proofs.Courses
import Chip8.Proofs.Cycles

/-! # Whole runs

A run with a cycle limit comes to an end. It shows the blank screen and then takes one turn after
another, with a batch of instructions for every poll but one that quits. -/
namespace Chip8

variable {f : Frontend} {p : Pace} {n : Nat} {s s' : Session} {os : List Occurrence}
  {exit : Option Exit}

theorem Pace.reached_iff (h : p.cycleLimit = some n) (cycles : Nat) :
    p.Reached cycles ↔ n ≤ cycles := by
  simp [Reached, h]

namespace Course

/-- Only a poll that quits is not followed by a batch. -/
theorem polls (h : Course f p n s os exit s') :
    pollCount os = batchCount os + if exit = some .quit then 1 else 0 := by
  induction h with
  | pause => rfl
  | stop turn _ => exact turn.polls
  | next turn _ _ _ ih =>
    have ht := turn.polls
    rw [if_neg nofun, Nat.add_zero] at ht
    rw [pollCount_append, batchCount_append, ht, ih, Nat.add_assoc]

theorem pollCount_le {k : Nat} (h : Course f p n s os exit s') (hk : p.cycleLimit = some k)
    (hs : s.cycles ≤ k) : s.cycles + pollCount os ≤ k := by
  induction h with
  | pause => exact hs
  | @stop _ s _ _ exit turn _ =>
    by_cases hl : exit = .limit
    · rw [turn.pollCount_eq, if_pos (congrArg some hl)]
      exact hs
    · have hne : some exit ≠ some .limit := fun h => hl (Option.some.inj h)
      have hlt := turn.below hne
      rw [Pace.reached_iff hk] at hlt
      rw [turn.pollCount_eq, if_neg hne]
      omega
  | next turn _ cycles _ ih =>
    have hlt := turn.below nofun
    rw [Pace.reached_iff hk] at hlt
    have ih := ih (by omega)
    rw [pollCount_append, turn.pollCount_eq, if_neg nofun]
    omega

/-- A course that does not come to an exit has a poll in each of its turns. -/
theorem pollCount_of_none (h : Course f p n s os exit s') (hn : exit = none) : pollCount os = n := by
  induction h with
  | pause => rfl
  | stop => cases hn
  | next turn _ _ _ ih =>
    rw [pollCount_append, turn.pollCount_eq, if_neg nofun, ih hn, Nat.add_comm]

end Course

theorem Machine.replay_chime (m m' : Machine) (t : Timer) (epoch : UInt32) :
    m'.replay (m.chime t epoch) = m' := by
  unfold chime
  split <;> rfl

/-- In the timer phase of a cycle the sound timer loses a unit for each beep. -/
theorem TimerPhase.beeps {m : Machine} (h : TimerPhase m os) :
    os.count (.call .beep) + ((m.replay os).timer .sound).value.toNat =
      (m.timer .sound).value.toNat := by
  induction h with
  | done m => exact Nat.zero_add _
  | @tick m os t epoch _ ih =>
    have hc := m.count_playSound_add t epoch
    rw [← count_beep, Machine.occurrences_timerTick] at hc
    have hr : m.replay (.event (.timerTick t epoch) :: m.chime t epoch ++ os) =
        (m.handle (.timerTick t epoch)).1.replay os := by
      rw [Machine.replay_append, Machine.replay, Machine.replay_chime]
    rw [hr, List.cons_append, List.count_cons_of_ne (by nofun), List.count_append, ← hc,
      Nat.add_assoc, ih]
    rfl

/-- Below the limit a course of enough turns comes to an exit. -/
theorem Course.exists_exit {k : Nat} (h : Course f p n s os exit s') (hk : p.cycleLimit = some k)
    (hs : s.cycles ≤ k) (hn : k < s.cycles + n) : ∃ e, exit = some e := by
  cases exit with
  | some e => exact ⟨e, rfl⟩
  | none =>
    have hle := h.pollCount_le hk hs
    rw [h.pollCount_of_none rfl] at hle
    exact absurd hn (Nat.not_lt.mpr hle)

theorem Session.run_of_limit (h : p.cycleLimit = some n) (f : Frontend) (es : List Effect)
    (s : Session) : run f p es s = runFor f p (n + 1) es s := by
  rw [run, longest, h]

theorem Session.runFor_of_runs {es : List Effect} {e : Exit}
    (h : Runs (play f p n es) s os (some e) s') :
    runFor f p n es s = some ⟨s'.close e, e⟩ := by
  rw [runFor, h.result]
  rfl

namespace Run

/-- A run that is entered with nothing counted yet. -/
structure Launched (r : Run) : Prop extends Fresh r where
  cycles : r.session.cycles = 0
  polls : r.session.polls = 0
  renders : r.session.renders = 0

variable {r : Run}

/-- No cycle begins beyond the limit. -/
theorem Launched.le_of_begins (h : r.Launched) (hn : r.pace.cycleLimit = some n) {j : Nat}
    (hb : r.Begins j s) : j ≤ n := by
  have hs : (r.session.rendered .blank).cycles = 0 := h.cycles
  obtain ⟨os, played, _⟩ := Session.play_of_ok hb
  obtain ⟨os, _, turns⟩ := h.play_cases played
  rcases turns with ⟨_, _, _, he⟩ | ⟨_, course⟩
  · cases he
  · have hle := course.pollCount_le hn (by omega)
    rwa [course.pollCount_of_none rfl, hs, Nat.zero_add] at hle

/-- The run comes to the outcome `o` after the blank screen and the occurrences `os`, within `n`
cycles. The session is in the state `s` when it comes to its exit. -/
structure Whole (r : Run) (n : Nat) (o : Outcome) (os : List Occurrence) (s : Session) : Prop where
  outcome : Session.run r.frontend r.pace r.effects r.session = some o
  session : o.session = s.close o.exit
  trace : o.session.trace.toList = r.session.trace.toList ++ showing .blank :: os ++
    o.exit.closing s.machine.state.screen
  /-- Without the first frame there are no turns. -/
  turns : (∃ reason, r.frontend.renderFault 1 = some reason ∧ os = [] ∧
      o.exit = .renderFailed reason) ∨
    r.frontend.renderFault 1 = none ∧
      Course r.frontend r.pace (n + 1) (r.session.rendered .blank) os (some o.exit) s
  cause : o.exit.Cause r.frontend r.pace r.session (showing .blank :: os)
  succeeds_iff : o.exit.error? = none ↔ o.exit = .limit ∨ o.exit = .quit
  polls : pollCount os = batchCount os + if o.exit = .quit then 1 else 0
  polls_le : pollCount os ≤ n
  polls_of_limit : o.exit = .limit → pollCount os = n

theorem Launched.exists_whole (h : r.Launched) (hn : r.pace.cycleLimit = some n) :
    ∃ o os s, r.Whole n o os s := by
  have hs : (r.session.rendered .blank).cycles = 0 := h.cycles
  obtain ⟨os, exit, s, played, runs⟩ :=
    Session.runs_play r.frontend r.pace (n + 1) r.effects r.session
  obtain ⟨os, rfl, turns⟩ := h.play_cases played
  rw [h.renders] at turns
  obtain ⟨e, rfl⟩ : ∃ e, exit = some e := by
    rcases turns with ⟨reason, _, _, he⟩ | ⟨_, course⟩
    · exact ⟨_, he⟩
    · exact course.exists_exit hn (by omega) (by omega)
  have counts : (pollCount os = batchCount os + if e = .quit then 1 else 0) ∧
      pollCount os ≤ n := by
    rcases turns with ⟨reason, _, rfl, he⟩ | ⟨_, course⟩
    · cases he
      exact ⟨rfl, Nat.zero_le n⟩
    · have hp := course.polls
      have hle := course.pollCount_le hn (by omega)
      rw [hs, Nat.zero_add] at hle
      simp only [Option.some.injEq] at hp
      exact ⟨hp, hle⟩
  have cause := played.cause
  exact ⟨⟨s.close e, e⟩, os, s,
    { outcome := (Session.run_of_limit hn ..).trans (Session.runFor_of_runs runs)
      session := rfl
      trace := by
        rw [List.append_assoc]
        exact (runs.leads.trans (Session.leads_close e s)).trace
      turns := by simpa using turns
      cause
      succeeds_iff := by cases e <;> simp [Exit.error?]
      polls := counts.1
      polls_le := counts.2
      polls_of_limit := by
        rintro rfl
        have hb : pollCount (showing .blank :: os) = pollCount os :=
          List.count_cons_of_ne (by nofun)
        have hr := (Pace.reached_iff hn _).mp cause
        rw [h.cycles, hb, Nat.zero_add] at hr
        exact Nat.le_antisymm counts.2 hr }⟩

/-- A run with a limit of `n` cycles has an outcome. It shows the blank screen and then takes turns
up to an exit, in which neither keys nor timer ticks fail and every beep takes a unit off the sound
timer. -/
theorem Launched.whole_run (h : r.Launched) (hn : r.pace.cycleLimit = some n) :
    (∃ o os s, r.Whole n o os s) ∧
      (∀ (m : Machine) (key : UInt8), (m.handle (.keyDown key)).2 = .ok [] ∧
        (m.handle (.keyUp key)).2 = .ok []) ∧
      (∀ (m : Machine) (t : Timer) (epoch : UInt32),
        ∃ es, (m.handle (.timerTick t epoch)).2 = .ok es ∧ frames es = []) ∧
      ∀ (m : Machine) (os : List Occurrence), TimerPhase m os →
        os.count (.call .beep) + ((m.replay os).timer .sound).value.toNat =
          (m.timer .sound).value.toNat :=
  ⟨h.exists_whole hn, fun _ _ => ⟨rfl, rfl⟩, fun m t epoch => ⟨_, rfl, m.frames_timerTick t epoch⟩,
    fun _ _ phase => phase.beeps⟩

/-- The program `D005 1202` draws a digit, and a key is pressed and the frontend quits at the second
poll. -/
theorem Launched.whole_run_quit :
    let r : Run := ⟨⟨fun poll => if poll = 2 then [.keyDown 5, .quit, .keyUp 5] else [],
        fun _ => none⟩, ⟨timerPeriod, some 3⟩, [.render .blank],
      .start ((Machine.new {} 0).booted [0xD0, 0x05, 0x12, 0x02]) .silent⟩
    r.Launched ∧ ∃ o os s, r.Whole 3 o os s ∧ o.exit = .quit ∧ pollCount os = batchCount os + 1 := by
  intro r
  have hlaunched : r.Launched := ⟨⟨⟨_, _, Machine.load_of_le (by decide) _⟩, rfl, rfl⟩, rfl, rfl, rfl⟩
  obtain ⟨o, os, s, whole⟩ := (Launched.whole_run hlaunched rfl).1
  have he : (Session.run r.frontend r.pace r.effects r.session).map Outcome.exit = some .quit := by
    decide +kernel
  rw [whole.outcome] at he
  have hq : o.exit = .quit := Option.some.inj he
  refine ⟨hlaunched, o, os, s, whole, hq, ?_⟩
  rw [whole.polls, if_pos hq]

end Run
end Chip8
