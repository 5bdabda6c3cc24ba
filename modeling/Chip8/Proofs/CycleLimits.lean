import Mathlib.Data.List.DropRight
import Chip8.Proofs.Closing
import Chip8.Proofs.WholeRuns

/-! # Cycle limits

A session that may take more cycles goes the same way for as long as the limit of the other one
lasts. So a longer limit only adds calls to the end of a run, and none at all to a run that has not
been stopped by its limit. -/
namespace Chip8

/-- Each cycle takes the same time, and the limit of `q` is not reached before that of `p`. -/
structure Pace.Extends (q p : Pace) : Prop where
  cycleTime : q.cycleTime = p.cycleTime
  reached : ∀ cycles, q.Reached cycles → p.Reached cycles

theorem Pace.extends_of_le {n m : Nat} (h : n ≤ m) (cycleTime : Nat) :
    Pace.Extends ⟨cycleTime, some m⟩ ⟨cycleTime, some n⟩ where
  cycleTime := rfl
  reached := fun _ hm => (reached_iff rfl _).mpr (h.trans ((reached_iff rfl _).mp hm))

namespace Session

open SessionM

variable {f : Frontend} {p q : Pace} {s : Session}

/-- Only the test at its beginning tells a cycle about the limit. -/
theorem cycle_of_extends (h : q.Extends p) (below : ¬ p.Reached s.cycles) :
    cycle f q s = cycle f p s := by
  have hq : ¬ q.Reached s.cycles := fun hr => below (h.reached _ hr)
  have hprep : prepare f q s = prepare f p s := by
    unfold prepare
    rw [bind_of_ok (runs_checkLimit hq).result, bind_of_ok (runs_checkLimit below).result]
  have hcomp : compute f q = compute f p := by
    unfold compute
    rw [h.cycleTime]
  unfold cycle
  rw [hcomp]
  cases hr : prepare f p s with
  | ok _ s₁ => rw [bind_of_ok hr, bind_of_ok (hprep.trans hr)]
  | error exit s₁ => rw [bind_of_error hr, bind_of_error (hprep.trans hr)]

theorem cycle_of_reached (h : p.Reached s.cycles) : cycle f p s = .error .limit s :=
  bind_of_error (bind_of_error (runs_checkLimit_of_reached h).result _) _

/-- Two sessions with different limits part when one of them is stopped at its limit, at a point
that the other one passes. -/
theorem repeatCycle_of_extends (h : q.Extends p) (f : Frontend) (n : Nat) (s : Session) :
    repeatCycle f q n s = repeatCycle f p n s ∨
      ∃ s' j, j ≤ n ∧ repeatCycle f p n s = .error .limit s' ∧ repeatCycle f q j s = .ok () s' := by
  induction n generalizing s with
  | zero => exact .inl rfl
  | succ n ih =>
    by_cases hr : p.Reached s.cycles
    · -- The limit is tested before the poll, so no call of this cycle has been made yet.
      exact .inr ⟨s, 0, Nat.zero_le _, bind_of_error (cycle_of_reached hr) _, rfl⟩
    have hc : cycle f q s = cycle f p s := cycle_of_extends h hr
    cases hp : cycle f p s with
    | error exit s₁ =>
      exact .inl ((bind_of_error (hc.trans hp) _).trans (bind_of_error hp _).symm)
    | ok _ s₁ =>
      have hp' (k : Nat) : repeatCycle f p (k + 1) s = repeatCycle f p k s₁ := bind_of_ok hp _
      have hq (k : Nat) : repeatCycle f q (k + 1) s = repeatCycle f q k s₁ :=
        bind_of_ok (hc.trans hp) _
      rcases ih s₁ with heq | ⟨s', j, hj, hstop, hpass⟩
      · exact .inl ((hq n).trans (heq.trans (hp' n).symm))
      · exact .inr ⟨s', j + 1, Nat.succ_le_succ hj, (hp' n).trans hstop, (hq j).trans hpass⟩

theorem play_of_extends (h : q.Extends p) (f : Frontend) (n : Nat) (es : List Effect)
    (s : Session) :
    play f q n es s = play f p n es s ∨
      ∃ s' j, j ≤ n ∧ play f p n es s = .error .limit s' ∧ play f q j es s = .ok () s' := by
  simp only [play_eq]
  cases hd : dispatch f s.clock es s with
  | error exit s₁ => exact .inl ((bind_of_error hd _).trans (bind_of_error hd _).symm)
  | ok _ s₁ =>
    simp only [bind_of_ok hd]
    exact repeatCycle_of_extends h f n s₁

/-- What a session has come to within some cycles, it comes to within more. -/
theorem runFor_add {es : List Effect} {o : Outcome} {j : Nat} (h : runFor f p j es s = some o)
    (i : Nat) : runFor f p (j + i) es s = some o := by
  unfold runFor at h ⊢
  split at h
  next => cases h
  next hp =>
    rw [play_add, bind_of_error hp]
    exact h

/-- A session with a limit comes to an end. -/
theorem exists_outcome {k : Nat} (hk : p.cycleLimit = some k) (f : Frontend) (es : List Effect)
    (s : Session) : ∃ o, run f p es s = some o := by
  obtain ⟨os, exit, s', played, runs⟩ := runs_play f p (k + 1) es s
  cases exit with
  | some e => exact ⟨_, (run_of_limit hk ..).trans (runFor_of_runs runs)⟩
  | none =>
    cases played with
    | go _ _ course =>
      have hlt : (s.carriedOut s.clock es).cycles < k := by
        cases course with
        | next turn =>
          have hb := turn.below (Option.some_ne_none _).symm
          rwa [Pace.reached_iff hk, Nat.not_le] at hb
      obtain ⟨e, he⟩ := course.exists_exit hk hlt.le (by omega)
      cases he

/-- What a session has done on the way to an outcome it has done in the end. -/
theorem calls_of_play {es : List Effect} {s' : Session} {j i : Nat} {o : Outcome}
    (h : play f p j es s = .ok () s') (ho : runFor f p (j + i) es s = some o) :
    s'.calls <+: o.session.calls := by
  obtain ⟨os, exit, s₁, _, runs⟩ := runs_repeatCycle f p i s'
  rw [runFor, play_add, bind_of_ok h, runs.result] at ho
  cases exit with
  | none => cases ho
  | some e =>
    cases ho
    have hc := (runs.leads.trans (leads_close e s₁)).calls
    exact ⟨_, hc.symm⟩

/-- A longer limit only extends a run. Both runs come to an end, the calls of the first, but for a
closing `finish`, are the first calls of the second, and a run that does not end at its limit ends
in the same way under a longer one. -/
theorem run_extends {n m : Nat} (h : n ≤ m) (f : Frontend) (cycleTime : Nat) (es : List Effect)
    (s : Session) :
    ∃ o o', run f ⟨cycleTime, some n⟩ es s = some o ∧ run f ⟨cycleTime, some m⟩ es s = some o' ∧
      o.session.calls.rdropWhile Call.isFinish <+: o'.session.calls ∧
      (o.exit ≠ .limit → o' = o) := by
  obtain ⟨o, ho⟩ := exists_outcome (p := ⟨cycleTime, some n⟩) rfl f es s
  obtain ⟨o', ho'⟩ := exists_outcome (p := ⟨cycleTime, some m⟩) rfl f es s
  refine ⟨o, o', ho, ho', ?_⟩
  rcases play_of_extends (Pace.extends_of_le h cycleTime) f (n + 1) es s with
    heq | ⟨s', j, hj, hstop, hpass⟩
  · have hn : runFor f ⟨cycleTime, some m⟩ (n + 1) es s = some o := by
      rw [runFor, heq]
      exact ho
    have hm := runFor_add hn (m - n)
    have hl : n + 1 + (m - n) = m + 1 := by omega
    rw [hl] at hm
    obtain rfl : o' = o := Option.some.inj (ho'.symm.trans hm)
    exact ⟨List.rdropWhile_prefix _ _, fun _ => rfl⟩
  · have hl : j + (m + 1 - j) = m + 1 := by omega
    have hc : s'.calls <+: o'.session.calls := by
      refine calls_of_play hpass (i := m + 1 - j) ?_
      rw [hl]
      exact ho'
    have hn : runFor f ⟨cycleTime, some n⟩ (n + 1) es s = some ⟨s'.close .limit, .limit⟩ := by
      rw [runFor, hstop]
    obtain rfl : o = ⟨s'.close .limit, .limit⟩ := Option.some.inj (ho.symm.trans hn)
    have hf : (s'.close .limit).calls = s'.calls ++ [.finish s'.machine.state.screen] :=
      (leads_close .limit s').calls
    refine ⟨?_, fun hne => absurd rfl hne⟩
    rw [hf, List.rdropWhile_concat_pos _ _ _ rfl]
    exact (List.rdropWhile_prefix _ _).trans hc

/-- The program `D005 1202` draws a digit. It is stopped after one cycle, or else the frontend quits
at the second poll. -/
theorem run_extends_quit :
    let f : Frontend := ⟨fun poll => if poll = 2 then [.keyDown 5, .quit] else [], fun _ => none⟩
    let s := start ((Machine.new {} 0).booted [0xD0, 0x05, 0x12, 0x02]) .silent
    ∃ stopped quit, run f ⟨timerPeriod, some 1⟩ [.render .blank] s = some stopped ∧
      run f ⟨timerPeriod, some 3⟩ [.render .blank] s = some quit ∧
      stopped.exit = .limit ∧ quit.exit = .quit ∧
      stopped.session.calls.rdropWhile Call.isFinish <+: quit.session.calls ∧
      run f ⟨timerPeriod, some 7⟩ [.render .blank] s = some quit := by
  intro f s
  have he : (run f ⟨timerPeriod, some 1⟩ [.render .blank] s).map Outcome.exit = some .limit ∧
      (run f ⟨timerPeriod, some 3⟩ [.render .blank] s).map Outcome.exit = some .quit := by
    decide +kernel
  obtain ⟨stopped, quit, hs, hq, hc, _⟩ := run_extends (n := 1) (m := 3) (by decide) f timerPeriod
    [.render .blank] s
  obtain ⟨quit', later, hq', hl, _, hsame⟩ := run_extends (n := 3) (m := 7) (by decide) f timerPeriod
    [.render .blank] s
  obtain rfl : quit' = quit := Option.some.inj (hq'.symm.trans hq)
  rw [hs, hq] at he
  have hx : stopped.exit = .limit ∧ quit'.exit = .quit :=
    ⟨Option.some.inj he.1, Option.some.inj he.2⟩
  refine ⟨stopped, quit', hs, hq, hx.1, hx.2, hc, ?_⟩
  rw [← hsame (by simp [hx.2])]
  exact hl

end Session
end Chip8
