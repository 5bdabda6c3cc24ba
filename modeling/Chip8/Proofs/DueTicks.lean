import Chip8.Proofs.Draining

/-! # Due ticks run out

The timer phase pushes into the agenda that it empties, and what it pushes may be due at once. Every
pass of it takes one tick away, and puts one back only if a timer has lost a unit for it. So there
are no more passes than ticks and units together. -/
namespace Chip8.Session

open SessionM

/-- One pass of the timer phase: the first tick leaves the agenda if it is due, the machine answers
it, and what the machine asks for is carried out at the time when the tick was due. -/
def Passes (f : Frontend) (s s' : Session) : Prop :=
  ∃ k agenda es s₁, s.agenda.popDue? s.clock = some (k, agenda) ∧
    deliver (.timerTick k.timer k.epoch) { s with agenda } = .ok es s₁ ∧
    dispatch f k.due es s₁ = .ok () s'

/-- So many passes lead from one session to another. -/
inductive PassesFor (f : Frontend) : Nat → Session → Session → Prop
  | zero (s : Session) : PassesFor f 0 s s
  | succ {n : Nat} {s s₁ s' : Session} (pass : Passes f s s₁) (rest : PassesFor f n s₁ s') :
    PassesFor f (n + 1) s s'

variable {f : Frontend} {s s' : Session} {n : Nat}

/-- No tick fails, and nothing is shown for it that could fail to be shown. -/
theorem passes_fired {k : PendingTick} {agenda : Agenda}
    (h : s.agenda.popDue? s.clock = some (k, agenda)) : Passes f s (s.fired k agenda) :=
  ⟨k, agenda, _, _, h, deliver_of_ok rfl,
    dispatch_of_frames (s.machine.frames_timerTick k.timer k.epoch) ..⟩

theorem fired_of_passes (h : Passes f s s') :
    ∃ k agenda, s.agenda.popDue? s.clock = some (k, agenda) ∧ s' = s.fired k agenda := by
  obtain ⟨k, agenda, es, s₁, hp, hd, hc⟩ := h
  obtain ⟨he, rfl⟩ := ok_of_deliver hd
  cases he
  exact ⟨k, agenda, hp, carriedOut_of_ok hc⟩

theorem dueBound_lt_of_passes (h : Passes f s s') : s'.dueBound < s.dueBound := by
  obtain ⟨k, agenda, hp, rfl⟩ := fired_of_passes h
  exact dueBound_fired_lt hp

theorem PassesFor.add_le (h : PassesFor f n s s') : n + s'.dueBound ≤ s.dueBound := by
  induction h with
  | zero s => omega
  | succ pass _ ih =>
    have := dueBound_lt_of_passes pass
    omega

theorem passesFor_drained (f : Frontend) (n : Nat) (s : Session) :
    ∃ k ≤ n, PassesFor f k s (s.drained n) := by
  induction n generalizing s with
  | zero => exact ⟨0, Nat.le_refl 0, .zero s⟩
  | succ n ih =>
    unfold drained
    split
    next => exact ⟨0, Nat.zero_le _, .zero s⟩
    next k agenda hp =>
      obtain ⟨j, hj, hr⟩ := ih (s.fired k agenda)
      exact ⟨j + 1, by omega, .succ (passes_fired hp) hr⟩

/-- No sequence of passes is longer than the number of pending ticks and the values of both timers
together, and some sequence of passes leaves no tick that is due by the clock. The timer phase ends
where it does. -/
theorem due_ticks_run_out (f : Frontend) (s : Session) :
    let bound := s.agenda.length + (s.machine.timer .delay).value.toNat +
      (s.machine.timer .sound).value.toNat
    (∀ n s', PassesFor f n s s' → n ≤ bound) ∧
      ∃ n ≤ bound, ∃ s', PassesFor f n s s' ∧ (∀ s'', ¬ Passes f s' s'') ∧
        drainDue f s = .ok () s' ∧ s'.clock = s.clock ∧ ∀ k ∈ s'.agenda.ticks, s.clock < k.due := by
  intro bound
  obtain ⟨n, hn, hr⟩ := passesFor_drained f s.dueBound s
  have hclock := clock_drained s.dueBound s
  have hnone := popDue?_drained (Nat.le_refl s.dueBound)
  refine ⟨fun n s' h => ?_, n, hn, _, hr, ?_, drainDue_eq f s, hclock, ?_⟩
  · exact Nat.le_trans (Nat.le_add_right ..) h.add_le
  · rintro s'' ⟨k, agenda, _, _, hp, _⟩
    rw [hnone] at hp
    cases hp
  · rw [Agenda.popDue?_eq_none_iff, hclock] at hnone
    exact hnone

/-- Two ticks of the sound timer and a stale one of the delay timer are pending. The first of them
is followed by another one that is due as well, which makes four passes. -/
theorem due_ticks_run_out_twice :
    let f : Frontend := ⟨fun _ => [], fun _ => none⟩
    let m := { Machine.new {} 0 with
      state := { State.initial with timers := ⟨.idle, ⟨2, true⟩⟩ } }
    let s := { Session.start m .silent with
      clock := 40000000
      agenda := ((Agenda.empty.schedule ⟨5, .sound, 0⟩).schedule ⟨3, .delay, 9⟩).schedule
        ⟨0, .sound, 0⟩ }
    ∃ s', PassesFor f 4 s s' ∧
      4 ≤ s.agenda.length + (s.machine.timer .delay).value.toNat +
        (s.machine.timer .sound).value.toNat := by
  intro f m s
  obtain ⟨s', hr⟩ : ∃ s', PassesFor f 4 s s' := by
    apply Exists.intro
    apply PassesFor.succ (passes_fired rfl)
    apply PassesFor.succ (passes_fired rfl)
    apply PassesFor.succ (passes_fired rfl)
    exact .succ (@passes_fired f _ ⟨timerPeriod, .sound, 0⟩ .empty (by decide +kernel))
      (.zero _)
  exact ⟨s', hr, (due_ticks_run_out f s).1 4 s' hr⟩

end Chip8.Session
