import Chip8.Proofs.Reachability

/-! # Interleavings of keys and timer ticks

Key events, ticks of the delay timer and ticks of the sound timer do not see each other. However
three lists of them are interleaved, they leave the same machine, and each event is answered as if
the other two lists were not there. -/
namespace Chip8

/-- The last list consists of the elements of the other three, those of each in their order. -/
inductive Interleaving {α : Type} : List α → List α → List α → List α → Prop
  | nil : Interleaving [] [] [] []
  | first {a : α} {as bs cs ds : List α} (rest : Interleaving as bs cs ds) :
      Interleaving (a :: as) bs cs (a :: ds)
  | second {b : α} {as bs cs ds : List α} (rest : Interleaving as bs cs ds) :
      Interleaving as (b :: bs) cs (b :: ds)
  | third {c : α} {as bs cs ds : List α} (rest : Interleaving as bs cs ds) :
      Interleaving as bs (c :: cs) (c :: ds)

namespace Interleaving

variable {α : Type} {as bs cs ds : List α}

theorem rotate (h : Interleaving as bs cs ds) : Interleaving bs cs as ds := by
  induction h with
  | nil => exact .nil
  | first _ ih => exact .third ih
  | second _ ih => exact .first ih
  | third _ ih => exact .second ih

theorem filter_first {p : α → Bool} (h : Interleaving as bs cs ds) (ha : ∀ a ∈ as, p a = true)
    (hb : ∀ b ∈ bs, p b = false) (hc : ∀ c ∈ cs, p c = false) : ds.filter p = as := by
  induction h with
  | nil => rfl
  | first _ ih =>
    obtain ⟨h, ha⟩ := List.forall_mem_cons.mp ha
    rw [List.filter_cons_of_pos h, ih ha hb hc]
  | second _ ih =>
    obtain ⟨h, hb⟩ := List.forall_mem_cons.mp hb
    rw [List.filter_cons_of_neg (Bool.not_eq_true _ ▸ h), ih ha hb hc]
  | third _ ih =>
    obtain ⟨h, hc⟩ := List.forall_mem_cons.mp hc
    rw [List.filter_cons_of_neg (Bool.not_eq_true _ ▸ h), ih ha hb hc]

end Interleaving

/-- What an event that runs no instruction is about. -/
inductive Lane
  | keys
  | timer (t : Timer)
  deriving DecidableEq

def Event.lane? : Event → Option Lane
  | keyDown _ | keyUp _ => some .keys
  | timerTick t _ => some (.timer t)
  | _ => none

/-- The events are about different things, and neither runs an instruction. -/
def Event.Apart (e e' : Event) : Prop :=
  ∃ l l', e.lane? = some l ∧ e'.lane? = some l' ∧ l ≠ l'

/-- Only ticks of a timer are about it. -/
theorem Event.eq_timerTick_of_lane? {e : Event} {t : Timer} (h : e.lane? = some (.timer t)) :
    ∃ epoch, e = .timerTick t epoch := by
  cases e with
  | timerTick u epoch =>
    cases h
    exact ⟨epoch, rfl⟩
  | _ => cases h

theorem Timers.set_get (ts : Timers) (t : Timer) : ts.set t (ts.get t) = ts := by
  cases t <;> rfl

theorem Timers.set_comm (ts : Timers) {t u : Timer} (h : t ≠ u) (c d : Countdown) :
    (ts.set t c).set u d = (ts.set u d).set t c := by
  cases t <;> cases u <;> first | rfl | exact absurd rfl h

namespace Machine

variable {m m' : Machine} {e e' : Event} {t : Timer} {l : Lane}

def withTimer (t : Timer) (c : Countdown) (m : Machine) : Machine :=
  { m with state := { m.state with timers := m.state.timers.set t c } }

theorem withTimer_self (m : Machine) (t : Timer) : m.withTimer t (m.timer t) = m := by
  unfold withTimer timer
  rw [Timers.set_get]

theorem timer_withTimer_of_ne {t u : Timer} (h : u ≠ t) (c : Countdown) (m : Machine) :
    (m.withTimer t c).timer u = m.timer u :=
  (Timers.get_set ..).trans (if_neg h)

theorem withTimer_comm {t u : Timer} (h : t ≠ u) (c d : Countdown) (m : Machine) :
    (m.withTimer t c).withTimer u d = (m.withTimer u d).withTimer t c := by
  unfold withTimer
  rw [Timers.set_comm _ h]

/-- A tick changes its own timer, and to what depends on nothing but that timer and the epoch. -/
theorem timerTick_congr (ht : m'.timer t = m.timer t) (he : m'.epoch = m.epoch) (epoch : UInt32) :
    m'.timerTick t epoch =
      (m'.withTimer t ((m.timerTick t epoch).1.timer t), (m.timerTick t epoch).2) := by
  by_cases hc : epoch = m.epoch
  · subst hc
    have hs : m'.sounds t = m.sounds t := by rw [sounds, sounds, ht]
    have hr : m'.reschedules t = m.reschedules t := by
      rw [reschedules, reschedules, schedule, schedule, ht, he]
    rw [timer_timerTick, if_pos rfl, effects_timerTick, ← he, ← hs, ← hr, ← effects_timerTick, ← ht]
    exact Prod.ext (m'.machine_timerTick t) rfl
  · rw [timerTick_of_stale hc, timerTick_of_stale (he ▸ hc), ← ht, withTimer_self]

theorem keyDown_withTimer (key : Key) (m : Machine) (t : Timer) (c : Countdown) :
    (m.withTimer t c).keyDown key = (m.keyDown key).withTimer t c := by
  obtain ⟨_, _, _, hk⟩ := m.keyDown_frame key
  rw [keyDown_congr m (m.withTimer t c) rfl rfl rfl, hk]
  rfl

theorem machine_timerTick_eq (m : Machine) (t : Timer) (epoch : UInt32) :
    (m.timerTick t epoch).1 = m.withTimer t ((m.timerTick t epoch).1.timer t) :=
  congrArg Prod.fst (timerTick_congr rfl rfl epoch : m.timerTick t epoch = _)

theorem timerTick_withTimer {t u : Timer} (h : u ≠ t) (epoch : UInt32) (c : Countdown)
    (m : Machine) :
    (m.withTimer t c).timerTick u epoch =
      ((m.timerTick u epoch).1.withTimer t c, (m.timerTick u epoch).2) := by
  rw [timerTick_congr (timer_withTimer_of_ne h c m) rfl, withTimer_comm h.symm,
    ← machine_timerTick_eq]

/-- An event about something else does not see a timer. -/
theorem handle_withTimer (hl : e.lane? = some l) (hne : l ≠ .timer t) (c : Countdown)
    (m : Machine) :
    (m.withTimer t c).handle e = ((m.handle e).1.withTimer t c, (m.handle e).2) := by
  cases e with
  | keyDown key => exact Prod.ext (keyDown_withTimer _ m t c) rfl
  | keyUp key => rfl
  | timerTick u epoch =>
    have hu : u ≠ t := fun h => hne (by rw [← Option.some.inj hl, h])
    exact congrArg (Prod.map id Except.ok) (timerTick_withTimer hu epoch c m)
  | _ => cases hl

/-- Nor does it change the timer, or make it stale. -/
theorem timer_of_handle (hl : e.lane? = some l) (hne : l ≠ .timer t) (m : Machine) :
    (m.handle e).1.timer t = m.timer t ∧ (m.handle e).1.epoch = m.epoch := by
  cases e with
  | keyDown key =>
    obtain ⟨_, _, _, hk⟩ := m.keyDown_frame (.ofByte key)
    exact ⟨congrArg (·.timer t) hk, congrArg (·.epoch) hk⟩
  | keyUp key => exact ⟨rfl, rfl⟩
  | timerTick u epoch =>
    have hu : t ≠ u := fun h => hne (by rw [← Option.some.inj hl, h])
    exact ⟨timer_timerTick_of_ne hu epoch, m.epoch_timerTick u epoch⟩
  | _ => cases hl

/-- The two events can be swapped, and are answered the same. -/
structure Swaps (m : Machine) (e e' : Event) : Prop where
  machine : ((m.handle e).1.handle e').1 = ((m.handle e').1.handle e).1
  first : ((m.handle e').1.handle e).2 = (m.handle e).2
  second : ((m.handle e).1.handle e').2 = (m.handle e').2

theorem Swaps.symm (h : m.Swaps e e') : m.Swaps e' e := ⟨h.machine.symm, h.second, h.first⟩

/-- A tick of a timer can be swapped with any event about something else. -/
theorem swaps_timerTick (hl : e.lane? = some l) (hne : l ≠ .timer t) (m : Machine)
    (epoch : UInt32) : m.Swaps (.timerTick t epoch) e := by
  obtain ⟨ht, he⟩ := timer_of_handle hl hne m
  have hlast : (m.handle e).1.handle (.timerTick t epoch) =
      ((m.handle e).1.withTimer t ((m.timerTick t epoch).1.timer t),
        (m.handle (.timerTick t epoch)).2) :=
    congrArg (Prod.map id Except.ok) (timerTick_congr ht he epoch)
  have hfirst := handle_withTimer hl hne ((m.timerTick t epoch).1.timer t) m
  rw [← machine_timerTick_eq] at hfirst
  exact {
    machine := (congrArg Prod.fst hfirst).trans (congrArg Prod.fst hlast).symm
    first := (congrArg Prod.snd hlast :)
    second := (congrArg Prod.snd hfirst :) }

theorem swaps_of_apart (h : e.Apart e') (m : Machine) : m.Swaps e e' := by
  obtain ⟨l, l', hl, hl', hne⟩ := h
  cases l with
  | timer t =>
    obtain ⟨epoch, rfl⟩ := Event.eq_timerTick_of_lane? hl
    exact swaps_timerTick hl' hne.symm m epoch
  | keys =>
    cases l' with
    | keys => exact absurd rfl hne
    | timer t =>
      obtain ⟨epoch, rfl⟩ := Event.eq_timerTick_of_lane? hl'
      exact (swaps_timerTick hl hne m epoch).symm

/-! ## Lists of events -/

def handleAll (m : Machine) (es : List Event) : Machine := m.after (es.map .event)

/-- The events with what the machine answers to each of them in its turn. -/
def exchanges (m : Machine) (es : List Event) : List (Event × Response) :=
  es.zip (m.answers (es.map .event))

theorem exchanges_cons (m : Machine) (e : Event) (es : List Event) :
    m.exchanges (e :: es) = (e, (m.handle e).2) :: (m.handle e).1.exchanges es := rfl

/-- An event can be moved in front of events that it is apart from. -/
theorem handleAll_middle {as bs : List Event} (h : ∀ a ∈ as, e.Apart a) (m : Machine) :
    m.handleAll (as ++ e :: bs) = (m.handle e).1.handleAll (as ++ bs) := by
  induction as generalizing m with
  | nil => rfl
  | cons a as ih =>
    obtain ⟨ha, has⟩ := List.forall_mem_cons.mp h
    have hs := (swaps_of_apart ha m).machine
    calc (m.handle a).1.handleAll (as ++ e :: bs)
        = ((m.handle a).1.handle e).1.handleAll (as ++ bs) := ih has _
      _ = ((m.handle e).1.handle a).1.handleAll (as ++ bs) := by rw [hs]

theorem exchanges_handle {es : List Event} (h : ∀ e' ∈ es, e.Apart e') (m : Machine) :
    (m.handle e).1.exchanges es = m.exchanges es := by
  induction es generalizing m with
  | nil => rfl
  | cons e' es ih =>
    obtain ⟨he, hes⟩ := List.forall_mem_cons.mp h
    have hs := swaps_of_apart he m
    rw [exchanges_cons, exchanges_cons, hs.second, hs.machine, ih hes]

theorem mem_of_exchanges {x : Event × Response} {es : List Event} (h : x ∈ m.exchanges es) :
    x.1 ∈ es :=
  (List.of_mem_zip (a := x.1) (b := x.2) h).1

theorem apart_of_lanes {l' : Lane} {es : List Event} (he : e.lane? = some l)
    (hes : ∀ e' ∈ es, e'.lane? = some l') (hne : l ≠ l') : ∀ e' ∈ es, e.Apart e' :=
  fun e' h => ⟨l, l', he, hes e' h, hne⟩

section

variable {l₁ l₂ l₃ : Lane} {as bs cs es : List Event} (h : Interleaving as bs cs es)
  (h₁₂ : l₁ ≠ l₂) (h₁₃ : l₁ ≠ l₃) (h₂₃ : l₂ ≠ l₃) (ha : ∀ a ∈ as, a.lane? = some l₁)
  (hb : ∀ b ∈ bs, b.lane? = some l₂) (hc : ∀ c ∈ cs, c.lane? = some l₃) (m : Machine)
include h h₁₂ h₁₃ h₂₃ ha hb hc

theorem handleAll_interleaving : m.handleAll es = m.handleAll (as ++ bs ++ cs) := by
  -- On the right the first event of the interleaving may be behind events that it is apart from.
  induction h generalizing m with
  | nil => rfl
  | first _ ih => exact ih (List.forall_mem_cons.mp ha).2 hb hc _
  | second _ ih =>
    obtain ⟨h, hb⟩ := List.forall_mem_cons.mp hb
    rw [List.append_assoc, List.cons_append, handleAll_middle (apart_of_lanes h ha h₁₂.symm),
      ← List.append_assoc]
    exact ih ha hb hc _
  | third _ ih =>
    obtain ⟨h, hc⟩ := List.forall_mem_cons.mp hc
    have hab := List.forall_mem_append.mpr
      ⟨apart_of_lanes h ha h₁₃.symm, apart_of_lanes h hb h₂₃.symm⟩
    rw [handleAll_middle hab]
    exact ih ha hb hc _

theorem exchanges_interleaving :
    Interleaving (m.exchanges as) (m.exchanges bs) (m.exchanges cs) (m.exchanges es) := by
  induction h generalizing m with
  | nil => exact .nil
  | first _ ih =>
    obtain ⟨h, ha⟩ := List.forall_mem_cons.mp ha
    rw [← exchanges_handle (apart_of_lanes h hb h₁₂), ← exchanges_handle (apart_of_lanes h hc h₁₃)]
    exact .first (ih ha hb hc _)
  | second _ ih =>
    obtain ⟨h, hb⟩ := List.forall_mem_cons.mp hb
    rw [← exchanges_handle (apart_of_lanes h ha h₁₂.symm),
      ← exchanges_handle (apart_of_lanes h hc h₂₃)]
    exact .second (ih ha hb hc _)
  | third _ ih =>
    obtain ⟨h, hc⟩ := List.forall_mem_cons.mp hc
    rw [← exchanges_handle (apart_of_lanes h ha h₁₃.symm),
      ← exchanges_handle (apart_of_lanes h hb h₂₃.symm)]
    exact .third (ih ha hb hc _)

theorem filter_exchanges :
    (m.exchanges es).filter (·.1.lane? = some l₁) = m.exchanges as := by
  refine (exchanges_interleaving h h₁₂ h₁₃ h₂₃ ha hb hc m).filter_first ?_ ?_ ?_
  · intro x hx
    simp [ha _ (mem_of_exchanges hx)]
  · intro x hx
    simp [hb _ (mem_of_exchanges hx), h₁₂.symm]
  · intro x hx
    simp [hc _ (mem_of_exchanges hx), h₁₃.symm]

end

end Machine
end Chip8
