import Mathlib.Data.List.Count
import Mathlib.Data.Multiset.AddSub
import Chip8.Proofs.Reachability

/-! # Ticks in flight

A driver keeps the timer ticks that a machine has asked for and delivers each of them once, at any
time. Whatever else it does in between, at most one tick of the current epoch is in flight for a
timer, and one is unless the timer is idle or a fault has taken it along. -/
namespace Chip8

structure Ticket where
  timer : Timer
  epoch : UInt32
  deriving DecidableEq

def Effect.ticket? : Effect → Option Ticket
  | schedule t epoch _ => some ⟨t, epoch⟩
  | _ => none

/-- The ticks that a response asks for. -/
def tickets : Response → List Ticket
  | .ok es => es.filterMap Effect.ticket?
  | .error _ => []

namespace Stimulus

def isTimerTick : Stimulus → Bool
  | .event (.timerTick ..) => true
  | _ => false

def loads : Stimulus → Nat
  | .event (.programLoaded _) | .event (.programUnavailable _) => 1
  | _ => 0

end Stimulus

structure Flight where
  machine : Machine
  tickets : Multiset Ticket
  /-- How many programs have been loaded or refused. -/
  loads : Nat

namespace Flight

def start (c : Configuration) (key : ChaCha.CipherKey) : Flight := ⟨.new c key, 0, 0⟩

def respond (f : Flight) (s : Stimulus) : Flight :=
  ⟨(f.machine.respond s).1, f.tickets + Chip8.tickets (f.machine.respond s).2,
    f.loads + s.loads⟩

def deliver (f : Flight) (k : Ticket) : Flight :=
  { f with tickets := f.tickets.erase k }.respond (.event (.timerTick k.timer k.epoch))

/-- A driver delivers the ticks in flight, each once, and any other stimuli. -/
inductive Reachable (c : Configuration) (key : ChaCha.CipherKey) : Flight → Prop
  | start : Reachable c key (start c key)
  | deliver {f : Flight} {k : Ticket} (prior : Reachable c key f) (member : k ∈ f.tickets) :
      Reachable c key (f.deliver k)
  | respond {f : Flight} {s : Stimulus} (prior : Reachable c key f)
      (other : s.isTimerTick = false) : Reachable c key (f.respond s)

theorem deliver_eq (f : Flight) (k : Ticket) :
    f.deliver k = ⟨(f.machine.timerTick k.timer k.epoch).1,
      f.tickets.erase k + Chip8.tickets (.ok (f.machine.timerTick k.timer k.epoch).2),
      f.loads⟩ :=
  rfl

/-- The number of ticks in flight for the timer that are not stale. -/
def inFlight (f : Flight) (t : Timer) : Nat := f.tickets.count ⟨t, f.machine.epoch⟩

end Flight

namespace Machine

theorem tickets_effectsSince (m : Machine) (before : Timers) :
    tickets (.ok (m.effectsSince before)) =
      (m.startedTimers before).map fun t => ⟨t, m.epoch⟩ := by
  rw [tickets, filterMap_effectsSince fun _ => rfl]
  exact congrFun List.filterMap_eq_map _

theorem count_startedTimers (m : Machine) (before : Timers) (t : Timer) :
    (m.startedTimers before).count t =
      (!(before.get t).running && (m.timer t).running).toNat := by
  by_cases ht : t ∈ m.startedTimers before
  · have hm := mem_startedTimers.mp ht
    rw [List.count_eq_one_of_mem (nodup_startedTimers m before) ht, hm.1, timer, hm.2]
    rfl
  · rw [List.count_eq_zero_of_not_mem ht]
    rw [mem_startedTimers, ← timer] at ht
    cases hb : (before.get t).running <;> cases hr : (m.timer t).running <;> simp_all

/-- What a response that loads nothing does to the ticks in flight. A timer that starts asks for a
tick, but a fault loses what the batch has asked for. -/
structure Balanced (m : Machine) (r : Machine × Response) : Prop where
  epoch : r.1.epoch = m.epoch
  own : ∀ k ∈ tickets r.2, k.epoch = m.epoch
  awake : r.1.mode ≠ .halted → m.mode ≠ .halted
  le : ∀ t, (m.timer t).running.toNat + (tickets r.2).count ⟨t, m.epoch⟩ ≤
    (r.1.timer t).running.toNat
  eq : r.1.mode ≠ .halted → ∀ t,
    (m.timer t).running.toNat + (tickets r.2).count ⟨t, m.epoch⟩ = (r.1.timer t).running.toNat

namespace Balanced

variable {m : Machine}

theorem of_timers_eq {m' : Machine} (he : m'.epoch = m.epoch)
    (ha : m'.mode ≠ .halted → m.mode ≠ .halted) (ht : m'.state.timers = m.state.timers) :
    m.Balanced (m', .ok []) where
  epoch := he
  own := by simp [tickets]
  awake := ha
  le := by simp [tickets, timer, ht]
  eq := by simp [tickets, timer, ht]

theorem tick (m : Machine) (n : Nat) : m.Balanced (m.tick n) := by
  rcases tick_cases n m with ⟨_, ht⟩ | ⟨m', ht⟩ | ⟨a, fault, ht⟩
  · rw [ht]
    exact of_timers_eq rfl id rfl
  · have he : m'.epoch = m.epoch := ht.path.epoch
    have hb : ∀ t, (m.timer t).running.toNat +
        (tickets (.ok (m'.effectsSince m.state.timers))).count ⟨t, m.epoch⟩ =
          (m'.timer t).running.toNat := by
      intro t
      have hi : Function.Injective fun t => Ticket.mk t m'.epoch :=
        fun _ _ h => (Ticket.mk.inj h).1
      have hr : (m.timer t).running = true → (m'.timer t).running = true := ht.path.timer_running
      rw [tickets_effectsSince, ← he, List.count_map_of_injective _ _ hi, count_startedTimers,
        ← timer]
      cases hm : (m.timer t).running <;> simp_all
    rw [ht.tick_eq]
    refine ⟨he, ?_, fun _ => ?_, fun t => (hb t).le, fun _ => hb⟩
    · intro k hk
      rw [← effectsSince, tickets_effectsSince] at hk
      obtain ⟨t, _, rfl⟩ := List.mem_map.mp hk
      exact he
    · rw [ht.running]
      decide
  · have hr : ∀ t, (m.timer t).running = true → (a.timer t).running = true :=
      fun _ => ht.path.timer_running
    have hh : a.failed.mode = .halted := rfl
    rw [ht.tick_eq]
    refine ⟨ht.path.epoch, by simp [tickets], fun h => absurd hh h, ?_, fun h => absurd hh h⟩
    intro t
    have ht' : a.failed.timer t = a.timer t := rfl
    have hrt := hr t
    rw [ht']
    cases hm : (m.timer t).running <;> simp_all [tickets]

theorem keyDown (m : Machine) (key : Key) : m.Balanced (m.keyDown key, .ok []) := by
  unfold Machine.keyDown Keypad.press
  cases m.state.keypad.waiting with
  | none => exact of_timers_eq rfl id rfl
  | some x =>
    refine of_timers_eq rfl (fun h hm => h ?_) rfl
    simp [Machine.mode] at hm ⊢
    simp [hm]

theorem respond (m : Machine) {s : Stimulus} (ht : s.isTimerTick = false) (hl : s.loads = 0) :
    m.Balanced (m.respond s) := by
  cases s with
  | tick n => exact tick m n
  | event e =>
    cases e with
    | cpuTick => exact tick m _
    | timerTick => cases ht
    | keyDown key => exact keyDown m _
    | keyUp key => exact of_timers_eq rfl id rfl
    | programLoaded => cases hl
    | programUnavailable => cases hl

end Balanced

theorem tickets_timerTick (m : Machine) (t : Timer) :
    tickets (.ok (m.timerTick t m.epoch).2) =
      if (m.timer t).step.1.running then [⟨t, m.epoch⟩] else [] := by
  rw [tickets, filterMap_timerTick rfl]
  rfl

/-- A program that is loaded or refused finds the timers idle and asks for no tick. -/
structure Renewed (m : Machine) (r : Machine × Response) : Prop where
  epoch : r.1.epoch = m.epoch + 1
  idle : ∀ t, r.1.timer t = .idle
  tickets_eq : tickets r.2 = []

theorem Renewed.respond (m : Machine) {s : Stimulus} (hl : s.loads ≠ 0) :
    s.loads = 1 ∧ m.Renewed (m.respond s) := by
  have hi : ∀ t, State.initial.timers.get t = .idle := by
    intro t
    cases t <;> rfl
  cases s with
  | tick => exact absurd rfl hl
  | event e =>
    cases e with
    | programLoaded program =>
      refine ⟨rfl, ?_⟩
      change m.Renewed (m.load program)
      rcases load_cases m program with h | ⟨fault, h⟩
      · rw [h]
        exact ⟨rfl, hi, rfl⟩
      · rw [h]
        exact ⟨rfl, hi, rfl⟩
    | programUnavailable reason => exact ⟨rfl, rfl, hi, rfl⟩
    | _ => exact absurd rfl hl

end Machine

namespace Flight

/-- The ticks of earlier programs carry earlier epochs, and the timers of this one balance the
ticks in flight. -/
structure Sound (f : Flight) : Prop where
  epoch : f.machine.epoch = UInt32.ofNat f.loads
  past : ∀ k ∈ f.tickets, ∃ l ≤ f.loads, k.epoch = UInt32.ofNat l
  le : ∀ t, f.inFlight t ≤ (f.machine.timer t).running.toNat
  eq : f.machine.mode ≠ .halted → ∀ t, f.inFlight t = (f.machine.timer t).running.toNat

namespace Sound

variable {f : Flight}

theorem start (c : Configuration) (key : ChaCha.CipherKey) : (start c key).Sound where
  epoch := rfl
  past := fun _ hk => absurd hk (Multiset.notMem_zero _)
  le := fun _ => Nat.zero_le _
  eq := fun _ t => by cases t <;> rfl

theorem inFlight_respond {s : Stimulus} (he : (f.machine.respond s).1.epoch = f.machine.epoch)
    (t : Timer) : (f.respond s).inFlight t =
      f.inFlight t + (Chip8.tickets (f.machine.respond s).2).count ⟨t, f.machine.epoch⟩ := by
  have he' : (f.respond s).machine.epoch = f.machine.epoch := he
  change (f.tickets + ↑(Chip8.tickets _)).count ⟨t, _⟩ = _
  rw [he', Multiset.count_add, Multiset.coe_count]
  rfl

/-- A response that loads nothing adds a tick for every timer it starts. -/
theorem respond (h : f.Sound) {s : Stimulus} (ht : s.isTimerTick = false) (hl : s.loads = 0) :
    (f.respond s).Sound := by
  have hb := Machine.Balanced.respond f.machine ht hl
  have hn : (f.respond s).loads = f.loads := by rw [Flight.respond, hl, Nat.add_zero]
  refine ⟨?_, ?_, ?_, ?_⟩
  · rw [hn]
    exact hb.epoch.trans h.epoch
  · intro k hk
    rw [hn]
    rcases Multiset.mem_add.mp hk with hk | hk
    · exact h.past k hk
    · exact ⟨f.loads, Nat.le_refl _, (hb.own k (Multiset.mem_coe.mp hk)).trans h.epoch⟩
  · intro t
    rw [inFlight_respond hb.epoch]
    exact (Nat.add_le_add_right (h.le t) _).trans (hb.le t)
  · intro hm t
    rw [inFlight_respond hb.epoch, h.eq (hb.awake hm) t]
    exact hb.eq hm t

/-- No tick in flight carries the epoch that a load begins. -/
theorem load (h : f.Sound) {s : Stimulus} (hs : s.loads ≠ 0) (hl : (f.respond s).loads < UInt32.size) :
    (f.respond s).Sound := by
  obtain ⟨h1, hr⟩ := Machine.Renewed.respond f.machine hs
  have hn : (f.respond s).loads = f.loads + 1 := by rw [Flight.respond, h1]
  have hk : (f.respond s).tickets = f.tickets := by
    change f.tickets + ↑(Chip8.tickets _) = _
    rw [hr.tickets_eq, Multiset.coe_nil, Multiset.add_zero]
  have he : (f.respond s).machine.epoch = UInt32.ofNat (f.loads + 1) := by
    rw [UInt32.ofNat_add, ← h.epoch]
    exact hr.epoch
  have hz : ∀ t, (f.respond s).inFlight t = 0 := by
    intro t
    rw [inFlight, hk, Multiset.count_eq_zero]
    intro hm
    obtain ⟨l, hle, hle'⟩ := h.past _ hm
    have hc : UInt32.ofNat (f.loads + 1) = UInt32.ofNat l := he.symm.trans hle'
    have hc' := congrArg UInt32.toNat hc
    have hsize : UInt32.size = 4294967296 := rfl
    rw [UInt32.toNat_ofNat', UInt32.toNat_ofNat'] at hc'
    omega
  have hi : ∀ t, ((f.respond s).machine.timer t).running = false := fun t =>
    congrArg Countdown.running (hr.idle t)
  refine ⟨?_, ?_, ?_, ?_⟩
  · rw [hn, he]
  · intro k hm
    rw [hk] at hm
    obtain ⟨l, hle, hle'⟩ := h.past k hm
    exact ⟨l, by omega, hle'⟩
  · intro t
    rw [hz, hi]
    exact Nat.zero_le _
  · intro _ t
    rw [hz, hi]
    rfl

theorem deliver_of_stale (h : f.Sound) {k : Ticket} (hk : k.epoch ≠ f.machine.epoch) :
    (f.deliver k).Sound := by
  have hd : f.deliver k = ⟨f.machine, f.tickets.erase k, f.loads⟩ := by
    rw [deliver_eq, Machine.timerTick_of_stale hk]
    exact congrArg (Flight.mk _ · _) (Multiset.add_zero _)
  have hc : ∀ t, Flight.inFlight ⟨f.machine, f.tickets.erase k, f.loads⟩ t = f.inFlight t := by
    intro t
    refine Multiset.count_erase_of_ne ?_ _
    intro he
    exact hk (congrArg Ticket.epoch he).symm
  rw [hd]
  refine ⟨h.epoch, ?_, ?_, ?_⟩
  · intro j hj
    exact h.past j (Multiset.mem_of_mem_erase hj)
  · intro t
    rw [hc]
    exact h.le t
  · intro ha t
    rw [hc]
    exact h.eq ha t

/-- The current tick of a timer is the only one in flight for it. -/
theorem inFlight_eq_one (h : f.Sound) {t : Timer} (hk : ⟨t, f.machine.epoch⟩ ∈ f.tickets) :
    f.inFlight t = 1 := by
  have hpos : 0 < f.inFlight t := Multiset.count_pos.mpr hk
  have hle := h.le t
  have hb := Bool.toNat_le (f.machine.timer t).running
  omega

theorem inFlight_deliver (f : Flight) (t u : Timer) :
    (f.deliver ⟨t, f.machine.epoch⟩).inFlight u =
      (f.tickets.erase ⟨t, f.machine.epoch⟩).count ⟨u, f.machine.epoch⟩ +
        (if (f.machine.timer t).step.1.running then
          [Ticket.mk t f.machine.epoch] else []).count ⟨u, f.machine.epoch⟩ := by
  have he : (f.deliver ⟨t, f.machine.epoch⟩).machine.epoch = f.machine.epoch :=
    f.machine.epoch_timerTick t _
  rw [inFlight, he, deliver_eq, Multiset.count_add, Multiset.coe_count, Machine.tickets_timerTick]

/-- Another tick is asked for while the timer runs. -/
theorem inFlight_deliver_self (h : f.Sound) {t : Timer}
    (hk : ⟨t, f.machine.epoch⟩ ∈ f.tickets) :
    (f.deliver ⟨t, f.machine.epoch⟩).inFlight t = (f.machine.timer t).step.1.running.toNat := by
  have hone : f.tickets.count ⟨t, f.machine.epoch⟩ = 1 := h.inFlight_eq_one hk
  rw [inFlight_deliver, Multiset.count_erase_self, hone]
  cases (f.machine.timer t).step.1.running <;> simp

theorem inFlight_deliver_other (f : Flight) {t u : Timer} (hu : u ≠ t) :
    (f.deliver ⟨t, f.machine.epoch⟩).inFlight u = f.inFlight u := by
  have hne : Ticket.mk u f.machine.epoch ≠ ⟨t, f.machine.epoch⟩ := fun hc =>
    hu (Ticket.mk.inj hc).1
  have hz : (if (f.machine.timer t).step.1.running then
      [Ticket.mk t f.machine.epoch] else []).count ⟨u, f.machine.epoch⟩ = 0 := by
    apply List.count_eq_zero_of_not_mem
    split
    · exact fun hm => hne (List.mem_singleton.mp hm)
    · exact List.not_mem_nil
  rw [inFlight_deliver, Multiset.count_erase_of_ne hne, hz]
  rfl

theorem deliver_of_current (h : f.Sound) {t : Timer} (hk : ⟨t, f.machine.epoch⟩ ∈ f.tickets) :
    (f.deliver ⟨t, f.machine.epoch⟩).Sound := by
  obtain ⟨timers, hf⟩ := f.machine.timerTick_frame t f.machine.epoch
  have htimer : ∀ u, (f.deliver ⟨t, f.machine.epoch⟩).machine.timer u =
      if u = t then (f.machine.timer t).step.1 else f.machine.timer u :=
    f.machine.timer_timerTick t
  have hmode : (f.deliver ⟨t, f.machine.epoch⟩).machine.mode = f.machine.mode :=
    congrArg (·.state.mode) hf
  refine ⟨(f.machine.epoch_timerTick t _).trans h.epoch, ?_, ?_, ?_⟩
  · intro j hj
    rw [deliver_eq] at hj
    rcases Multiset.mem_add.mp hj with hj | hj
    · exact h.past j (Multiset.mem_of_mem_erase hj)
    · refine ⟨f.loads, Nat.le_refl _, ?_⟩
      rw [Multiset.mem_coe, Machine.tickets_timerTick] at hj
      split at hj
      · rw [List.mem_singleton.mp hj]
        exact h.epoch
      · cases hj
  · intro u
    rw [htimer]
    split
    next hu =>
      rw [hu, h.inFlight_deliver_self hk]
    next hu =>
      rw [inFlight_deliver_other f hu]
      exact h.le u
  · intro ha u
    rw [hmode] at ha
    rw [htimer]
    split
    next hu => rw [hu, h.inFlight_deliver_self hk]
    next hu =>
      rw [inFlight_deliver_other f hu]
      exact h.eq ha u

theorem deliver (h : f.Sound) {k : Ticket} (hk : k ∈ f.tickets) : (f.deliver k).Sound := by
  obtain ⟨t, epoch⟩ := k
  by_cases he : epoch = f.machine.epoch
  · subst he
    exact h.deliver_of_current hk
  · exact h.deliver_of_stale he

end Sound

variable {c : Configuration} {key : ChaCha.CipherKey} {f : Flight}

theorem Reachable.sound (h : f.Reachable c key) (hl : f.loads < UInt32.size) : f.Sound := by
  induction h with
  | start => exact .start c key
  | deliver prior member ih => exact (ih hl).deliver member
  | @respond f s prior other ih =>
    have hp : f.loads < UInt32.size := Nat.lt_of_le_of_lt (Nat.le_add_right f.loads s.loads) hl
    by_cases hs : s.loads = 0
    · exact (ih hp).respond other hs
    · exact (ih hp).load hs hl

/-- While the epochs do not repeat, no tick of a timer is doubled, and none is lost but to a fault. -/
theorem Reachable.inFlight_spec (h : f.Reachable c key) (hl : f.loads < UInt32.size) (t : Timer) :
    f.inFlight t ≤ 1 ∧
      ((f.machine.timer t).running = false → f.inFlight t = 0) ∧
      ((f.machine.timer t).running = true → f.machine.mode ≠ .halted → f.inFlight t = 1) := by
  have hs := h.sound hl
  have hle := hs.le t
  refine ⟨hle.trans (Bool.toNat_le _), ?_, ?_⟩
  · intro hr
    rw [hr] at hle
    exact Nat.le_zero.mp hle
  · intro hr hm
    rw [hs.eq hm t, hr]
    rfl

/-- The program `6005 F015` has set the delay timer after two instructions. -/
theorem inFlight_spec_delay :
    let f := ((start {} 0).respond (.event (.programLoaded [0x60, 0x05, 0xF0, 0x15]))).respond
      (.tick 2)
    f.Reachable {} 0 ∧ f.loads < UInt32.size ∧ (f.machine.timer .delay).running = true ∧
      f.machine.mode ≠ .halted ∧ f.inFlight .delay = 1 := by
  intro f
  have hf : f.Reachable {} 0 := .respond (.respond .start rfl) rfl
  have hl : f.loads < UInt32.size := by decide
  have hr : (f.machine.timer .delay).running = true ∧ f.machine.mode ≠ .halted := by
    decide +kernel
  exact ⟨hf, hl, hr.1, hr.2, (hf.inFlight_spec hl .delay).2.2 hr.1 hr.2⟩

end Flight
end Chip8
