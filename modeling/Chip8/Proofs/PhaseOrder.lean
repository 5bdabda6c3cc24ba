import Chip8.Proofs.Interleavings
import Chip8.Proofs.Turns

/-! # The order of inputs and timer ticks

Before its instructions a cycle handles the keys that were polled and delivers the timer ticks that
are due. In whatever order it did so, it would come to the same session, but for the order of what
has happened in it. -/
namespace Chip8

namespace Session

variable {s s' s₁ s₂ : Session} {e : Event}

theorem perm_push {os os' : Array Occurrence} (h : os.toList.Perm os'.toList) (o : Occurrence) :
    (os.push o).toList.Perm (os'.push o).toList := by
  rw [Array.toList_push, Array.toList_push]
  exact h.append_right [o]

theorem perm_push_push (os : Array Occurrence) (o o' : Occurrence) :
    ((os.push o).push o').toList.Perm ((os.push o').push o).toList := by
  simp only [Array.toList_push, List.append_assoc]
  exact (List.Perm.swap o' o []).append_left _

/-- The sessions are the same but for the order of what has happened in them. -/
def Reordered (s s' : Session) : Prop :=
  ∃ trace log, trace.toList.Perm s.trace.toList ∧ s' = { s with trace, log }

namespace Reordered

theorem refl (s : Session) : s.Reordered s := ⟨s.trace, s.log, .refl _, rfl⟩

theorem trans (h : s.Reordered s₁) (h' : s₁.Reordered s₂) : s.Reordered s₂ := by
  obtain ⟨_, _, hp, rfl⟩ := h
  obtain ⟨trace, log, hp', rfl⟩ := h'
  exact ⟨trace, log, hp'.trans hp, rfl⟩

theorem symm (h : s.Reordered s') : s'.Reordered s := by
  obtain ⟨_, _, hp, rfl⟩ := h
  exact ⟨s.trace, s.log, hp.symm, rfl⟩

theorem handled (h : s.Reordered s') (e : Event) :
    (s.handled e).1.Reordered (s'.handled e).1 := by
  obtain ⟨_, _, hp, rfl⟩ := h
  exact ⟨_, _, perm_push hp _, rfl⟩

theorem performed (h : s.Reordered s') (now : Nat) (e : Effect) :
    (s.performed now e).Reordered (s'.performed now e) := by
  obtain ⟨_, log, hp, rfl⟩ := h
  cases e with
  | schedule => exact ⟨_, log, hp, rfl⟩
  | _ => exact ⟨_, log, perm_push hp _, rfl⟩

theorem carriedOut (h : s.Reordered s') (now : Nat) (es : List Effect) :
    (s.carriedOut now es).Reordered (s'.carriedOut now es) := by
  induction es generalizing s s' with
  | nil => exact h
  | cons e es ih => exact ih (h.performed now e)

theorem fired (h : s.Reordered s') (k : PendingTick) (agenda : Agenda) :
    (s.fired k agenda).Reordered (s'.fired k agenda) := by
  obtain ⟨trace, log, hp, rfl⟩ := h
  have ha : { s with agenda }.Reordered { s with agenda, trace, log } := ⟨_, _, hp, rfl⟩
  exact (ha.handled _).carriedOut ..

theorem drained (h : s.Reordered s') (n : Nat) : (s.drained n).Reordered (s'.drained n) := by
  induction n generalizing s s' with
  | zero => exact h
  | succ n ih =>
    have hp : s'.agenda.popDue? s'.clock = s.agenda.popDue? s.clock := by
      obtain ⟨_, _, _, rfl⟩ := h
      rfl
    rw [Session.drained, Session.drained, hp]
    split
    · exact h
    · exact ih (h.fired _ _)

end Reordered

theorem reordered_handled {e' : Event} (h : e.Apart e') (s : Session) :
    ((s.handled e).1.handled e').1.Reordered ((s.handled e').1.handled e).1 := by
  have hm := (s.machine.swaps_of_apart h).machine
  exact ⟨_, ((s.handled e').1.handled e).1.log, perm_push_push s.trace _ _,
    congrArg (Session.mk · s.agenda s.clock s.cycles s.polls s.renders _ _) hm.symm⟩

/-- The frontend and the agenda do not depend on the events that are still to be handled. -/
theorem reordered_carriedOut (now : Nat) (es : List Effect) (e : Event) (s : Session) :
    ((s.handled e).1.carriedOut now es).Reordered ((s.carriedOut now es).handled e).1 := by
  induction es generalizing s with
  | nil => exact .refl _
  | cons x es ih =>
    have hx : ((s.handled e).1.performed now x).Reordered ((s.performed now x).handled e).1 := by
      cases x with
      | schedule => exact ⟨_, _, .refl _, rfl⟩
      | _ => exact ⟨_, _, perm_push_push s.trace _ _, rfl⟩
    exact (hx.carriedOut now es).trans (ih _)

theorem reordered_fired {k : PendingTick} (h : e.Apart (.timerTick k.timer k.epoch))
    (agenda : Agenda) (s : Session) :
    ((s.handled e).1.fired k agenda).Reordered ((s.fired k agenda).handled e).1 := by
  let tick : Event := .timerTick k.timer k.epoch
  let s₁ : Session := { s with agenda }
  let es := (s.machine.timerTick k.timer k.epoch).2
  have hs : ((s.handled e).1.machine.timerTick k.timer k.epoch).2 = es :=
    Except.ok.inj (s.machine.swaps_of_apart h).second
  have hf : (s.handled e).1.fired k agenda =
      ((s₁.handled e).1.handled tick).1.carriedOut k.due es := by
    rw [fired, hs]
    rfl
  rw [hf]
  exact ((reordered_handled h s₁).carriedOut k.due es).trans (reordered_carriedOut k.due es e _)

def handledAll (es : List Event) (s : Session) : Session :=
  es.foldl (fun s e => (s.handled e).1) s

theorem agenda_handledAll (es : List Event) (s : Session) :
    (s.handledAll es).agenda = s.agenda ∧ (s.handledAll es).clock = s.clock := by
  induction es generalizing s with
  | nil => exact ⟨rfl, rfl⟩
  | cons e es ih => exact ih _

theorem Reordered.handledAll (h : s.Reordered s') (es : List Event) :
    (s.handledAll es).Reordered (s'.handledAll es) := by
  induction es generalizing s s' with
  | nil => exact h
  | cons e es ih => exact ih (h.handled e)

theorem reordered_fired_handledAll {k : PendingTick} {es : List Event}
    (h : ∀ e ∈ es, e.Apart (.timerTick k.timer k.epoch)) (agenda : Agenda) (s : Session) :
    ((s.handledAll es).fired k agenda).Reordered ((s.fired k agenda).handledAll es) := by
  induction es generalizing s with
  | nil => exact .refl _
  | cons e es ih =>
    obtain ⟨he, hes⟩ := List.forall_mem_cons.mp h
    exact (ih hes _).trans ((reordered_fired he agenda s).handledAll es)

theorem drained_of_settled (h : s.agenda.popDue? s.clock = none) (n : Nat) : s.drained n = s := by
  cases n with
  | zero => rfl
  | succ n => rw [drained, h]

/-- The keys are handled and the due ticks delivered in some order, until nothing is left to do. -/
inductive Mixes : List Event → Session → Session → Prop
  | done {s : Session} (settled : s.agenda.popDue? s.clock = none) : Mixes [] s s
  | key {e : Event} {es : List Event} {s s' : Session} (rest : Mixes es (s.handled e).1 s') :
      Mixes (e :: es) s s'
  | tick {es : List Event} {s s' : Session} {k : PendingTick} {agenda : Agenda}
      (due : s.agenda.popDue? s.clock = some (k, agenda)) (rest : Mixes es (s.fired k agenda) s') :
      Mixes es s s'

namespace Mixes

variable {es : List Event} {n : Nat}

theorem of_drained (h : s.dueBound ≤ n) : Mixes [] s (s.drained n) := by
  induction n generalizing s with
  | zero => exact .done (popDue?_drained h)
  | succ n ih =>
    have hp := popDue?_drained h
    unfold drained at hp ⊢
    split
    next hn => exact .done hn
    next k agenda hk =>
      have hlt := dueBound_fired_lt hk
      exact .tick hk (ih (by omega))

/-- All of the keys can be first. -/
theorem of_keys (h : Mixes [] (s.handledAll es) s') : Mixes es s s' := by
  induction es generalizing s with
  | nil => exact h
  | cons e es ih => exact .key (ih h)

/-- Whatever the order, it is as good as that with all of the keys first. -/
theorem reordered (h : Mixes es s s') (hk : ∀ e ∈ es, e.lane? = some .keys)
    (hn : (s.handledAll es).dueBound ≤ n) : s'.Reordered ((s.handledAll es).drained n) := by
  induction h generalizing n with
  | @done s settled =>
    have hd : (s.handledAll []).drained n = s := drained_of_settled settled n
    rw [hd]
    exact .refl s
  | key rest ih => exact ih (List.forall_mem_cons.mp hk).2 hn
  | @tick es s s' k agenda due rest ih =>
    -- The tick is still the first one that is due after all of the keys.
    have hs := reordered_fired_handledAll (k := k)
      (fun e he => ⟨_, _, hk e he, rfl, nofun⟩) agenda s
    have hp : (s.handledAll es).agenda.popDue? (s.handledAll es).clock = some (k, agenda) := by
      rw [(agenda_handledAll es s).1, (agenda_handledAll es s).2, due]
    have hlt := dueBound_fired_lt hp
    cases n with
    | zero => omega
    | succ n =>
      have hb : ((s.fired k agenda).handledAll es).dueBound =
          ((s.handledAll es).fired k agenda).dueBound := by
        obtain ⟨_, _, _, h⟩ := hs
        rw [h]
        rfl
      rw [drained, hp]
      exact (ih hk (by omega)).trans (hs.symm.drained n)

end Mixes

theorem lane_of_keys {inputs : List Input} : ∀ e ∈ keys inputs, e.lane? = some .keys := by
  intro e he
  obtain ⟨_, rfl | rfl⟩ := eq_of_mem_keys he <;> rfl

end Session

open Session SessionM in
/-- However key events, ticks of the delay timer and ticks of the sound timer are interleaved, they
leave the same machine, and each event is answered as if the other two lists were not there. So the
keys of a cycle and the ticks that are due in it can be handled in any order. -/
theorem Machine.order_independent :
    (∀ (m : Machine) (strokes : List Event) (delays sounds : List UInt32) (es : List Event),
      (∀ e ∈ strokes, e.lane? = some .keys) →
      Interleaving strokes (delays.map (.timerTick .delay)) (sounds.map (.timerTick .sound)) es →
        m.handleAll es = m.handleAll
            (strokes ++ delays.map (.timerTick .delay) ++ sounds.map (.timerTick .sound)) ∧
          (m.exchanges es).filter (·.1.lane? = some .keys) = m.exchanges strokes ∧
          (m.exchanges es).filter (·.1.lane? = some (.timer .delay)) =
            m.exchanges (delays.map (.timerTick .delay)) ∧
          (m.exchanges es).filter (·.1.lane? = some (.timer .sound)) =
            m.exchanges (sounds.map (.timerTick .sound))) ∧
      ∀ (f : Frontend) (s : Session), .quit ∉ f.inputs (s.polls + 1) →
        ∃ u, (poll f >>= fun _ => drainDue f) s = .ok () u ∧
          Mixes (keys (f.inputs (s.polls + 1))) s.polled u ∧
          ∀ u', Mixes (keys (f.inputs (s.polls + 1))) s.polled u' → u'.Reordered u := by
  constructor
  · intro m strokes delays sounds es hk h
    have hd : ∀ e ∈ delays.map (Event.timerTick .delay), e.lane? = some (.timer .delay) := by
      simp [Event.lane?]
    have hs : ∀ e ∈ sounds.map (Event.timerTick .sound), e.lane? = some (.timer .sound) := by
      simp [Event.lane?]
    have h₁₂ : Lane.keys ≠ .timer .delay := nofun
    have h₁₃ : Lane.keys ≠ .timer .sound := nofun
    have h₂₃ : Lane.timer .delay ≠ .timer .sound := by decide
    exact ⟨handleAll_interleaving h h₁₂ h₁₃ h₂₃ hk hd hs m,
      filter_exchanges h h₁₂ h₁₃ h₂₃ hk hd hs m,
      filter_exchanges h.rotate h₂₃ h₁₂.symm h₁₃.symm hd hs hk m,
      filter_exchanges h.rotate.rotate h₁₃.symm h₂₃.symm h₁₂ hs hk hd m⟩
  · intro f s stays
    have hp := runs_poll f s
    rw [if_neg stays] at hp
    refine ⟨_, (bind_of_ok hp.result _).trans (drainDue_eq f _), ?_, fun u' h => ?_⟩
    · exact .of_keys (.of_drained (Nat.le_refl _))
    · exact h.reordered lane_of_keys (Nat.le_refl _)

/-- The machine waits for a key while both of its timers run, and one tick is stale. -/
theorem Machine.order_independent_waiting :
    let m := (((new {} 0).booted [0x60, 0x05, 0xF0, 0x15, 0xF0, 0x18, 0xF1, 0x0A]).tick 4).1
    let es : List Event := [.timerTick .sound 1, .keyDown 3, .timerTick .delay 1,
      .timerTick .delay 0, .keyUp 3]
    let s : Session :=
      { Session.start m .silent with agenda := Agenda.empty.schedule ⟨0, .sound, 1⟩ }
    m.mode = .awaitingKey ∧ (m.handleAll es).mode = .running ∧
      m.handleAll es = m.handleAll [.keyDown 3, .keyUp 3, .timerTick .delay 1, .timerTick .delay 0,
        .timerTick .sound 1] ∧
      (m.exchanges es).filter (·.1.lane? = some (.timer .sound)) =
        [(.timerTick .sound 1, .ok [.playSound, .schedule .sound 1 timerPeriod])] ∧
      ∃ u : Session, ∀ u', Session.Mixes [.keyDown 3] s.polled u' → u'.machine = u.machine := by
  intro m es s
  have hw : m.mode = .awaitingKey ∧ (m.handleAll es).mode = .running ∧
      (m.timerTick .sound 1).2 = [.playSound, .schedule .sound 1 timerPeriod] := by
    decide +kernel
  have hl : Interleaving [.keyDown 3, .keyUp 3] ([1, 0].map (Event.timerTick .delay))
      ([1].map (Event.timerTick .sound)) es :=
    .third (.first (.second (.second (.first .nil))))
  obtain ⟨hm, _, _, hs⟩ := order_independent.1 m _ _ _ es (by decide) hl
  obtain ⟨u, _, _, hu⟩ := order_independent.2 ⟨fun _ => [.keyDown 3], fun _ => none⟩ s (by decide)
  have he (m : Machine) : m.exchanges ([1].map (Event.timerTick .sound)) =
      [(.timerTick .sound 1, .ok (m.timerTick .sound 1).2)] := rfl
  rw [he, hw.2.2] at hs
  refine ⟨hw.1, hw.2.1, hm, hs, u, fun u' h => ?_⟩
  obtain ⟨_, _, _, hu⟩ := hu u' h
  rw [hu]

end Chip8
