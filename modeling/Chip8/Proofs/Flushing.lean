import Chip8.Proofs.Narrations
import Chip8.Proofs.SessionSteps

/-! # Flushing

What has happened in a session and what has been noted of it do not count for what it does next. So
it goes on as before when all that has been put out and forgotten. -/
namespace Chip8

namespace Log

variable (earlier l : Log)

theorem behind_add (n : Note) : (earlier.behind l).add n = earlier.behind (l.add n) := by
  have ha : (earlier.behind l).admits = l.admits := rfl
  unfold add
  rw [ha]
  split
  · rw [behind, behind, ← Array.append_push]
  · rfl

theorem behind_addAll (ns : List Note) :
    (earlier.behind l).addAll ns = earlier.behind (l.addAll ns) := by
  induction ns generalizing l with
  | nil => rfl
  | cons n ns ih => exact (congrArg (addAll · ns) (behind_add earlier l n)).trans (ih _)

theorem Adds.behind {f : Log → Log} (h : Adds f) (earlier l : Log) :
    f (earlier.behind l) = earlier.behind (f l) := by
  obtain ⟨ns, _, hf⟩ := h
  rw [hf, hf, behind_addAll]

end Log

namespace Session

open SessionM

/-- The session with what happened in `earlier` in front. -/
def behind (earlier s : Session) : Session :=
  { s with trace := earlier.trace ++ s.trace, log := earlier.log.behind s.log }

theorem behind_flushed (s : Session) : s.behind s.flushed = s := by
  have ht : s.trace ++ #[] = s.trace := Array.append_empty
  have hl : s.log.behind (.upTo s.log.verbosity) = s.log := by
    rw [Log.behind, Log.upTo, Array.append_empty]
  rw [behind, flushed, ht, hl]

theorem calls_behind (earlier s : Session) :
    (earlier.behind s).calls = earlier.calls ++ s.calls := by
  rw [calls, behind, Array.toList_append, List.filterMap_append]
  rfl

/-- What a session has gone through, and what has been noted of it. -/
abbrev Record := Array Occurrence × Log

def record (s : Session) : Record := (s.trace, s.log)

/-- A relation between the records of two sessions that lasts until one of them is closed. -/
structure Persists (K : Record → Record → Prop) : Prop where
  called : ∀ {trace log trace' log'} {c : Call}, (∀ frame, c ≠ .finish frame) →
    K (trace, log) (trace', log') → K (trace.push (.call c), log) (trace'.push (.call c), log')
  handled : ∀ {trace log trace' log'} {e : Event} {f : Log → Log}, Log.Adds f →
    K (trace, log) (trace', log') →
      K (trace.push (.event e), f log) (trace'.push (.event e), f log')

variable {K : Record → Record → Prop}

/-- The sessions have related records and are equal otherwise. -/
def Matches (K : Record → Record → Prop) (s s' : Session) : Prop :=
  ∃ trace log, K s.record (trace, log) ∧ s' = { s with trace, log }

namespace Matches

variable {s s' : Session}

theorem rendered (h : Persists K) (hs : Matches K s s') (frame : Screen) :
    Matches K (s.rendered frame) (s'.rendered frame) := by
  obtain ⟨_, _, hk, rfl⟩ := hs
  exact ⟨_, _, h.called nofun hk, rfl⟩

theorem beeped (h : Persists K) (hs : Matches K s s') :
    Matches K (s.called .beep) (s'.called .beep) := by
  obtain ⟨_, _, hk, rfl⟩ := hs
  exact ⟨_, _, h.called nofun hk, rfl⟩

theorem polled (h : Persists K) (hs : Matches K s s') : Matches K s.polled s'.polled := by
  obtain ⟨_, _, hk, rfl⟩ := hs
  exact ⟨_, _, h.called nofun hk, rfl⟩

theorem handled (h : Persists K) (hs : Matches K s s') {e : Event} (he : e.quoted? = none) :
    Matches K (s.handled e).1 (s'.handled e).1 ∧ (s'.handled e).2 = (s.handled e).2 := by
  obtain ⟨_, _, hk, rfl⟩ := hs
  exact ⟨⟨_, _, h.handled (s.machine.adds_narrate_of_quoted? he) hk, rfl⟩, rfl⟩

end Matches

/-- The same result, in sessions that match. -/
inductive Agree (K : Record → Record → Prop) {α : Type} :
    EStateM.Result Exit Session α → EStateM.Result Exit Session α → Prop
  | ok {s s' : Session} (a : α) (hs : Matches K s s') : Agree K (.ok a s) (.ok a s')
  | error {s s' : Session} (exit : Exit) (hs : Matches K s s') :
      Agree K (.error exit s) (.error exit s')

namespace Agree

variable {α : Type} {r r' : EStateM.Result Exit Session α} {s : Session}

theorem of_ok (h : Agree K r r') {a : α} (hr : r = .ok a s) :
    ∃ s', r' = .ok a s' ∧ Matches K s s' := by
  subst hr
  obtain ⟨_, hs⟩ := h
  exact ⟨_, rfl, hs⟩

theorem of_error (h : Agree K r r') {exit : Exit} (hr : r = .error exit s) :
    ∃ s', r' = .error exit s' ∧ Matches K s s' := by
  subst hr
  obtain _ | ⟨_, hs⟩ := h
  exact ⟨_, rfl, hs⟩

end Agree

/-- Sessions that match take the same step. -/
def Respects (K : Record → Record → Prop) {α : Type} (x : SessionM α) : Prop :=
  ∀ s s', Matches K s s' → Agree K (x s) (x s')

namespace Respects

variable {α β : Type}

theorem bind {x : SessionM α} {k : α → SessionM β} (hx : Respects K x)
    (hk : ∀ a, Respects K (k a)) : Respects K (x >>= k) := by
  intro s s' hs
  cases hr : x s with
  | ok a s₁ =>
    obtain ⟨s₁', hr', hs⟩ := (hx s s' hs).of_ok hr
    rw [bind_of_ok hr, bind_of_ok hr']
    exact hk a _ _ hs
  | error exit s₁ =>
    obtain ⟨s₁', hr', hs⟩ := (hx s s' hs).of_error hr
    rw [bind_of_error hr, bind_of_error hr']
    exact .error exit hs

theorem pure (a : α) : Respects K (Pure.pure a) := fun _ _ hs => .ok a hs

theorem throw (exit : Exit) : Respects K (throw exit : SessionM α) :=
  fun _ _ hs => .error exit hs

theorem modify {g : Session → Session} (h : ∀ {s s'}, Matches K s s' → Matches K (g s) (g s')) :
    Respects K (modify g) := fun _ _ hs => .ok () (h hs)

/-- What has happened and been noted must not be read. -/
theorem get_bind {k : Session → SessionM α} (h : ∀ s, Respects K (k s))
    (same : ∀ s trace log, k { s with trace, log } = k s) : Respects K (get >>= k) := by
  intro s s' hs
  obtain ⟨trace, log, _, rfl⟩ := id hs
  rw [bind_of_ok (get_eq s), bind_of_ok (get_eq _), same s trace log]
  exact h s _ _ hs

end Respects

section

variable (h : Persists K) (f : Frontend) (p : Pace)

include h

theorem respects_perform (now : Nat) (e : Effect) : Respects K (perform f now e) := by
  cases e with
  | render frame =>
    refine .bind (.modify fun hs => hs.rendered h frame) fun _ =>
      .get_bind (fun s => ?_) fun _ _ _ => rfl
    split
    · exact .pure _
    · exact .throw _
  | playSound => exact .modify fun hs => hs.beeped h
  | schedule t epoch after =>
    refine .modify fun hs => ?_
    obtain ⟨_, _, hk, rfl⟩ := hs
    exact ⟨_, _, hk, rfl⟩

theorem respects_dispatch (now : Nat) (es : List Effect) : Respects K (dispatch f now es) := by
  induction es with
  | nil => exact .pure _
  | cons e es ih => exact (respects_perform h f now e).bind fun _ => ih

theorem respects_deliver {e : Event} (he : e.quoted? = none) :
    Respects K (deliver e) := by
  have hg : Respects K (modifyGet fun s : Session => ((s.handled e).2, (s.handled e).1)) := by
    intro s s' hs
    obtain ⟨hm, hr⟩ := hs.handled h he
    change Agree K (.ok (s.handled e).2 _) (.ok (s'.handled e).2 _)
    rw [hr]
    exact .ok _ hm
  refine .bind hg fun response => ?_
  split
  · exact .pure _
  · exact .throw _

theorem respects_answer {e : Event} (he : e.quoted? = none) :
    Respects K (answer f e) :=
  (respects_deliver h he).bind fun _ =>
    .get_bind (fun _ => respects_dispatch h f _ _) fun _ _ _ => rfl

theorem respects_feed (inputs : List Input) : Respects K (feed f inputs) := by
  induction inputs with
  | nil => exact .pure _
  | cons i inputs ih =>
    cases i with
    | quit => exact .throw _
    | keyDown key => exact (respects_answer h f rfl).bind fun _ => ih
    | keyUp key => exact (respects_answer h f rfl).bind fun _ => ih

theorem respects_drain (n : Nat) : Respects K (drain f n) := by
  induction n with
  | zero => exact .pure _
  | succ n ih =>
    refine .get_bind (fun s => .get_bind (fun s' => ?_) fun _ _ _ => rfl) fun _ _ _ => rfl
    split
    · exact .pure _
    · refine .bind (.modify fun hs => ?_) fun _ => (respects_deliver h rfl).bind fun _ =>
        (respects_dispatch h f _ _).bind fun _ => ih
      obtain ⟨_, _, hk, rfl⟩ := hs
      exact ⟨_, _, hk, rfl⟩

theorem respects_cycle : Respects K (cycle f p) := by
  have limit : Respects K (checkLimit p) := by
    refine .get_bind (fun s => ?_) fun _ _ _ => rfl
    split
    · exact .throw _
    · exact .pure _
  have poll : Respects K (poll f) :=
    .bind (.modify fun hs => hs.polled h) fun _ =>
      .get_bind (fun _ => respects_feed h f _) fun _ _ _ => rfl
  have drain : Respects K (drainDue f) :=
    .get_bind (fun _ => respects_drain h f _) fun _ _ _ => rfl
  have compute : Respects K (compute f p) := by
    refine (respects_answer h f rfl).bind fun _ => .modify fun hs => ?_
    obtain ⟨_, _, hk, rfl⟩ := hs
    exact ⟨_, _, hk, rfl⟩
  exact .bind (limit.bind fun _ => poll.bind fun _ => drain) fun _ => compute

theorem respects_repeatCycle (n : Nat) : Respects K (repeatCycle f p n) := by
  induction n with
  | zero => exact .pure _
  | succ n ih => exact (respects_cycle h f p).bind fun _ => ih

theorem respects_play (n : Nat) (es : List Effect) : Respects K (play f p n es) :=
  .get_bind (fun _ => (respects_dispatch h f _ _).bind fun _ => respects_repeatCycle h f p n)
    fun _ _ _ => rfl

end

/-- A step that reads neither what has happened nor what has been noted. -/
def Steady {α : Type} (x : SessionM α) : Prop := ∀ K, Persists K → Respects K x

theorem steady_dispatch (f : Frontend) (now : Nat) (es : List Effect) :
    Steady (dispatch f now es) := fun _ h => respects_dispatch h f now es

theorem steady_cycle (f : Frontend) (p : Pace) : Steady (cycle f p) := fun _ h =>
  respects_cycle h f p

theorem steady_play (f : Frontend) (p : Pace) (n : Nat) (es : List Effect) :
    Steady (play f p n es) := fun _ h => respects_play h f p n es

/-- The second record is the first one with what happened in `earlier` in front. -/
def InFront (earlier : Session) (r r' : Record) : Prop :=
  r' = (earlier.trace ++ r.1, earlier.log.behind r.2)

theorem matches_behind (earlier s : Session) : Matches (InFront earlier) s (earlier.behind s) :=
  ⟨_, _, rfl, rfl⟩

theorem persists_inFront (earlier : Session) : Persists (InFront earlier) where
  called := by
    rintro trace log _ _ c _ ⟨⟩
    rw [InFront, Array.append_push]
  handled := by
    rintro trace log _ _ e f hf ⟨⟩
    rw [InFront, Array.append_push, hf.behind]

/-- The session is not closed yet, and what has been added to `log` rings no bell. -/
structure Open (log : Log) (r : Record) : Prop where
  log : log.Gains r.2
  unfinished : ∀ frame, .call (.finish frame) ∉ r.1.toList

theorem persists_open (log : Log) : Persists fun r r' => r' = r ∧ Open log r where
  called := by
    rintro trace log' _ _ c hc ⟨⟨⟩, ho⟩
    refine ⟨rfl, ho.log, fun frame hm => ?_⟩
    rcases List.mem_append.mp (Array.toList_push ▸ hm) with hm | hm
    · exact ho.unfinished frame hm
    · cases List.mem_singleton.mp hm
      exact hc frame rfl
  handled := by
    rintro trace log' _ _ e f hf ⟨⟨⟩, ho⟩
    refine ⟨rfl, ho.log.trans (.of_adds hf log'), fun frame hm => ?_⟩
    rcases List.mem_append.mp (Array.toList_push ▸ hm) with hm | hm
    · exact ho.unfinished frame hm
    · cases List.mem_singleton.mp hm

namespace Steady

variable {α : Type} {x : SessionM α} {s s' : Session} {a : α} {exit : Exit} {log : Log}

theorem ok_behind (hx : Steady x) (h : x s = .ok a s') (earlier : Session) :
    x (earlier.behind s) = .ok a (earlier.behind s') := by
  have ha := hx _ (persists_inFront earlier) s _ (matches_behind earlier s)
  obtain ⟨_, hr, _, _, ⟨⟩, rfl⟩ := ha.of_ok h
  exact hr

theorem error_behind (hx : Steady x) (h : x s = .error exit s') (earlier : Session) :
    x (earlier.behind s) = .error exit (earlier.behind s') := by
  have ha := hx _ (persists_inFront earlier) s _ (matches_behind earlier s)
  obtain ⟨_, hr, _, _, ⟨⟩, rfl⟩ := ha.of_error h
  exact hr

theorem open_of_ok (hx : Steady x) (h : x s = .ok a s') (ho : Open log s.record) :
    Open log s'.record := by
  have hs : Matches (fun r r' => r' = r ∧ Open log r) s s := ⟨_, _, ⟨rfl, ho⟩, rfl⟩
  obtain ⟨_, _, _, _, ⟨_, ho'⟩, _⟩ := (hx _ (persists_open log) s s hs).of_ok h
  exact ho'

end Steady

end Session
end Chip8
