import Chip8.Playback
import Chip8.Proofs.Cycles
import Chip8.Proofs.Flushing

/-! # Playing back

A run that puts out its output before every cycle and then forgets it puts out, all in all, what is
reported of the whole run. -/
namespace Chip8

namespace Terminal

/-- The terminal with the output of `earlier` in front. -/
def behind (earlier t : Terminal) : Terminal :=
  { t with
    stdout := earlier.stdout ++ t.stdout
    stderr := earlier.stderr ++ t.stderr
    notes := earlier.notes ++ t.notes }

variable (earlier t : Terminal)

theorem behind_flushed : t.behind t.flushed = t := by
  have ho : t.stdout ++ "" = t.stdout := String.append_empty
  have he : t.stderr ++ "" = t.stderr := String.append_empty
  have hn : t.notes ++ #[] = t.notes := Array.append_empty
  rw [behind, flushed, ho, he, hn]

theorem behind_receive (c : Call) :
    (earlier.behind t).receive c = earlier.behind (t.receive c) := by
  cases c with
  | render | poll => rfl
  | beep => rw [behind, behind, receive, receive, String.append_assoc]
  | finish frame =>
    rw [behind, behind, receive, receive, ← Array.append_push]
    simp only [String.append_assoc]

theorem behind_receiveAll (cs : List Call) :
    (earlier.behind t).receiveAll cs = earlier.behind (t.receiveAll cs) := by
  induction cs generalizing t with
  | nil => rfl
  | cons c cs ih =>
    exact (congrArg (receiveAll · cs) (behind_receive earlier t c)).trans (ih (t.receive c))

theorem receiveAll_append (cs cs' : List Call) :
    t.receiveAll (cs ++ cs') =
      (t.receiveAll cs).behind ((t.receiveAll cs).flushed.receiveAll cs') := by
  rw [← behind_receiveAll, behind_flushed]
  exact List.foldl_append

/-- Nothing is noted before the end of a session. -/
theorem notes_receiveAll {cs : List Call} (h : ∀ frame, .finish frame ∉ cs) :
    (t.receiveAll cs).notes = t.notes := by
  induction cs generalizing t with
  | nil => rfl
  | cons c cs ih =>
    have hc : (t.receive c).notes = t.notes := by
      cases c with
      | finish frame => exact absurd List.mem_cons_self (h frame)
      | _ => rfl
    exact (ih (t.receive c) fun frame hm => h frame (List.mem_cons_of_mem c hm)).trans hc

end Terminal

namespace Session

open SessionM

variable (earlier s : Session)

theorem behind_noted (n : Note) : (earlier.behind s).noted n = earlier.behind (s.noted n) := by
  have hl : (earlier.behind s).log.add n = earlier.log.behind (s.log.add n) :=
    earlier.log.behind_add s.log n
  rw [noted, hl]
  rfl

theorem behind_called (c : Call) : (earlier.behind s).called c = earlier.behind (s.called c) := by
  have ht : (earlier.behind s).trace.push (.call c) = earlier.trace ++ s.trace.push (.call c) :=
    Array.append_push.symm
  rw [called, ht]
  rfl

theorem behind_finished : (earlier.behind s).finished = earlier.behind s.finished :=
  (congrArg (called _) (behind_noted earlier s _)).trans (behind_called earlier _ _)

theorem behind_close (exit : Exit) :
    (earlier.behind s).close exit = earlier.behind (s.close exit) := by
  cases exit with
  | limit => exact (congrArg finished (behind_noted earlier s _)).trans (behind_finished earlier _)
  | quit => exact behind_finished earlier s
  | halted fault =>
    exact (congrArg finished (behind_noted earlier s _)).trans (behind_finished earlier _)
  | renderFailed reason => rfl

variable {f : Frontend} {p : Pace} {n : Nat} {s s' : Session} {exit : Exit}

theorem runFor_of_dispatch_error {es : List Effect} (h : dispatch f s.clock es s = .error exit s') :
    runFor f p n es s = some ⟨s'.close exit, exit⟩ := by
  rw [runFor, play_eq, bind_of_error h]

theorem runFor_of_dispatch_ok {es : List Effect} (h : dispatch f s.clock es s = .ok () s') :
    runFor f p n es s = runFor f p n [] s' := by
  rw [runFor, play_eq, bind_of_ok h]
  rfl

theorem runFor_succ_of_error (h : cycle f p s = .error exit s') :
    runFor f p (n + 1) [] s = some ⟨s'.close exit, exit⟩ := by
  have hp : play f p (n + 1) [] s = .error exit s' := bind_of_error h _
  rw [runFor, hp]

theorem runFor_succ_of_ok (h : cycle f p s = .ok () s') :
    runFor f p (n + 1) [] s = runFor f p n [] s' := by
  have hp : play f p (n + 1) [] s = play f p n [] s' := bind_of_ok h _
  rw [runFor, hp, runFor]

theorem runFor_behind (earlier s : Session) :
    runFor f p n [] (earlier.behind s) =
      (runFor f p n [] s).map fun o => ⟨earlier.behind o.session, o.exit⟩ := by
  have steady := steady_play f p n []
  unfold runFor
  cases hp : play f p n [] s with
  | ok a s' =>
    rw [steady.ok_behind hp earlier]
    rfl
  | error exit s' =>
    rw [steady.error_behind hp earlier]
    exact congrArg (fun s => some (Outcome.mk s exit)) (behind_close earlier s' exit)

theorem Open.not_mem_calls {log : Log} (h : Open log s.record) (frame : Screen) :
    .finish frame ∉ s.calls := by
  intro hm
  obtain ⟨occurrence, hmem, hc⟩ := List.mem_filterMap.mp hm
  cases occurrence with
  | call c =>
    cases hc
    exact h.unfinished frame hmem
  | event e => cases hc

end Session

namespace Launch

variable {t : Terminal} {earlier : Session}

theorem putOut_behind (ht : t.notes = #[]) (hc : ∀ frame, .finish frame ∉ earlier.calls)
    (s : Session) :
    putOut t (earlier.behind s) =
      (putOut t earlier).followedBy (putOut (t.receiveAll earlier.calls).flushed s) := by
  have hu : (t.receiveAll earlier.calls).notes = #[] := (t.notes_receiveAll hc).trans ht
  have hnotes : ∀ v : Terminal, ((t.receiveAll earlier.calls).behind v).notes = v.notes := by
    intro v
    rw [Terminal.behind, hu, Array.empty_append]
  have hlog : (earlier.behind s).log.addAll = fun ns => earlier.log.behind (s.log.addAll ns) :=
    funext fun ns => earlier.log.behind_addAll s.log ns
  dsimp only [putOut]
  rw [Session.calls_behind, Terminal.receiveAll_append, hnotes, hu, hlog]
  rfl

theorem conclude_behind (ht : t.notes = #[]) (hc : ∀ frame, .finish frame ∉ earlier.calls)
    (s : Session) (exit : Exit) :
    conclude t ⟨earlier.behind s, exit⟩ =
      (putOut t earlier).followedBy (conclude (t.receiveAll earlier.calls).flushed ⟨s, exit⟩) := by
  have hfail : ∀ (r next : Report) (message : String),
      failWith message (r.followedBy next) = r.followedBy (failWith message next) :=
    fun r next message => congrArg (Report.mk 1 _ _ next.complaint)
      (r.log.behind_add next.log (.failed message))
  unfold conclude
  rw [putOut_behind ht hc]
  cases exit.error? with
  | none => rfl
  | some message => exact hfail _ _ message

end Launch

namespace Playback

open Session SessionM

variable {o : Options} {p : Playback} {s : Session} {exit : Exit}

theorem next_of_ok (h : cycle Terminal.frontend o.pace p.session.flushed = .ok () s) :
    p.next o = .ok ⟨s, (p.terminal.receiveAll p.session.calls).flushed⟩ := by
  have hp : cycle Terminal.frontend o.pace p.flushed.session = .ok () s := h
  rw [next, advance, hp]
  rfl

theorem next_of_error (h : cycle Terminal.frontend o.pace p.session.flushed = .error exit s) :
    p.next o = .error (Launch.conclude (p.terminal.receiveAll p.session.calls).flushed
      ⟨s.close exit, exit⟩) := by
  have hp : cycle Terminal.frontend o.pace p.flushed.session = .error exit s := h
  rw [next, advance, hp]
  rfl

/-- The output of `n` cycles is what is put out at their end when nothing is put out before. -/
theorem outputs_eq (n : Nat) {log : Log} (ht : p.terminal.notes = #[])
    (ho : Open log p.session.record) :
    p.outputs o n =
      (runFor Terminal.frontend o.pace n [] p.session).map (Launch.conclude p.terminal) := by
  induction n generalizing p log with
  | zero => rfl
  | succ n ih =>
    have steady := steady_cycle Terminal.frontend o.pace
    have hflushed : Open p.session.flushed.log p.session.flushed.record :=
      ⟨⟨[], List.forall_mem_nil _, rfl⟩, fun _ => List.not_mem_nil⟩
    -- one side plays the flushed session, the other one the same with its record in front
    rw [← p.session.behind_flushed]
    cases hstep : cycle Terminal.frontend o.pace p.session.flushed with
    | error exit s =>
      rw [runFor_succ_of_error (steady.error_behind hstep p.session), outputs, next_of_error hstep,
        behind_close]
      exact congrArg some (Launch.conclude_behind ht ho.not_mem_calls _ exit).symm
    | ok a s =>
      have hs : Open p.session.flushed.log s.record := steady.open_of_ok hstep hflushed
      rw [runFor_succ_of_ok (steady.ok_behind hstep p.session), runFor_behind, outputs,
        next_of_ok hstep]
      dsimp only
      rw [ih rfl hs, Option.map_map, Option.map_map]
      congr 1
      funext outcome
      exact (Launch.conclude_behind ht ho.not_mem_calls _ _).symm

theorem play_eq (o : Options) (key : ChaCha.CipherKey) (program : Except String (List UInt8))
    (log : Log) : play o key program log = Launch.play o key program log := by
  unfold play start Launch.play
  cases hb : Launch.boot o.configuration key (Launch.programEvent o.path program) log with
  | mk s response =>
    cases response with
    | error fault => rfl
    | ok effects =>
      have hopen : Open s.log s.record := by
        have hs : s = (Launch.boot o.configuration key _ log).1 := congrArg Prod.fst hb.symm
        refine ⟨⟨[], List.forall_mem_nil _, rfl⟩, fun frame hm => ?_⟩
        rw [hs] at hm
        cases List.mem_singleton.mp hm
      dsimp only
      unfold advance run
      cases hd : dispatch Terminal.frontend s.clock effects s with
      | error exit s' =>
        rw [runFor_of_dispatch_error hd]
        rfl
      | ok a s' =>
        have hs' := (steady_dispatch _ _ _).open_of_ok hd hopen
        rw [runFor_of_dispatch_ok hd]
        exact outputs_eq _ rfl hs'

/-- What a run puts out piece by piece is its report. -/
theorem report_eq (read : Reader) (key : ChaCha.CipherKey) (log : Log) (arguments : List String) :
    report read key log arguments = Launch.report read key log arguments := by
  unfold report Launch.report
  cases CommandLine.parse arguments with
  | error refusal => rfl
  | ok o => exact play_eq o key (read o.path) log

end Playback
end Chip8
