import Chip8.Proofs.Courses

/-! # Closing

At the end of a session the frontend is handed the display once, as its last call. A rendering that
fails is the last call itself: the frontend is not told that the session is over. -/
namespace Chip8

def Call.isFinish : Call → Bool
  | finish _ => true
  | _ => false

def Occurrence.call? : Occurrence → Option Call
  | call c => some c
  | event _ => none

theorem Session.Leads.calls {s s' : Session} {os : List Occurrence} (h : s.Leads os s') :
    s'.calls = s.calls ++ os.filterMap Occurrence.call? := by
  unfold Session.calls
  rw [h.trace, List.filterMap_append]
  rfl

/-- None of the occurrences hands over a display. -/
def Unclosed (os : List Occurrence) : Prop := ∀ frame, .call (.finish frame) ∉ os

section

variable {f : Frontend} {p : Pace} {n : Nat} {es : List Effect} {s s' : Session}
  {os os' : List Occurrence} {exit : Option Exit}

theorem Unclosed.append (h : Unclosed os) (h' : Unclosed os') : Unclosed (os ++ os') := by
  intro frame hm
  rcases List.mem_append.mp hm with hm | hm
  · exact h frame hm
  · exact h' frame hm

theorem Unclosed.cons {o : Occurrence} (ho : ∀ frame, o ≠ .call (.finish frame))
    (h : Unclosed os) : Unclosed (o :: os) := by
  intro frame hm
  rcases List.mem_cons.mp hm with rfl | hm
  · exact ho frame rfl
  · exact h frame hm

theorem Unclosed.not_mem_calls (h : Unclosed os) (frame : Screen) :
    .finish frame ∉ os.filterMap Occurrence.call? := by
  intro hm
  obtain ⟨o, ho, hc⟩ := List.mem_filterMap.mp hm
  cases o with
  | call c =>
    cases hc
    exact h frame ho
  | event e => cases hc

theorem unclosed_nil : Unclosed [] := fun _ hm => nomatch hm

theorem unclosed_showing (fs : List Screen) : Unclosed (fs.map showing) := by
  intro frame hm
  obtain ⟨_, _, h⟩ := List.mem_map.mp hm
  cases h

theorem Polling.unclosed (h : Polling os) : Unclosed os := by
  obtain ⟨rest, rfl, hr⟩ := h
  refine .cons nofun fun frame hm => ?_
  cases hr _ hm

theorem Turn.unclosed (h : Turn f p s os exit) : Unclosed os := by
  cases h with
  | limit => exact unclosed_nil
  | quit => exact (polling_answered _).unclosed
  | halted _ opening => exact opening.polling.unclosed.append (.cons nofun unclosed_nil)
  | renderFailed _ opening =>
    exact opening.polling.unclosed.append (.cons nofun (unclosed_showing [_]))
  | completed _ opening =>
    exact opening.polling.unclosed.append (.cons nofun (unclosed_showing _))

theorem Course.unclosed (h : Course f p n s os exit s') : Unclosed os := by
  induction h with
  | pause => exact unclosed_nil
  | stop turn _ => exact turn.unclosed
  | next turn _ _ _ ih => exact turn.unclosed.append ih

theorem Outset.unclosed {r : Nat} (h : Outset f r es os exit) : Unclosed os := by
  induction h with
  | done => exact unclosed_nil
  | render _ _ ih => exact .cons nofun ih
  | renderFailed => exact unclosed_showing [_]
  | beep _ ih => exact .cons nofun ih
  | scheduled _ ih => exact ih

theorem Play.unclosed (h : Play f p n es s os exit s') : Unclosed os := by
  cases h with
  | stop outset _ => exact outset.unclosed
  | go outset _ course => exact outset.unclosed.append course.unclosed

end

theorem Session.machine_close (exit : Exit) (s : Session) : (s.close exit).machine = s.machine := by
  cases exit <;> rfl

/-- A session ends by handing over its display, once and after all other calls, or with the frame
that it could not show. -/
theorem Session.calls_of_runFor {f : Frontend} {p : Pace} {n : Nat} {es : List Effect}
    {s : Session} {o : Outcome} (h : runFor f p n es s = some o) :
    ∃ cs, (∀ frame, .finish frame ∉ cs) ∧
      ((∀ reason, o.exit ≠ .renderFailed reason) ∧
          o.session.calls = s.calls ++ cs ++ [.finish o.session.machine.state.screen] ∨
        ∃ reason cs' frame, o.exit = .renderFailed reason ∧ cs = cs' ++ [.render frame] ∧
          o.session.calls = s.calls ++ cs) := by
  obtain ⟨os, s', played, leads, hs⟩ := play_of_runFor h
  have hc := (leads.trans (leads_close o.exit s')).calls
  rw [List.filterMap_append, ← List.append_assoc] at hc
  refine ⟨os.filterMap Occurrence.call?, ?_, ?_⟩
  · intro frame hm
    obtain ⟨c, hm, ho⟩ := List.mem_filterMap.mp hm
    cases c with
    | call c =>
      cases ho
      exact played.unclosed frame hm
    | event e => cases ho
  rw [hs, machine_close, hc]
  cases he : o.exit with
  | renderFailed reason =>
    have cause := played.cause
    rw [he] at cause
    obtain ⟨os', frame, rfl, _⟩ := cause
    refine .inr ⟨reason, os'.filterMap Occurrence.call?, frame, rfl, ?_, List.append_nil _⟩
    rw [List.filterMap_append]
    rfl
  | _ => exact .inl ⟨nofun, rfl⟩

/-- The program `D005 1202` draws a digit, which is shown, and the session ends at its limit. -/
theorem Session.calls_of_runFor_limit :
    let s := start ((Machine.new {} 0).booted [0xD0, 0x05, 0x12, 0x02]) .silent
    ∃ o cs, run ⟨fun _ => [], fun _ => none⟩ ⟨1, some 3⟩ [.render .blank] s = some o ∧
      o.session.calls = s.calls ++ cs ++ [.finish o.session.machine.state.screen] ∧
      ∀ frame, .finish frame ∉ cs := by
  intro s
  have he : (run ⟨fun _ => [], fun _ => none⟩ ⟨1, some 3⟩ [.render .blank] s).map Outcome.exit =
      some .limit := by
    decide +kernel
  obtain ⟨o, ho, hl⟩ := Option.map_eq_some_iff.mp he
  obtain ⟨cs, hn, ⟨_, hc⟩ | ⟨reason, _, _, hr, _⟩⟩ := calls_of_runFor ho
  · exact ⟨o, cs, ho, hc, hn⟩
  · cases hl.symm.trans hr

/-- The same program with a frontend that cannot show the digit, which is never told of the end. -/
theorem Session.calls_of_renderFault :
    let r := run ⟨fun _ => [], fun n => if n = 2 then some "render failed" else none⟩ ⟨1, some 3⟩
      [.render .blank] (start ((Machine.new {} 0).booted [0xD0, 0x05, 0x12, 0x02]) .silent)
    ∃ o, r = some o ∧ o.exit = .renderFailed "render failed" ∧
      ∀ frame, .finish frame ∉ o.session.calls := by
  intro r
  have he : r.map (fun o => (o.exit, o.session.calls.any Call.isFinish)) =
      some (.renderFailed "render failed", false) := by
    decide +kernel
  obtain ⟨o, ho, he⟩ := Option.map_eq_some_iff.mp he
  obtain ⟨hr, hn⟩ := Prod.ext_iff.mp he
  exact ⟨o, ho, hr, fun frame hm => List.any_eq_false.mp hn _ hm rfl⟩

end Chip8
