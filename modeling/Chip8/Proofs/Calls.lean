import Chip8.Proofs.Reachability
import Chip8.Proofs.Targets

/-! # Calls and returns

Return addresses are live from a call to the return that takes them off the stack, whatever happens
in between. So the return that first makes the stack as deep as it was before a call goes back to
behind that call, and the depth counts the calls that are still to return. -/
namespace Chip8

namespace Stimulus

/-- How many instructions a stimulus has a machine execute at most. -/
def size (c : Configuration) : Stimulus → Nat
  | .tick n => n
  | .event .cpuTick => c.instructionsPerTick.toNat
  | .event _ => 0

/-- Whether the stimulus tells of a program, loaded or not. -/
def isLoad : Stimulus → Bool
  | .event (.programLoaded _) | .event (.programUnavailable _) => true
  | _ => false

/-- A single instruction, a key event or a timer event. -/
def isSingle (c : Configuration) (s : Stimulus) : Bool := !s.isLoad && s.size c ≤ 1

end Stimulus

def calls (ws : List Opcode) : Nat := ws.countP fun w => (Opcode.family w).val = 0x2

def returns (ws : List Opcode) : Nat := ws.count 0x00EE

theorem calls_append (ws ws' : List Opcode) : calls (ws ++ ws') = calls ws + calls ws' :=
  List.countP_append

theorem returns_append (ws ws' : List Opcode) : returns (ws ++ ws') = returns ws + returns ws' :=
  List.count_append

/-- Only calls and returns touch the stack. -/
theorem Instruction.stack_notMem_targets {i : Instruction} (hc : ∀ a, i ≠ .call a) (hr : i ≠ .ret)
    (s : State) : .depth ∉ i.targets s ∧ ∀ k, .slot k ∉ i.targets s := by
  cases i with
  | call a => exact absurd rfl (hc a)
  | ret => exact absurd rfl hr
  | operate op x y => cases op <;> simp [targets, Operation.flags]
  | _ => simp [targets, State.indexed, Part.mem_registersTo]

namespace Machine

variable {m m' : Machine}

theorem stack_of_other (h : m.step = .ok m') (hc : (Opcode.family m.fetched).val ≠ 0x2)
    (hr : m.fetched ≠ 0x00EE) : m'.stack = m.stack := by
  have hcall : ∀ a, Opcode.meaning m.fetched ≠ .call a :=
    fun a ha => hc (Opcode.family_of_meaning ha (by simp))
  have hret : Opcode.meaning m.fetched ≠ .ret := fun hi => hr (Opcode.meaning_eq_ret_iff.mp hi)
  obtain ⟨hd, hs⟩ := Instruction.stack_notMem_targets hcall hret m.state
  rw [← Opcode.targets_eq] at hd
  simp only [← Opcode.targets_eq] at hs
  exact CallStack.ext_slots (same_of_step h hd) fun k => same_of_step h (hs k)

theorem stack_cases (h : m.step = .ok m') :
    ((Opcode.family m.fetched).val = 0x2 ∧ m'.stack.toList = m.stack.toList ++ [m.advanced.pc]) ∨
      (m.fetched = 0x00EE ∧ ∃ a, m.stack.toList = m'.stack.toList ++ [a] ∧ m'.pc = a % 4096) ∨
      (Opcode.family m.fetched).val ≠ 0x2 ∧ m.fetched ≠ 0x00EE ∧ m'.stack = m.stack := by
  by_cases hc : (Opcode.family m.fetched).val = 0x2
  · exact .inl ⟨hc, stack_of_call h hc⟩
  · by_cases hr : m.fetched = 0x00EE
    · exact .inr (.inl ⟨hr, stack_of_ret h hr⟩)
    · exact .inr (.inr ⟨hc, hr, stack_of_other h hc hr⟩)

/-! ## The depth counts calls -/

theorem depth_of_step (h : m.step = .ok m') :
    m'.stack.depth + returns [m.fetched] = m.stack.depth + calls [m.fetched] := by
  rcases stack_cases h with ⟨hw, hs⟩ | ⟨hw, a, hs, _⟩ | ⟨hc, hr, hs⟩
  · have hn : m.fetched ≠ 0x00EE := by
      intro he
      rw [he] at hw
      exact absurd hw (by decide)
    have hl := congrArg List.length hs
    simpa [calls, returns, hw, hn] using hl
  · have hl := congrArg List.length hs
    have hc : calls [0x00EE] = 0 := by decide
    have hr : returns [0x00EE] = 1 := by decide
    rw [hw, hc, hr]
    simpa using hl.symm
  · rw [hs]
    simp [calls, returns, hc, hr]

theorem Path.depth {ws : List Opcode} (h : Path m ws m') :
    m'.stack.depth + returns ws = m.stack.depth + calls ws := by
  induction h with
  | nil => rfl
  | @cons m _ _ ws _ hs _ ih =>
    have hd := depth_of_step hs
    have hc := calls_append [m.fetched] ws
    have hr := returns_append [m.fetched] ws
    rw [List.singleton_append] at hc hr
    omega

theorem depth_of_tick (n : Nat) (m : Machine) :
    (m.tick n).1.stack.depth + returns (m.ticked n) = m.stack.depth + calls (m.ticked n) := by
  rcases tick_cases n m with ⟨hr, ht⟩ | ⟨m', ht⟩ | ⟨a, fault, ht⟩
  · rw [ht, ticked_of_not_running hr]
    rfl
  · rw [ht.tick_eq]
    exact ht.path.depth
  · rw [ht.tick_eq]
    exact ht.path.depth

theorem stack_of_keyDown (m : Machine) (key : Key) : (m.keyDown key).stack = m.stack := by
  unfold keyDown
  split <;> rfl

theorem depth_of_respond {s : Stimulus} (hs : s.isLoad = false) :
    (m.respond s).1.stack.depth + returns (m.executed s) =
      m.stack.depth + calls (m.executed s) := by
  cases s with
  | tick n => exact depth_of_tick n m
  | event e =>
    cases e with
    | cpuTick => exact depth_of_tick _ m
    | timerTick t epoch =>
      obtain ⟨timers, ht⟩ := m.timerTick_frame t epoch
      exact congrArg (·.stack.depth) ht
    | keyDown key => exact congrArg CallStack.depth (m.stack_of_keyDown _)
    | keyUp key => rfl
    | _ => cases hs

theorem depth_of_load {s : Stimulus} (hs : s.isLoad = true) : (m.respond s).1.stack.depth = 0 := by
  cases s with
  | tick n => cases hs
  | event e =>
    cases e with
    | programLoaded program =>
      rcases load_cases m program with hl | ⟨fault, hl⟩ <;> exact congrArg (·.1.stack.depth) hl
    | programUnavailable reason => rfl
    | _ => cases hs

/-- The words executed since the last stimulus that told of a program, after the words `ws`. -/
def sinceLoad (m : Machine) (ws : List Opcode) : List Stimulus → List Opcode
  | [] => ws
  | s :: ss => (m.respond s).1.sinceLoad (if s.isLoad then [] else ws ++ m.executed s) ss

theorem depth_of_after {ws : List Opcode} (h : m.stack.depth + returns ws = calls ws)
    (ss : List Stimulus) :
    (m.after ss).stack.depth + returns (m.sinceLoad ws ss) = calls (m.sinceLoad ws ss) := by
  induction ss generalizing m ws with
  | nil => exact h
  | cons s ss ih =>
    apply ih
    split
    next hs =>
      rw [depth_of_load hs]
      rfl
    next hs =>
      have hd := depth_of_respond (m := m) (Bool.not_eq_true _ ▸ hs)
      rw [returns_append, calls_append]
      omega

/-! ## Calls and returns match -/

/-- A tick of at most one instruction is a step, or it leaves the stack alone. -/
theorem tick_single {n : Nat} (hn : n ≤ 1) (m : Machine) :
    (m.ticked n = [] ∧ (m.tick n).1.stack = m.stack) ∨
      (m.ticked n = [m.fetched] ∧ (m.withDrawFlag false).step = .ok (m.tick n).1) := by
  by_cases hr : m.mode = .running
  · rw [tick_of_running hr]
    obtain rfl | rfl : n = 0 ∨ n = 1 := by omega
    · exact .inl ⟨rfl, rfl⟩
    · have hw : (m.withDrawFlag false).mode = .running := hr
      unfold ticked completed batch
      rw [if_pos hw, if_pos hw]
      cases (m.withDrawFlag false).step with
      | ok m' => exact .inr ⟨rfl, rfl⟩
      | error fault => exact .inl ⟨rfl, rfl⟩
  · rw [ticked_of_not_running hr, tick_of_not_running hr]
    exact .inl ⟨rfl, rfl⟩

theorem respond_single {s : Stimulus} (hs : s.isSingle m.configuration = true) :
    (m.executed s = [] ∧ (m.respond s).1.stack = m.stack) ∨
      (m.executed s = [m.fetched] ∧ (m.withDrawFlag false).step = .ok (m.respond s).1) := by
  obtain ⟨hl, hn⟩ : s.isLoad = false ∧ s.size m.configuration ≤ 1 := by
    simpa [Stimulus.isSingle] using hs
  cases s with
  | tick n => exact tick_single hn m
  | event e =>
    cases e with
    | cpuTick => exact tick_single hn m
    | timerTick t epoch =>
      obtain ⟨timers, ht⟩ := m.timerTick_frame t epoch
      exact .inl ⟨rfl, (congrArg stack ht).trans rfl⟩
    | keyDown key => exact .inl ⟨rfl, m.stack_of_keyDown _⟩
    | keyUp key => exact .inl ⟨rfl, rfl⟩
    | _ => cases hl

theorem singles_of_cons {s : Stimulus} {ss : List Stimulus}
    (h : ∀ u ∈ s :: ss, u.isSingle m.configuration = true) :
    ∀ u ∈ ss, u.isSingle (m.respond s).1.configuration = true := by
  intro u hu
  rw [configuration_of_respond]
  exact h u (by simp [hu])

/-- After all of the stimuli, and at no moment before, the stack is `depth` deep. -/
def Unwinds (depth : Nat) (m : Machine) (ss : List Stimulus) : Prop :=
  (m.after ss).stack.depth = depth ∧
    ∀ k < ss.length, (m.after (ss.take k)).stack.depth ≠ depth

theorem Unwinds.of_cons {depth : Nat} {s : Stimulus} {ss : List Stimulus}
    (h : m.Unwinds depth (s :: ss)) :
    m.stack.depth ≠ depth ∧ (m.respond s).1.Unwinds depth ss := by
  obtain ⟨hd, hf⟩ := h
  refine ⟨hf 0 (by simp), hd, fun k hk => ?_⟩
  exact hf (k + 1) (by simpa using hk)

/-- The last of the stimuli has executed a return, to the address `a` and with the return addresses
`base` left on the stack. -/
structure ReturnsTo (a : Nat) (base : List UInt16) (m : Machine) (ss : List Stimulus) : Prop where
  last : ∃ earlier s, ss = earlier ++ [s] ∧ (m.after earlier).executed s = [0x00EE]
  pc : (m.after ss).pc.toNat = a
  stack : (m.after ss).stack.toList = base

theorem ReturnsTo.cons {a : Nat} {base : List UInt16} {s : Stimulus} {ss : List Stimulus}
    (h : (m.respond s).1.ReturnsTo a base ss) : m.ReturnsTo a base (s :: ss) := by
  obtain ⟨earlier, u, rfl, hu⟩ := h.last
  exact ⟨⟨s :: earlier, u, rfl, hu⟩, h.pc, h.stack⟩

/-- As long as the stack is deeper than `base`, it has `a` on top of `base`. -/
theorem Unwinds.returnsTo {a : UInt16} {base : List UInt16} {ss : List Stimulus}
    (hs : ∀ s ∈ ss, s.isSingle m.configuration = true) (hp : base ++ [a] <+: m.stack.toList)
    (h : m.Unwinds base.length ss) : m.ReturnsTo (a.toNat % 4096) base ss := by
  induction ss generalizing m with
  | nil =>
    have hl := hp.length_le
    have hd : m.stack.depth = base.length := h.1
    simp at hl
    omega
  | cons s ss ih =>
    have hrest := h.of_cons.2
    have hss := singles_of_cons hs
    rcases respond_single (hs s (by simp)) with ⟨_, hq⟩ | ⟨he, hstep⟩
    · exact .cons (ih hss (hq ▸ hp) hrest)
    rcases stack_cases hstep with ⟨_, hc⟩ | ⟨hw, b, hr, hpc⟩ | ⟨_, _, ho⟩
    case inl =>
      have hp' : base ++ [a] <+: (m.respond s).1.stack.toList :=
        hc ▸ hp.trans (List.prefix_append ..)
      exact .cons (ih hss hp' hrest)
    case inr.inl =>
      have hp' : base ++ [a] <+: (m.respond s).1.stack.toList ++ [b] := hr ▸ hp
      rcases List.prefix_concat_iff.mp hp' with heq | hp''
      · -- This return takes `a` off the stack, which is thus as deep as `base` for the first time.
        obtain ⟨hb, hab⟩ := List.append_inj' heq rfl
        cases hab
        cases ss with
        | nil =>
          refine ⟨⟨[], s, rfl, ?_⟩, ?_, hb.symm⟩
          · rw [← hw]
            exact he
          · change (m.respond s).1.pc.toNat = _
            rw [hpc, UInt16.toNat_mod]
            rfl
        | cons u us =>
          refine absurd ?_ hrest.of_cons.1
          rw [hb, CallStack.length_toList]
      · exact .cons (ih hss hp'' hrest)
    case inr.inr =>
      have hp' : base ++ [a] <+: (m.respond s).1.stack.toList := ho ▸ hp
      exact .cons (ih hss hp' hrest)

/-- When the stack is as deep again as before a call, with single instructions and key and timer
events in between, it has just been returned from that call, to the instruction behind it and with
the return addresses from before it. In every reachable machine the depth is the number of calls
less the number of returns since a program was last loaded. -/
theorem calls_match :
    (∀ (m : Machine) (s : Stimulus) (w : Opcode) (ss : List Stimulus),
      (∀ u ∈ s :: ss, u.isSingle m.configuration = true) → m.executed s = [w] →
      (Opcode.family w).val = 0x2 → (m.respond s).1.Unwinds m.stack.depth ss →
        (m.respond s).1.ReturnsTo ((m.pc.toNat + 2) % 4096) m.stack.toList ss) ∧
      ∀ (c : Configuration) (key : ChaCha.CipherKey) (history : List Stimulus),
        let m := (new c key).after history
        let ws := (new c key).sinceLoad [] history
        m.stack.depth + returns ws = calls ws ∧ m.stack.depth ≤ 16 := by
  constructor
  · intro m s w ss hs hw hc hu
    rcases respond_single (hs s (by simp)) with ⟨hn, _⟩ | ⟨he, hstep⟩
    · rw [hn] at hw
      cases hw
    · obtain rfl : m.fetched = w := by simpa using he.symm.trans hw
      have hstack : (m.respond s).1.stack.toList = m.stack.toList ++ [m.advanced.pc] :=
        stack_of_call (m := m.withDrawFlag false) hstep hc
      have ha : m.advanced.pc.toNat = (m.pc.toNat + 2) % 4096 := Registers.toNat_pc_advance _
      have hp : m.stack.toList ++ [m.advanced.pc] <+: (m.respond s).1.stack.toList :=
        hstack ▸ List.prefix_refl _
      have hr := Unwinds.returnsTo (singles_of_cons hs) hp (by simpa using hu)
      rwa [ha, Nat.mod_mod] at hr
  · intro c key history
    exact ⟨depth_of_after rfl history, CallStack.depth_le _⟩

/-- A call within a call, with keys and a timer in between. -/
theorem calls_match_nested :
    let m := (new { instructionsPerTick := 1 } 0).booted
      [0x22, 0x06, 0x12, 0x02, 0, 0, 0x22, 0x0A, 0x00, 0xEE, 0x00, 0xEE]
    let ss : List Stimulus := [.event (.keyDown 5), .tick 1, .event (.timerTick .delay 1),
      .event .cpuTick, .event (.keyUp 5), .tick 1]
    m.executed (.tick 1) = [0x2206] ∧ (m.respond (.tick 1)).1.Unwinds 0 ss ∧
      (m.respond (.tick 1)).1.ReturnsTo 0x202 [] ss := by
  intro m ss
  have hw : m.executed (.tick 1) = [0x2206] := by decide +kernel
  have hu : (m.respond (.tick 1)).1.Unwinds 0 ss := by
    unfold Unwinds
    decide +kernel
  have hs : ∀ u ∈ .tick 1 :: ss, u.isSingle m.configuration = true := by decide +kernel
  exact ⟨hw, hu, calls_match.1 m (.tick 1) 0x2206 ss hs hw (by decide) hu⟩

end Machine
end Chip8
