import Chip8.Proofs.Reachability
import Chip8.Proofs.Targets

/-! # Random words

Each `Cxkk` takes the next word of the stream that the seed fixes, and nothing else takes any: not
another instruction, a fault, an event or the loading of a program. -/
namespace Chip8

namespace Machine

/-- The machines that a batch goes through, each right before a step that it completes. -/
def stages : Nat → Machine → List Machine
  | 0, _ => []
  | n + 1, m =>
    if m.mode = .running then
      match m.step with
      | .ok m' => m :: stages n m'
      | .error _ => []
    else []

/-- The machines that complete a step in response to a stimulus. -/
def stepped (m : Machine) : Stimulus → List Machine
  | .event .cpuTick => stages m.configuration.instructionsPerTick.toNat (m.withDrawFlag false)
  | .tick n => stages n (m.withDrawFlag false)
  | _ => []

def steppedAfter (m : Machine) : List Stimulus → List Machine
  | [] => []
  | s :: ss => m.stepped s ++ (m.respond s).1.steppedAfter ss

theorem map_fetched_stages (n : Nat) (m : Machine) : (stages n m).map fetched = completed n m := by
  induction n generalizing m with
  | zero => rfl
  | succ n ih =>
    unfold stages completed
    split
    next =>
      cases m.step with
      | ok m' => exact congrArg (m.fetched :: ·) (ih m')
      | error fault => rfl
    next => rfl

theorem map_fetched_stepped (m : Machine) (s : Stimulus) :
    (m.stepped s).map fetched = m.executed s := by
  cases s with
  | tick n => exact map_fetched_stages n _
  | event e =>
    cases e with
    | cpuTick => exact map_fetched_stages _ _
    | _ => rfl

theorem map_fetched_steppedAfter (m : Machine) (ss : List Stimulus) :
    (m.steppedAfter ss).map fetched = m.executedAfter ss := by
  induction ss generalizing m with
  | nil => rfl
  | cons s ss ih => rw [steppedAfter, List.map_append, map_fetched_stepped, ih, executedAfter]

/-- Whether the instruction to come is a `Cxkk`. -/
def takesWord (m : Machine) : Bool := (Opcode.family m.fetched).val = 0xC

theorem step_of_takesWord {m : Machine} (h : m.takesWord = true) :
    ∃ m', m.step = .ok m' ∧
      m'.state.get (Opcode.x m.fetched) =
        (Generator.word m.random.key m.random.drawn).toUInt8 &&& Opcode.byte m.fetched := by
  have hd : Instruction.decode? m.fetched =
      some (.random (Opcode.x m.fetched) (Opcode.byte m.fetched)) := by
    simp only [Instruction.decode?, of_decide_eq_true h]
  exact ⟨_, step_of_decode? hd, (Registers.get_set ..).trans (if_pos rfl)⟩

end Machine

namespace Generator

/-- The generator after `n` more words. -/
def skip (g : Generator) (n : Nat) : Generator := { g with drawn := g.drawn + n }

theorem skip_next (g : Generator) (n : Nat) : g.next.2.skip n = g.skip (n + 1) := by
  have hd : g.drawn + 1 + n = g.drawn + (n + 1) := by omega
  exact congrArg (Generator.mk g.key) hd

/-- The machines have taken their words from `g` one after another and left `g'`. -/
inductive Supplies : Generator → List Machine → Generator → Prop
  | nil (g : Generator) : Supplies g [] g
  | cons {m : Machine} {ms : List Machine} {g : Generator}
      (rest : Supplies (if m.takesWord then m.random.next.2 else m.random) ms g) :
      Supplies m.random (m :: ms) g

namespace Supplies

variable {g g₁ g' : Generator} {ms ms' : List Machine}

theorem of_eq (h : g' = g) : Supplies g [] g' := h ▸ .nil g

theorem append (h : Supplies g ms g₁) (h' : Supplies g₁ ms' g') : Supplies g (ms ++ ms') g' := by
  induction h with
  | nil => exact h'
  | cons _ ih => exact .cons (ih h')

theorem eq_skip (h : Supplies g ms g') : g' = g.skip (ms.countP Machine.takesWord) := by
  induction h with
  | nil => rfl
  | @cons m ms _ _ ih =>
    rw [ih, List.countP_cons]
    cases m.takesWord with
    | false => rfl
    | true => exact skip_next ..

/-- The machine that is the `j`-th to take a word finds `j` words taken. -/
theorem random_eq (h : Supplies g ms g') {j : Nat} {m : Machine}
    (hj : (ms.filter Machine.takesWord)[j]? = some m) : m.random = g.skip j := by
  induction h generalizing j with
  | nil => cases hj
  | @cons a ms _ _ ih =>
    cases ha : a.takesWord with
    | false =>
      rw [List.filter_cons_of_neg (by simp [ha])] at hj
      simpa [ha] using ih hj
    | true =>
      -- This machine is the first to take a word, and all later ones come one word further on.
      rw [List.filter_cons_of_pos ha] at hj
      cases j with
      | zero =>
        cases hj
        rfl
      | succ j =>
        have hm := ih hj
        rw [ha] at hm
        exact hm.trans (skip_next a.random j)

end Supplies
end Generator

namespace Machine

open Generator (Supplies)

theorem supplies_of_batch (n : Nat) (m : Machine) :
    Supplies m.random (stages n m) (batch n m).1.random := by
  induction n generalizing m with
  | zero => exact .nil _
  | succ n ih =>
    unfold stages batch
    split
    next =>
      cases hs : m.step with
      | ok m' =>
        have hm : m'.random = if m.takesWord then m.random.next.2 else m.random := by
          simpa [takesWord] using random_of_step hs
        exact .cons (hm ▸ ih m')
      | error fault =>
        -- What fails keeps the generator as it was.
        exact .nil _
    next => exact .nil _

theorem supplies_of_tick (n : Nat) (m : Machine) :
    Supplies m.random (stages n (m.withDrawFlag false)) (m.tick n).1.random := by
  by_cases hr : m.mode = .running
  · have hb := supplies_of_batch n (m.withDrawFlag false)
    rw [tick_of_running hr]
    rcases hm : batch n (m.withDrawFlag false) with ⟨m', none | fault⟩
    all_goals
      rw [hm] at hb
      exact hb
  · have hn : stages n (m.withDrawFlag false) = [] := by
      cases n with
      | zero => rfl
      | succ n => exact if_neg hr
    rw [tick_of_not_running hr, hn]
    exact .nil _

theorem supplies_of_respond (m : Machine) (s : Stimulus) :
    Supplies m.random (m.stepped s) (m.respond s).1.random := by
  cases s with
  | tick n => exact supplies_of_tick n m
  | event e =>
    cases e with
    | cpuTick => exact supplies_of_tick _ m
    | _ => exact .of_eq (random_of_handle (by nofun) m).2

theorem supplies_of_after (m : Machine) (ss : List Stimulus) :
    Supplies m.random (m.steppedAfter ss) (m.after ss).random := by
  induction ss generalizing m with
  | nil => exact .nil _
  | cons s ss ih => exact (m.supplies_of_respond s).append (ih _)

/-- The `j`-th `Cxkk` that a machine with a seed executes, all its programs counted, finds `j` words
taken and sets `Vx` to the low byte of word `j` under the mask `kk`. As many words have been taken
as `Cxkk` have been executed. -/
theorem random_words_in_order (c : Configuration) (seed : UInt64) (unseeded : ChaCha.CipherKey)
    (ss : List Stimulus) :
    let m := new { c with seed := some seed } unseeded
    let key := (Generator.ofSeed seed).key
    m.executedAfter ss = (m.steppedAfter ss).map fetched ∧
      (∀ (j : Nat) (a : Machine), ((m.steppedAfter ss).filter takesWord)[j]? = some a →
        a.random = ⟨key, j⟩ ∧ ∃ b, a.step = .ok b ∧
          b.state.get (Opcode.x a.fetched) =
            (Generator.word key j).toUInt8 &&& Opcode.byte a.fetched) ∧
      (m.after ss).random =
        ⟨key, (m.executedAfter ss).countP fun w => (Opcode.family w).val = 0xC⟩ := by
  intro m key
  have hs : Supplies ⟨key, 0⟩ (m.steppedAfter ss) (m.after ss).random := m.supplies_of_after ss
  refine ⟨(m.map_fetched_steppedAfter ss).symm, fun j a ha => ?_, ?_⟩
  · have hr : a.random = ⟨key, j⟩ := by simpa [Generator.skip] using hs.random_eq ha
    have ht : a.takesWord = true := (List.mem_filter.mp (List.mem_of_getElem? ha)).2
    obtain ⟨b, hb, hv⟩ := step_of_takesWord ht
    rw [hr] at hv
    exact ⟨hr, b, hb, hv⟩
  · rw [hs.eq_skip, ← map_fetched_steppedAfter, List.countP_map, Generator.skip, Nat.zero_add]
    rfl

/-- Two programs with a `Cxkk` each, and one that could not be read between them. -/
theorem random_words_in_order_reloaded :
    let m := new { seed := some 8 } 0
    let key := (Generator.ofSeed 8).key
    let ss : List Stimulus := [.event (.programLoaded [0xC3, 0xFF]), .tick 1,
      .event (.programUnavailable "gone"), .event (.programLoaded [0x60, 0x01, 0xC1, 0x0F]),
      .event .cpuTick]
    (m.after ss).random = ⟨key, 2⟩ ∧
      ∃ a b : Machine, a.fetched = 0xC10F ∧ a.step = .ok b ∧
        b.state.get 1 = (Generator.word key 1).toUInt8 &&& 0x0F := by
  intro m key ss
  obtain ⟨he, hj, hr⟩ := random_words_in_order {} 8 0 ss
  have hw : ((m.steppedAfter ss).filter takesWord).map fetched = [0xC3FF, 0xC10F] := by
    decide +kernel
  have hn : m.executedAfter ss = [0xC3FF, 0x6001, 0xC10F] := by decide +kernel
  obtain ⟨a, ha, hf⟩ : ∃ a, ((m.steppedAfter ss).filter takesWord)[1]? = some a ∧
      a.fetched = 0xC10F := by
    have hg := congrArg (·[1]?) hw
    simpa [List.getElem?_map, Option.map_eq_some_iff] using hg
  obtain ⟨_, b, hb, hv⟩ := hj 1 a ha
  rw [hf] at hv
  rw [hn] at hr
  exact ⟨hr, a, b, hf, hb, hv⟩

end Machine
end Chip8
