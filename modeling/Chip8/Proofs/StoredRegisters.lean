import Chip8.Proofs.Policies
import Chip8.Proofs.Targets

/-! # Stored registers

Registers as they are stored: next to the bytes and the words there are an array of sixteen slots
and a byte that counts the live ones, and nothing keeps the byte within the array. Operations work
in place, one assignment after the other, and trap where an index or a word has no room. None does
on the stored form of registers, and one that is refused has changed nothing. -/
namespace Chip8

/-- Why an operation has no result. -/
inductive Breakdown
  | fault (f : Fault)
  | trap
  deriving DecidableEq

/-! ## Words with room for a result -/

def fitByte (n : Nat) : Except Breakdown UInt8 :=
  if n < UInt8.size then .ok (.ofNat n) else .error .trap

def fitWord (n : Nat) : Except Breakdown UInt16 :=
  if n < UInt16.size then .ok (.ofNat n) else .error .trap

/-- The difference of two numbers, of which the second may not be the greater one. -/
def difference (n k : Nat) : Except Breakdown Nat := if k ≤ n then .ok (n - k) else .error .trap

theorem fitByte_of_lt {n : Nat} (h : n < 256) : fitByte n = .ok (.ofNat n) := if_pos h

theorem fitWord_of_lt {n : Nat} (h : n < 65536) : fitWord n = .ok (.ofNat n) := if_pos h

theorem difference_of_le {n k : Nat} (h : k ≤ n) : difference n k = .ok (n - k) := if_pos h

/-! ## Operations in place -/

/-- What can be done to registers but for their stack. Bytes name the registers of their low
nibbles. -/
inductive RegisterUpdate
  | set (x b : UInt8)
  | operate (op : Operation) (x y : UInt8)
  | advance
  | skip
  | jump (w : UInt16)
  | assignIndex (w : UInt16)
  | assignCounter (w : UInt16)
  deriving DecidableEq

inductive RegisterAction
  | push (w : UInt16)
  | pop
  | update (u : RegisterUpdate)
  deriving DecidableEq

structure StoredRegisters where
  v : Vector UInt8 16
  i : UInt16
  pc : UInt16
  slots : Vector UInt16 16
  sp : UInt8
  deriving DecidableEq

/-- What breaks down leaves the registers as they are at that point. -/
abbrev InPlace := EStateM Breakdown StoredRegisters

def Registers.updated (r : Registers) : RegisterUpdate → Registers
  | .set x b => r.set (.ofByte x) b
  | .operate op x y => r.operate op (.ofByte x) (.ofByte y)
  | .advance => r.advance
  | .skip => r.skipIf true
  | .jump w => r.jump w
  | .assignIndex w => r.setIndex w
  | .assignCounter w => { r with pc := w }

/-- Updates neither read the stack nor change it. -/
theorem Registers.updated_withStack (r : Registers) (stack : CallStack) (u : RegisterUpdate) :
    updated { r with stack } u = { r.updated u with stack } := by
  cases u with
  | operate op x y => cases op <;> rfl
  | _ => rfl

theorem Registers.stack_updated (r : Registers) (u : RegisterUpdate) :
    (r.updated u).stack = r.stack := by
  have h := congrArg stack (r.updated_withStack r.stack u)
  exact h

namespace RegisterAction

/-- What is left by an action but for the stack. -/
def onRest (r : Registers) : RegisterAction → Registers
  | push _ | pop => r
  | update u => r.updated u

/-- The live words after an action on the live words `ws`. -/
def onLive (ws : List UInt16) : RegisterAction → List UInt16
  | push w => if ws.length < 16 then ws ++ [w] else ws
  | pop => ws.dropLast
  | update _ => ws

/-- The word that an action on the live words `ws` gives back, if any, or why it is refused while
the instruction at `address` is under way. -/
def answer (ws : List UInt16) (address : UInt16) : RegisterAction → Except Fault (Option UInt16)
  | push _ => if ws.length < 16 then .ok none else .error (.stackOverflow address)
  | pop =>
    match ws.getLast? with
    | some w => .ok (some w)
    | none => .error (.stackUnderflow address)
  | update _ => .ok none

end RegisterAction

namespace StoredRegisters

def current (s : StoredRegisters) : UInt16 := (s.pc - instructionSize) % 4096

/-- An update does not look at the stack, so any will do. -/
def updated (s : StoredRegisters) (u : RegisterUpdate) : StoredRegisters :=
  let r := Registers.updated ⟨s.v, s.i, s.pc, .empty⟩ u
  { s with v := r.v, i := r.i, pc := r.pc }

/-- Stores a word in the slot that the count names. -/
def writeSlot (w : UInt16) : InPlace Unit := do
  let s ← get
  if h : s.sp.toNat < 16 then set { s with slots := s.slots.set s.sp.toNat w h }
  else throw .trap

def readSlot : InPlace UInt16 := do
  let s ← get
  if h : s.sp.toNat < 16 then pure s.slots[s.sp.toNat] else throw .trap

def countUp : InPlace Unit := do
  let s ← get
  match fitByte (s.sp.toNat + 1) with
  | .ok sp => set { s with sp }
  | .error e => throw e

def countDown : InPlace Unit := do
  let s ← get
  match difference s.sp.toNat 1 with
  | .ok n => set { s with sp := .ofNat n }
  | .error e => throw e

def push (w : UInt16) : InPlace Unit := do
  let s ← get
  if s.sp.toNat = 16 then throw (.fault (.stackOverflow s.current))
  else do
    writeSlot w
    countUp

def pop : InPlace UInt16 := do
  let s ← get
  if s.sp.toNat = 0 then throw (.fault (.stackUnderflow s.current))
  else do
    countDown
    readSlot

/-- Carries out an action and answers with the word that it has popped, if any. -/
def act : RegisterAction → InPlace (Option UInt16)
  | .push w => do
    push w
    pure none
  | .pop => do
    let w ← pop
    pure (some w)
  | .update u => do
    modify (updated · u)
    pure none

variable {s : StoredRegisters}

theorem run_writeSlot (h : s.sp.toNat < 16) (w : UInt16) :
    (writeSlot w).run s = .ok () { s with slots := s.slots.set s.sp.toNat w h } := by
  simp [writeSlot, h]

theorem run_readSlot (h : s.sp.toNat < 16) : readSlot.run s = .ok s.slots[s.sp.toNat] s := by
  simp [readSlot, h]

theorem run_countUp (h : s.sp.toNat + 1 < 256) :
    countUp.run s = .ok () { s with sp := .ofNat (s.sp.toNat + 1) } := by
  simp only [countUp, EStateM.run_bind, EStateM.run_get, fitByte_of_lt h, EStateM.run_set]

theorem run_countDown (h : 1 ≤ s.sp.toNat) :
    countDown.run s = .ok () { s with sp := .ofNat (s.sp.toNat - 1) } := by
  simp only [countDown, EStateM.run_bind, EStateM.run_get, difference_of_le h, EStateM.run_set]

theorem run_push_of_lt (h : s.sp.toNat < 16) (w : UInt16) :
    (push w).run s =
      .ok () { s with slots := s.slots.set s.sp.toNat w h, sp := .ofNat (s.sp.toNat + 1) } := by
  have hc := run_countUp (s := { s with slots := s.slots.set s.sp.toNat w h })
    (show s.sp.toNat + 1 < 256 by omega)
  simp only [push, EStateM.run_bind, EStateM.run_get, if_neg (Nat.ne_of_lt h), run_writeSlot h, hc]

theorem run_push_of_full (h : s.sp.toNat = 16) (w : UInt16) :
    (push w).run s = .error (.fault (.stackOverflow s.current)) s := by
  simp only [push, EStateM.run_bind, EStateM.run_get, if_pos h, EStateM.run_throw]

theorem run_pop_of_pos (h : 0 < s.sp.toNat) (hle : s.sp.toNat - 1 < 16) :
    pop.run s = .ok s.slots[s.sp.toNat - 1] { s with sp := .ofNat (s.sp.toNat - 1) } := by
  have hsp : (UInt8.ofNat (s.sp.toNat - 1)).toNat = s.sp.toNat - 1 := by
    rw [UInt8.toNat_ofNat']
    omega
  -- The slot is read after the count has gone down.
  have hr := run_readSlot (s := { s with sp := .ofNat (s.sp.toNat - 1) }) (hsp.symm ▸ hle)
  simp only [pop, EStateM.run_bind, EStateM.run_get, if_neg (Nat.ne_of_gt h), run_countDown h, hr,
    hsp]

theorem run_pop_of_empty (h : s.sp.toNat = 0) :
    pop.run s = .error (.fault (.stackUnderflow s.current)) s := by
  simp only [pop, EStateM.run_bind, EStateM.run_get, if_pos h]
  rfl

end StoredRegisters

namespace Registers

def stored (r : Registers) : StoredRegisters :=
  ⟨r.v, r.i, r.pc, r.stack.slots, .ofNat r.stack.depth⟩

variable (r : Registers)

theorem toNat_sp_stored : r.stored.sp.toNat = r.stack.depth := by
  have h := r.stack.depth_le
  change (UInt8.ofNat r.stack.depth).toNat = _
  rw [UInt8.toNat_ofNat']
  omega

theorem run_push_stored (w : UInt16) :
    (StoredRegisters.push w).run r.stored =
      match r.push w with
      | .ok r' => .ok () r'.stored
      | .error fault => .error (.fault fault) r.stored := by
  have hsp := r.toNat_sp_stored
  rcases Nat.lt_or_eq_of_le r.stack.depth_le with hd | hd
  · have hp : r.push w = .ok { r with
        stack := ⟨r.stack.slots.set r.stack.depth w hd, r.stack.depth + 1, hd⟩ } := by
      rw [push, CallStack.push?, dif_pos hd]
    rw [StoredRegisters.run_push_of_lt (hsp.symm ▸ hd), hp]
    simp only [hsp]
    rfl
  · rw [StoredRegisters.run_push_of_full (hsp.trans hd), push_eq_error_iff.mpr ⟨hd, rfl⟩]
    rfl

theorem run_pop_stored :
    StoredRegisters.pop.run r.stored =
      match r.pop with
      | .ok (w, r') => .ok w r'.stored
      | .error fault => .error (.fault fault) r.stored := by
  have hsp := r.toNat_sp_stored
  have hle := r.stack.depth_le
  rcases Nat.eq_zero_or_pos r.stack.depth with hd | hd
  · rw [StoredRegisters.run_pop_of_empty (hsp.trans hd), pop_eq_error_iff.mpr ⟨hd, rfl⟩]
    rfl
  · have hi : r.stack.depth - 1 < 16 := by omega
    have hp : r.pop = .ok (r.stack.slots[r.stack.depth - 1],
        { r with stack := ⟨r.stack.slots, r.stack.depth - 1, by omega⟩ }) := by
      rw [pop, CallStack.pop?, dif_pos hd]
    rw [StoredRegisters.run_pop_of_pos (hsp.symm ▸ hd) (hsp.symm ▸ hi), hp]
    simp only [hsp]
    rfl

/-! ## The stack as a list -/

/-- The registers after an action, and what it gives back. -/
def act (r : Registers) : RegisterAction → Registers × Except Fault (Option UInt16)
  | .push w =>
    match r.push w with
    | .ok r' => (r', .ok none)
    | .error fault => (r, .error fault)
  | .pop =>
    match r.pop with
    | .ok (w, r') => (r', .ok (some w))
    | .error fault => (r, .error fault)
  | .update u => (r.updated u, .ok none)

theorem updated_stored (u : RegisterUpdate) : r.stored.updated u = (r.updated u).stored := by
  have h := r.updated_withStack .empty u
  have hs := r.stack_updated u
  simp only [StoredRegisters.updated, stored, h, hs]

theorem run_act_stored (a : RegisterAction) :
    (StoredRegisters.act a).run r.stored =
      match r.act a with
      | (r', .ok answer) => .ok answer r'.stored
      | (r', .error fault) => .error (.fault fault) r'.stored := by
  cases a with
  | push w =>
    simp only [StoredRegisters.act, act, EStateM.run_bind, run_push_stored]
    cases r.push w <;> rfl
  | pop =>
    simp only [StoredRegisters.act, act, EStateM.run_bind, run_pop_stored]
    cases r.pop <;> rfl
  | update u => exact congrArg _ (r.updated_stored u)

theorem push_cases (w : UInt16) :
    (∃ stack, r.push w = .ok { r with stack } ∧ r.stack.toList.length < 16 ∧
      stack.toList = r.stack.toList ++ [w]) ∨
    (r.push w = .error (.stackOverflow r.current) ∧ r.stack.toList.length = 16) := by
  rw [CallStack.length_toList]
  cases hs : r.stack.push? w with
  | some stack =>
    have hp : r.push w = .ok { r with stack } := by rw [push, hs]
    have hd : r.stack.depth ≠ 16 := fun hd => by
      rw [(CallStack.push?_eq_none_iff _ _).mpr hd] at hs
      cases hs
    have hle := r.stack.depth_le
    exact .inl ⟨stack, hp, by omega, toList_push hp⟩
  | none =>
    have hd := (CallStack.push?_eq_none_iff _ _).mp hs
    exact .inr ⟨push_eq_error_iff.mpr ⟨hd, rfl⟩, hd⟩

theorem pop_cases :
    (∃ w stack, r.pop = .ok (w, { r with stack }) ∧ r.stack.toList = stack.toList ++ [w]) ∨
    (r.pop = .error (.stackUnderflow r.current) ∧ r.stack.toList = []) := by
  cases hs : r.stack.pop? with
  | some popped =>
    obtain ⟨w, stack⟩ := popped
    have hp : r.pop = .ok (w, { r with stack }) := by rw [pop, hs]
    exact .inl ⟨w, stack, hp, toList_pop hp⟩
  | none =>
    have hd := (CallStack.pop?_eq_none_iff _).mp hs
    exact .inr ⟨pop_eq_error_iff.mpr ⟨hd, rfl⟩, List.length_eq_zero_iff.mp (by simpa using hd)⟩

/-- An action treats the stack as a list of at most sixteen words, whatever else it updates. -/
theorem act_eq (a : RegisterAction) : ∃ stack, stack.toList = a.onLive r.stack.toList ∧
    r.act a = ({ a.onRest r with stack }, a.answer r.stack.toList r.current) := by
  cases a with
  | push w =>
    rcases r.push_cases w with ⟨stack, hp, hl, hs⟩ | ⟨hp, hl⟩
    · refine ⟨stack, ?_, ?_⟩
      · rw [hs, RegisterAction.onLive, if_pos hl]
      · simp only [act, hp, RegisterAction.answer, if_pos hl]
        rfl
    · have hn : ¬r.stack.toList.length < 16 := by omega
      refine ⟨r.stack, ?_, ?_⟩
      · rw [RegisterAction.onLive, if_neg hn]
      · simp only [act, hp, RegisterAction.answer, if_neg hn]
        rfl
  | pop =>
    rcases r.pop_cases with ⟨w, stack, hp, hs⟩ | ⟨hp, hs⟩
    · refine ⟨stack, ?_, ?_⟩
      · rw [hs, RegisterAction.onLive, List.dropLast_concat]
      · simp only [act, hp, RegisterAction.answer, hs, List.getLast?_concat]
        rfl
    · refine ⟨r.stack, ?_, ?_⟩
      · rw [hs]
        rfl
      · simp only [act, hp, hs]
        rfl
  | update u => exact ⟨r.stack, rfl, congrArg (·, _) (r.updated_withStack r.stack u)⟩

/-- What is refused changes nothing. -/
theorem act_of_error {a : RegisterAction} {fault : Fault} (h : (r.act a).2 = .error fault) :
    (r.act a).1 = r := by
  cases a with
  | push w => rcases r.push_cases w with ⟨_, hp, _⟩ | ⟨hp, _⟩ <;> simp [act, hp] at h ⊢
  | pop => rcases r.pop_cases with ⟨_, _, hp, _⟩ | ⟨hp, _⟩ <;> simp [act, hp] at h ⊢
  | update u => cases h

/-- The registers after a history of actions. -/
def after (r : Registers) (history : List RegisterAction) : Registers :=
  history.foldl (fun r a => (r.act a).1) r

theorem toList_after (history : List RegisterAction) :
    (r.after history).stack.toList = history.foldl RegisterAction.onLive r.stack.toList := by
  induction history generalizing r with
  | nil => rfl
  | cons a history ih =>
    obtain ⟨stack, hs, ha⟩ := r.act_eq a
    have h := ih (r.act a).1
    rw [ha, hs] at h
    rw [List.foldl_cons, ← h, after, List.foldl_cons, ha]
    rfl

theorem current_eq : r.current = .ofNat ((r.pc.toNat + 4094) % 4096) := by
  apply UInt16.toNat.inj
  have hpc := r.pc.toNat_lt
  rw [current, UInt16.toNat_mod, UInt16.toNat_sub, UInt16.toNat_ofNat']
  rw [show instructionSize.toNat = 2 from rfl, show (4096 : UInt16).toNat = 4096 from rfl]
  omega

/-- The live words are `live`, and every action treats them as a list of at most sixteen. What is
granted answers with the word taken from the list, if any, and changes besides the stack only what
it updates. What is refused names the address two below the program counter. -/
structure ActsAsList (r : Registers) (live : List UInt16) : Prop where
  toList : r.stack.toList = live
  length_le : live.length ≤ 16
  count : r.stored.sp.toNat = live.length
  granted : ∀ a answer, a.answer live (.ofNat ((r.pc.toNat + 4094) % 4096)) = .ok answer →
    ∃ stack, stack.toList = a.onLive live ∧
      r.act a = ({ a.onRest r with stack }, .ok answer) ∧
      (StoredRegisters.act a).run r.stored = .ok answer { a.onRest r with stack }.stored
  refused : ∀ a fault, a.answer live (.ofNat ((r.pc.toNat + 4094) % 4096)) = .error fault →
    r.act a = (r, .error fault) ∧
      (StoredRegisters.act a).run r.stored = .error (.fault fault) r.stored

theorem actsAsList : r.ActsAsList r.stack.toList where
  toList := rfl
  length_le := r.stack.length_toList ▸ r.stack.depth_le
  count := r.toNat_sp_stored.trans r.stack.length_toList.symm
  granted a answer h := by
    rw [← current_eq] at h
    obtain ⟨stack, hs, ha⟩ := r.act_eq a
    rw [h] at ha
    refine ⟨stack, hs, ha, ?_⟩
    rw [run_act_stored, ha]
  refused a fault h := by
    rw [← current_eq] at h
    obtain ⟨stack, -, ha⟩ := r.act_eq a
    rw [h] at ha
    have hf : (r.act a).2 = .error fault := by rw [ha]
    have hr : r.act a = (r, .error fault) := Prod.ext (r.act_of_error hf) hf
    refine ⟨hr, ?_⟩
    rw [run_act_stored, hr]

end Registers

namespace StoredRegisters

def initial : StoredRegisters :=
  ⟨Vector.replicate 16 0, 0, programStart, Vector.replicate 16 0, 0⟩

/-- What is left by an action, whether or not it breaks down. -/
def left (s : StoredRegisters) (a : RegisterAction) : StoredRegisters :=
  match (act a).run s with
  | .ok _ s' | .error _ s' => s'

def after (s : StoredRegisters) (history : List RegisterAction) : StoredRegisters :=
  history.foldl left s

theorem left_stored (r : Registers) (a : RegisterAction) :
    r.stored.left a = (r.act a).1.stored := by
  rw [left, Registers.run_act_stored]
  rcases r.act a with ⟨r', _ | _⟩ <;> rfl

theorem after_stored (r : Registers) (history : List RegisterAction) :
    r.stored.after history = (r.after history).stored := by
  induction history generalizing r with
  | nil => rfl
  | cons a history ih =>
    rw [after, List.foldl_cons, left_stored]
    exact ih (r.act a).1

end StoredRegisters

/-- After any history the registers, as they are stored, act as the list that the history leaves. -/
theorem Registers.actsAsList_after (history : List RegisterAction) :
    StoredRegisters.initial.after history = (initial.after history).stored ∧
      (initial.after history).ActsAsList (history.foldl RegisterAction.onLive []) :=
  ⟨StoredRegisters.after_stored initial history,
    initial.toList_after history ▸ (initial.after history).actsAsList⟩

example :
    let full := Registers.initial.after
      (.update (.assignCounter 0x302) :: List.replicate 16 (.push 0xFFFF))
    full.act (.push 0x16) = (full, .error (.stackOverflow 0x300)) ∧
      (full.act .pop).2 = .ok (some 0xFFFF) :=
  ⟨rfl, rfl⟩

end Chip8
