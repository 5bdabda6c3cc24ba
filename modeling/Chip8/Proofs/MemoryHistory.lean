import Chip8.Proofs.Loading

/-! # The history of a memory

What is read from a memory is what was last stored at the address, or else what it held when it was
new. All addresses count modulo 4096, and a load that does not fit below the end of memory stores
nothing. -/
namespace Chip8.Memory

inductive Request
  | write (address : UInt16) (byte : UInt8)
  | load (start : UInt16) (bytes : List UInt8)

/-- A load that is refused leaves the memory that it was asked of. -/
def respond (m : Memory) : Request → Memory × Except Fault Unit
  | .write w b => (m.write w b, .ok ())
  | .load start bytes =>
    match m.load start bytes with
    | .ok m' => (m', .ok ())
    | .error fault => (m, .error fault)

def after (m : Memory) : List Request → Memory
  | [] => m
  | r :: rs => (m.respond r).1.after rs

/-- The byte that the request stores at the address, if it stores one there. -/
def Request.stores? (a : Nat) : Request → Option UInt8
  | write w b => if w.toNat % 4096 = a then some b else none
  | load start bytes =>
    if start.toNat % 4096 + bytes.length ≤ 4096 ∧ start.toNat % 4096 ≤ a then
      bytes[a - start.toNat % 4096]?
    else none

/-- The byte stored last at the address, if there is one. -/
def latest? (a : Nat) (history : List Request) : Option UInt8 :=
  history.reverse.findSome? (Request.stores? a)

variable (m : Memory)

theorem respond_load (start : UInt16) (bytes : List UInt8) :
    m.respond (.load start bytes) =
      if start.toNat % 4096 + bytes.length ≤ 4096 then (m.store start bytes, .ok ())
      else (m, .error (.programTooLarge bytes.length (4096 - start.toNat % 4096))) := by
  have hr : room start = 4096 - start.toNat % 4096 := rfl
  simp only [respond, load, hr]
  by_cases h : start.toNat % 4096 + bytes.length ≤ 4096
  · rw [if_pos h, if_pos (by omega)]
  · rw [if_neg h, if_neg (by omega)]

/-- A program that fits does not go round the end of memory. -/
theorem get_store_of_fits {start : UInt16} {bytes : List UInt8}
    (h : start.toNat % 4096 + bytes.length ≤ 4096) (a : Address) :
    (m.store start bytes).get a =
      if start.toNat % 4096 ≤ a.val then (bytes[a.val - start.toNat % 4096]?).getD (m.get a)
      else m.get a := by
  have ha := a.isLt
  rw [get_store _ _ _ (by omega), Address.distance]
  split
  next hle =>
    have hd : (a.val + 4096 - start.toNat % 4096) % 4096 = a.val - start.toNat % 4096 := by omega
    rw [hd]
  next hlt => rw [List.getElem?_eq_none (by omega), Option.getD_none]

theorem get_respond (r : Request) (a : Address) :
    (m.respond r).1.get a = (r.stores? a.val).getD (m.get a) := by
  cases r with
  | write w b =>
    refine (m.get_write w b a).trans ?_
    by_cases h : w.toNat % 4096 = a.val
    · rw [if_pos (Fin.ext h.symm), Request.stores?, if_pos h, Option.getD_some]
    · have hne : a ≠ .ofWord w := fun ha => h (congrArg Fin.val ha).symm
      rw [if_neg hne, Request.stores?, if_neg h, Option.getD_none]
  | load start bytes =>
    rw [respond_load, Request.stores?]
    by_cases h : start.toNat % 4096 + bytes.length ≤ 4096
    · rw [if_pos h, get_store_of_fits m h]
      by_cases hle : start.toNat % 4096 ≤ a.val
      · rw [if_pos hle, if_pos ⟨h, hle⟩]
      · rw [if_neg hle, if_neg fun hc => hle hc.2, Option.getD_none]
    · rw [if_neg h, if_neg fun hc => h hc.1, Option.getD_none]

theorem get_after (history : List Request) (a : Address) :
    (m.after history).get a = (latest? a.val history).getD (m.get a) := by
  induction history generalizing m with
  | nil => rfl
  | cons r rs ih =>
    have hl : latest? a.val (r :: rs) = (latest? a.val rs).or (r.stores? a.val) := by
      rw [latest?, List.reverse_cons, List.findSome?_append, List.findSome?_singleton]
      rfl
    rw [after, ih, get_respond, hl]
    cases latest? a.val rs <;> rfl

theorem read_ofNat_mod (n : Nat) : m.read (UInt16.ofNat (n % 4096)) = m.get (.ofNat n) := by
  have ha : Address.ofWord (UInt16.ofNat (n % 4096)) = .ofNat n := by
    apply Fin.ext
    rw [Address.val_ofWord, Address.val_ofNat, UInt16.toNat_ofNat']
    omega
  rw [read, ha]

/-- A memory that was new and has since answered any requests holds at every address the byte stored
there last, or else its byte of the font or zero. Loads that fit succeed. Others are answered with
their size and the room there is, and change nothing. Ranges of any length and words are read byte
by byte, going round the end of memory. -/
theorem reads_latest (history : List Request) :
    let m := initial.after history
    (∀ w, m.read w =
        (latest? (w.toNat % 4096) history).getD ((font[w.toNat % 4096]?).getD 0)) ∧
      (∀ start bytes, (m.respond (.load start bytes)).2 =
        if start.toNat % 4096 + bytes.length ≤ 4096 then .ok ()
        else .error (.programTooLarge bytes.length (4096 - start.toNat % 4096))) ∧
      (∀ start bytes, ¬ start.toNat % 4096 + bytes.length ≤ 4096 →
        (m.respond (.load start bytes)).1 = m) ∧
      (∀ w n, (m.readRange w n).length = n ∧ ∀ k < n,
        (m.readRange w n)[k]? = some (m.read (UInt16.ofNat ((w.toNat + k) % 4096)))) ∧
      ∀ w, (m.readWord w).toNat =
        256 * (m.read w).toNat + (m.read (UInt16.ofNat ((w.toNat + 1) % 4096))).toNat := by
  intro m
  refine ⟨fun w => ?_, fun start bytes => ?_, fun start bytes h => ?_,
    fun w n => ⟨m.length_readRange w n, fun k hk => ?_⟩, fun w => ?_⟩
  · have hg := get_after initial history (.ofWord w)
    rwa [get_initial] at hg
  · rw [respond_load]
    split <;> rfl
  · rw [respond_load, if_neg h]
  · rw [getElem?_readRange, if_pos hk, read_ofNat_mod]
  · rw [toNat_readWord, read_ofNat_mod, ← Address.ofWord_add w 1]
    rfl

/-- A load up to the end of memory, a load beyond it and a write to the last address under another
name. The range is longer than the memory and than its index can count. -/
theorem reads_latest_wrapped :
    let history : List Request := [.load 0xFFE [1, 2], .load 0x1FFF [3, 4], .write 0xFFFF 5]
    let m := initial.after history
    m.read 0x2FFE = 1 ∧ m.read 0xFFF = 5 ∧ m.read 0xF000 = 0xF0 ∧
      (m.respond (.load 0x1FFF [3, 4])).1 = m ∧
      (m.readRange 0xFFFF 70000)[65536]? = some 5 := by
  intro history m
  obtain ⟨hread, _, hload, hrange, _⟩ := reads_latest history
  have h₅ : m.read 0xFFF = 5 := (hread 0xFFF).trans (by decide)
  refine ⟨(hread 0x2FFE).trans (by decide), h₅, (hread 0xF000).trans (by decide),
    hload 0x1FFF [3, 4] (by decide), ?_⟩
  refine ((hrange 0xFFFF 70000).2 65536 (by decide)).trans ?_
  exact congrArg some h₅

end Chip8.Memory
