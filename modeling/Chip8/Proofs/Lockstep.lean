import Chip8.Proofs.Effects

/-! # Lockstep

Two machines that stay related from one instruction to the next stay related over whole batches, and
a batch of one fails just where that of the other does. -/
namespace Chip8

/-- Two attempts that end alike, with related results or by the same fault. -/
inductive Agree {α : Type} (R : α → α → Prop) : Except Fault α → Except Fault α → Prop
  | ok {a b : α} (related : R a b) : Agree R (.ok a) (.ok b)
  | error (fault : Fault) : Agree R (.error fault) (.error fault)

theorem Agree.map {α β : Type} {R : α → α → Prop} {S : β → β → Prop} {x y : Except Fault α}
    {f g : α → β} (h : Agree R x y) (hfg : ∀ {a b}, R a b → S (f a) (g b)) :
    Agree S (x.map f) (y.map g) := by
  cases h with
  | ok hr => exact .ok (hfg hr)
  | error fault => exact .error fault

theorem Agree.mono {α : Type} {R S : α → α → Prop} {x y : Except Fault α} (h : Agree R x y)
    (hrs : ∀ {a b}, x = .ok a → y = .ok b → R a b → S a b) : Agree S x y := by
  cases h with
  | ok hr => exact .ok (hrs rfl rfl hr)
  | error fault => exact .error fault

namespace Machine

theorem batch_lockstep {R : Machine → Machine → Prop} (mode : ∀ {a b}, R a b → b.mode = a.mode)
    (step : ∀ {a b}, R a b → Agree R a.step b.step)
    (failed : ∀ {a b}, R a b → R a.failed b.failed) (n : Nat) {a b : Machine} (h : R a b) :
    R (batch n a).1 (batch n b).1 ∧ (batch n b).2 = (batch n a).2 := by
  induction n generalizing a b with
  | zero => exact ⟨h, rfl⟩
  | succ n ih =>
    rw [batch, batch, mode h]
    split
    next =>
      have hs := step h
      generalize a.step = x at hs ⊢
      generalize b.step = y at hs ⊢
      cases hs with
      | ok hr => exact ih hr
      | error fault => exact ⟨failed h, rfl⟩
    next => exact ⟨h, rfl⟩

end Machine
end Chip8
