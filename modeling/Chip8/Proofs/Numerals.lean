import Chip8.CommandLine

/-! # Numerals

The numbers that options take are decimal numerals, with or without a plus sign, as long as they are
of the right size. -/
namespace Chip8.CommandLine

variable {c : Char} {cs : List Char} {n : Nat} {value : String}

/-- Decimal digits, at least one of them, with the value `n`. -/
structure Denotes (cs : List Char) (n : Nat) : Prop where
  ne_nil : cs ≠ []
  digits : ∀ c ∈ cs, c.isDigit = true
  value : Nat.ofDigitChars 10 cs 0 = n

theorem denotes_toDigits (n : Nat) : Denotes (Nat.toDigits 10 n) n where
  ne_nil := Nat.toDigits_ne_nil
  digits := fun _ hc => Nat.isDigit_of_mem_toDigits (by decide) (by decide) hc
  value := Nat.ofDigitChars_toDigits (by decide) (by decide)

theorem digitValue?_eq (c : Char) :
    digitValue? c = if c.isDigit then some (c.toNat - 48) else none := by
  have h : c.isDigit = decide ('0' ≤ c ∧ c ≤ '9') := by
    rw [Bool.decide_and]
    rfl
  unfold digitValue?
  rw [h]
  simp only [decide_eq_true_eq]

theorem foldl_digits (cs : List Char) (n : Nat) :
    cs.foldl (fun n c => n.bind fun n => (digitValue? c).map (10 * n + ·)) (some n) =
      if cs.all Char.isDigit then some (Nat.ofDigitChars 10 cs n) else none := by
  induction cs generalizing n with
  | nil => rfl
  | cons c cs ih =>
    rw [List.foldl_cons, Option.bind_some, digitValue?_eq, List.all_cons]
    cases hc : c.isDigit with
    | true =>
      rw [if_pos rfl, Option.map_some, ih, Nat.ofDigitChars_cons, Bool.true_and]
      rfl
    | false =>
      have hn : ∀ cs : List Char, cs.foldl
          (fun n c => n.bind fun n => (digitValue? c).map (10 * n + ·)) none = none := by
        intro cs
        induction cs with
        | nil => rfl
        | cons c cs ih => exact ih
      rw [if_neg Bool.false_ne_true, Option.map_none, hn, Bool.false_and,
        if_neg Bool.false_ne_true]

theorem digits?_eq_some_iff : digits? cs = some n ↔ Denotes cs n := by
  cases cs with
  | nil => exact ⟨nofun, fun h => absurd rfl h.ne_nil⟩
  | cons c cs =>
    change (c :: cs).foldl _ (some 0) = _ ↔ _
    rw [foldl_digits, Option.ite_none_right_eq_some, Option.some.injEq, List.all_eq_true]
    exact ⟨fun ⟨hd, hv⟩ => ⟨nofun, hd, hv⟩, fun h => ⟨h.digits, h.value⟩⟩

/-- A numeral with the value `n`. -/
def Numeral (value : String) (n : Nat) : Prop :=
  Denotes value.toList n ∨ ∃ cs, value.toList = '+' :: cs ∧ Denotes cs n

/-- The only number with a minus sign. -/
def MinusZero (value : String) : Prop := ∃ cs, value.toList = '-' :: cs ∧ Denotes cs 0

theorem numeral_toString (n : Nat) : Numeral (toString n) n := by
  left
  rw [Nat.toString_eq_repr, Nat.toList_repr]
  exact denotes_toDigits n

/-- No sign is a digit. -/
theorem Denotes.isDigit_head (h : Denotes (c :: cs) n) : c.isDigit = true :=
  h.digits c List.mem_cons_self

theorem unsigned?_eq_some_iff : unsigned? value.toList = some n ↔ Numeral value n := by
  unfold unsigned? Numeral
  split
  next cs hv =>
    rw [digits?_eq_some_iff]
    constructor
    · exact fun h => .inr ⟨cs, hv, h⟩
    · rintro (h | ⟨cs', hv', h⟩)
      · rw [hv] at h
        exact absurd h.isDigit_head (by decide)
      · rw [hv] at hv'
        cases hv'
        exact h
  next hv =>
    rw [digits?_eq_some_iff]
    refine ⟨.inl, ?_⟩
    rintro (h | ⟨cs, hv', _⟩)
    · exact h
    · exact absurd hv' (hv cs)

theorem signed?_eq_some_iff : signed? value.toList = some n ↔
    Numeral value n ∨ n = 0 ∧ MinusZero value := by
  unfold signed?
  split
  next cs hv =>
    rw [Option.filter_eq_some_iff, digits?_eq_some_iff, decide_eq_true_eq]
    constructor
    · rintro ⟨h, rfl⟩
      exact .inr ⟨rfl, cs, hv, h⟩
    · rintro (h | ⟨rfl, cs', hv', h⟩)
      · rcases h with h | ⟨_, hv', _⟩
        · rw [hv] at h
          exact absurd h.isDigit_head (by decide)
        · rw [hv] at hv'
          cases hv'
      · rw [hv] at hv'
        cases hv'
        exact ⟨h, rfl⟩
  next hv =>
    rw [unsigned?_eq_some_iff]
    refine ⟨.inl, ?_⟩
    rintro (h | ⟨_, cs, hv', _⟩)
    · exact h
    · exact absurd hv' (hv cs)

theorem word64?_eq_some_iff {w : UInt64} : word64? value = some w ↔ Numeral value w.toNat := by
  rw [word64?, Option.bind_eq_some_iff]
  constructor
  · rintro ⟨n, hn, hw⟩
    obtain ⟨hlt, hw⟩ := Option.ite_none_right_eq_some.mp hw
    cases hw
    rw [UInt64.toNat_ofNat_of_lt' hlt]
    exact unsigned?_eq_some_iff.mp hn
  · intro h
    refine ⟨w.toNat, unsigned?_eq_some_iff.mpr h, ?_⟩
    rw [if_pos w.toNat_lt, UInt64.ofNat_toNat]

theorem word32?_eq_some_iff {least : Nat} {w : UInt32} : word32? least value = some w ↔
    least ≤ w.toNat ∧ (Numeral value w.toNat ∨ w = 0 ∧ MinusZero value) := by
  rw [word32?, Option.bind_eq_some_iff]
  have hzero : ∀ w : UInt32, w.toNat = 0 ↔ w = 0 := fun w => UInt32.toNat_inj (b := 0)
  constructor
  · rintro ⟨n, hn, hw⟩
    obtain ⟨⟨hle, hlt⟩, hw⟩ := Option.ite_none_right_eq_some.mp hw
    cases hw
    rw [← hzero, UInt32.toNat_ofNat_of_lt' hlt]
    exact ⟨hle, signed?_eq_some_iff.mp hn⟩
  · rintro ⟨hle, h⟩
    rw [← hzero] at h
    refine ⟨w.toNat, signed?_eq_some_iff.mpr h, ?_⟩
    rw [if_pos ⟨hle, w.toNat_lt⟩, UInt32.ofNat_toNat]

end Chip8.CommandLine
