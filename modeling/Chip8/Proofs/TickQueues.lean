import Chip8.Agenda

/-! # Queues of ticks

What is asked of a queue of ticks and what it answers. Popping takes the tick that is due first, and
the first one scheduled of those that are due at the same time. A queue that can be read as a list
of waiting ticks, and changes as the list does, gives the only answers that are right. -/
namespace Chip8

inductive TickRequest
  | schedule (t : PendingTick)
  | popDue (now : Nat)

def TickRequest.schedules : TickRequest → Bool
  | schedule _ => true
  | popDue _ => false

/-- Something that keeps ticks until they are due. -/
structure TickQueue where
  State : Type
  empty : State
  schedule : State → PendingTick → State
  popDue? : State → Nat → Option (PendingTick × State)
  length : State → Nat

namespace TickQueue

/-- Carries out a request and answers with the tick that has been popped, if any. -/
def serve (Q : TickQueue) (q : Q.State) : TickRequest → Option PendingTick × Q.State
  | .schedule t => (none, Q.schedule q t)
  | .popDue now =>
    match Q.popDue? q now with
    | some (t, q') => (some t, q')
    | none => (none, q)

def serveAll (Q : TickQueue) (q : Q.State) : List TickRequest → List (Option PendingTick) × Q.State
  | [] => ([], q)
  | r :: rs =>
    let served := Q.serve q r
    let rest := Q.serveAll served.2 rs
    (served.1 :: rest.1, rest.2)

/-- The answers of a new queue. -/
def answers (Q : TickQueue) (rs : List TickRequest) : List (Option PendingTick) :=
  (Q.serveAll Q.empty rs).1

/-- How many ticks a new queue holds after the requests. -/
def lengthAfter (Q : TickQueue) (rs : List TickRequest) : Nat :=
  Q.length (Q.serveAll Q.empty rs).2

end TickQueue

/-- What popping takes from the ticks that are waiting, listed as they were scheduled: the first of
those that are due the earliest, unless all are due later. -/
inductive Pops (now : Nat) : List PendingTick → Option PendingTick → List PendingTick → Prop
  | tick {before after : List PendingTick} {t : PendingTick} (due : t.due ≤ now)
    (earliest : ∀ u ∈ before, t.due < u.due) (least : ∀ u ∈ after, t.due ≤ u.due) :
    Pops now (before ++ t :: after) (some t) (before ++ after)
  | nothing {ts : List PendingTick} (later : ∀ t ∈ ts, now < t.due) : Pops now ts none ts

/-- The requests are answered so, and the waiting ticks change from the first list to the second. -/
inductive Serves : List PendingTick → List TickRequest → List (Option PendingTick) →
    List PendingTick → Prop
  | nil (ts : List PendingTick) : Serves ts [] [] ts
  | schedule {ts ts' : List PendingTick} {t : PendingTick} {rs : List TickRequest}
    {answers : List (Option PendingTick)} (rest : Serves (ts ++ [t]) rs answers ts') :
    Serves ts (.schedule t :: rs) (none :: answers) ts'
  | popDue {ts ts₁ ts' : List PendingTick} {now : Nat} {answer : Option PendingTick}
    {rs : List TickRequest} {answers : List (Option PendingTick)} (pops : Pops now ts answer ts₁)
    (rest : Serves ts₁ rs answers ts') : Serves ts (.popDue now :: rs) (answer :: answers) ts'

namespace Pops

variable {now : Nat} {ts ts₁ ts₂ : List PendingTick} {a b : Option PendingTick}

/-- Of two splits at a first earliest tick, neither can be inside the other. -/
theorem split_unique {before after before' after' : List PendingTick} {t t' : PendingTick}
    (h : before ++ t :: after = before' ++ t' :: after')
    (least : ∀ u ∈ after, t.due ≤ u.due) (earliest' : ∀ u ∈ before', t'.due < u.due)
    (earliest : ∀ u ∈ before, t.due < u.due) (least' : ∀ u ∈ after', t'.due ≤ u.due) :
    before = before' ∧ t = t' ∧ after = after' := by
  rcases List.append_eq_append_iff.mp h with ⟨l, rfl, hl⟩ | ⟨l, rfl, hl⟩
  · cases l with
    | nil =>
      cases hl
      simp
    | cons u l =>
      cases hl
      have := earliest' t (by simp)
      have := least t' (by simp)
      omega
  · cases l with
    | nil =>
      cases hl
      simp
    | cons u l =>
      cases hl
      have := earliest t' (by simp)
      have := least' t (by simp)
      omega

theorem unique (h : Pops now ts a ts₁) (h' : Pops now ts b ts₂) : a = b ∧ ts₁ = ts₂ := by
  generalize hs : ts = ts' at h'
  cases h with
  | tick due earliest least =>
    cases h' with
    | tick _ earliest' least' =>
      obtain ⟨rfl, rfl, rfl⟩ := split_unique hs least earliest' earliest least'
      exact ⟨rfl, rfl⟩
    | nothing later =>
      have := later _ (hs ▸ List.mem_append_cons_self)
      omega
  | nothing later =>
    cases h' with
    | tick due _ _ =>
      have := later _ (hs.symm ▸ List.mem_append_cons_self)
      omega
    | nothing _ => exact ⟨rfl, hs⟩

theorem head {t : PendingTick} (due : t.due ≤ now) (least : ∀ u ∈ ts, t.due ≤ u.due) :
    Pops now (t :: ts) (some t) ts :=
  @tick now [] ts t due (by simp) least

theorem cons {t u : PendingTick} (h : Pops now ts (some u) ts₁) (hlt : u.due < t.due) :
    Pops now (t :: ts) (some u) (t :: ts₁) := by
  cases h with
  | @tick before after _ due earliest least =>
    exact @tick now (t :: before) after u due (List.forall_mem_cons.mpr ⟨hlt, earliest⟩) least

theorem due_le {t : PendingTick} (h : Pops now ts (some t) ts₁) : t.due ≤ now := by
  cases h with
  | tick due _ _ => exact due

theorem least {t : PendingTick} (h : Pops now ts (some t) ts₁) : ∀ u ∈ ts, t.due ≤ u.due := by
  cases h with
  | tick _ earliest least =>
    intro u hu
    rcases List.mem_append.mp hu with hu | hu
    · exact Nat.le_of_lt (earliest u hu)
    · rcases List.mem_cons.mp hu with rfl | hu
      · exact Nat.le_refl _
      · exact least u hu

theorem exists_pops (now : Nat) (ts : List PendingTick) : ∃ a ts', Pops now ts a ts' := by
  induction ts with
  | nil => exact ⟨none, [], .nothing (by simp)⟩
  | cons t ts ih =>
    obtain ⟨a, ts', h⟩ := ih
    cases a with
    | some u =>
      by_cases hlt : u.due < t.due
      · exact ⟨some u, t :: ts', h.cons hlt⟩
      · have hle : t.due ≤ u.due := Nat.le_of_not_lt hlt
        have hleast : ∀ v ∈ ts, t.due ≤ v.due := fun v hv => Nat.le_trans hle (h.least v hv)
        exact ⟨some t, ts, .head (Nat.le_trans hle h.due_le) hleast⟩
    | none =>
      cases h with
      | nothing later =>
        by_cases hle : t.due ≤ now
        · have hleast : ∀ v ∈ ts, t.due ≤ v.due := fun v hv =>
            Nat.le_trans hle (Nat.le_of_lt (later v hv))
          exact ⟨some t, ts, .head hle hleast⟩
        · exact ⟨none, t :: ts,
            .nothing (List.forall_mem_cons.mpr ⟨Nat.lt_of_not_le hle, later⟩)⟩

end Pops

theorem PendingTick.filter_due_of_lt {due : Nat} {ts : List PendingTick}
    (h : ∀ t ∈ ts, due < t.due) : ts.filter (·.due = due) = [] :=
  List.filter_eq_nil_iff.mpr fun t ht => by simpa using Nat.ne_of_gt (h t ht)

/-- The ticks of the second list by the time when they are due, and as in that list if they are due
at the same time. -/
structure InOrder (us ts : List PendingTick) : Prop where
  sorted : us.Pairwise fun t u => t.due ≤ u.due
  stable : ∀ due, us.filter (·.due = due) = ts.filter (·.due = due)

namespace InOrder

variable {us ts before after : List PendingTick} {t : PendingTick}

theorem perm (h : InOrder us ts) : us.Perm ts := by
  refine List.perm_iff_count.mpr fun u => ?_
  have hc := congrArg (List.count u) (h.stable u.due)
  rwa [List.count_filter (by simp), List.count_filter (by simp)] at hc

/-- The first tick of a list in order is the first of the earliest in the other list. -/
theorem exists_split (h : InOrder (t :: us) ts) :
    ∃ before after, ts = before ++ t :: after ∧ (∀ u ∈ before, t.due < u.due) ∧
      (∀ u ∈ after, t.due ≤ u.due) ∧ InOrder us (before ++ after) := by
  obtain ⟨hle, hsorted⟩ := List.pairwise_cons.mp h.sorted
  have hleast : ∀ u ∈ ts, t.due ≤ u.due := by
    intro u hu
    rcases List.mem_cons.mp (h.perm.mem_iff.mpr hu) with rfl | hu
    · exact Nat.le_refl _
    · exact hle u hu
  have ht := (h.stable t.due).symm
  rw [List.filter_cons_of_pos (by simp), List.filter_eq_cons_iff] at ht
  obtain ⟨before, after, rfl, hb, _, ha⟩ := ht
  refine ⟨before, after, rfl, fun u hu => ?_, fun u hu => hleast u (by simp [hu]), hsorted,
    fun due => ?_⟩
  · have hne : u.due ≠ t.due := by simpa using hb u hu
    have := hleast u (by simp [hu])
    omega
  · have hd := h.stable due
    by_cases hdue : t.due = due
    · subst hdue
      have hn : before.filter (·.due = t.due) = [] := List.filter_eq_nil_iff.mpr hb
      rw [List.filter_append, hn, ha, List.nil_append]
    · rw [List.filter_cons_of_neg (by simpa using hdue), List.filter_append,
        List.filter_cons_of_neg (by simpa using hdue), ← List.filter_append] at hd
      exact hd

theorem cons (h : InOrder us (before ++ after)) (earliest : ∀ u ∈ before, t.due < u.due)
    (least : ∀ u ∈ after, t.due ≤ u.due) : InOrder (t :: us) (before ++ t :: after) where
  sorted := by
    refine List.pairwise_cons.mpr ⟨fun u hu => ?_, h.sorted⟩
    rcases List.mem_append.mp (h.perm.mem_iff.mp hu) with hu | hu
    · exact Nat.le_of_lt (earliest u hu)
    · exact least u hu
  stable := by
    intro due
    have hd := h.stable due
    rw [List.filter_append] at hd ⊢
    by_cases hdue : t.due = due
    · subst hdue
      rw [PendingTick.filter_due_of_lt earliest, List.nil_append] at hd ⊢
      rw [List.filter_cons_of_pos (by simp), hd, List.filter_cons_of_pos (by simp)]
    · rw [List.filter_cons_of_neg (by simpa using hdue), hd,
        List.filter_cons_of_neg (by simpa using hdue)]

end InOrder

namespace Serves

variable {ts ts' ts₁ ts₂ : List PendingTick} {rs rs' : List TickRequest}
  {as as' : List (Option PendingTick)}

theorem unique (h : Serves ts rs as ts₁) (h' : Serves ts rs as' ts₂) : as = as' ∧ ts₁ = ts₂ := by
  induction h generalizing as' ts₂ with
  | nil ts =>
    cases h'
    exact ⟨rfl, rfl⟩
  | schedule _ ih =>
    cases h' with
    | schedule rest =>
      obtain ⟨rfl, rfl⟩ := ih rest
      exact ⟨rfl, rfl⟩
  | popDue pops _ ih =>
    cases h' with
    | popDue pops' rest =>
      obtain ⟨rfl, rfl⟩ := pops.unique pops'
      obtain ⟨rfl, rfl⟩ := ih rest
      exact ⟨rfl, rfl⟩

theorem append (h : Serves ts rs as ts₁) (h' : Serves ts₁ rs' as' ts₂) :
    Serves ts (rs ++ rs') (as ++ as') ts₂ := by
  induction h with
  | nil ts => exact h'
  | schedule _ ih => exact .schedule (ih h')
  | popDue pops _ ih => exact .popDue pops (ih h')

/-- Popping until nothing is due any more takes out the ticks that are due, in order, and leaves the
others as they are. -/
theorem drain (now : Nat) (ts : List PendingTick) :
    ∃ due, InOrder due (ts.filter (·.due ≤ now)) ∧
      Serves ts (List.replicate (due.length + 1) (.popDue now)) (due.map some ++ [none])
        (ts.filter (now < ·.due)) := by
  -- what popping leaves is not the tail of the list, so the induction is on its length
  induction hn : ts.length generalizing ts with
  | zero =>
    obtain rfl := List.length_eq_zero_iff.mp hn
    exact ⟨[], ⟨.nil, fun _ => rfl⟩, .popDue (.nothing (by simp)) (.nil _)⟩
  | succ n ih =>
    obtain ⟨a, ts', h⟩ := Pops.exists_pops now ts
    cases h with
    | @tick before after t due earliest least =>
      have hlength : (before ++ after).length = n := by
        simp only [List.length_append, List.length_cons] at hn ⊢
        omega
      obtain ⟨us, hus, hserves⟩ := ih (before ++ after) hlength
      rw [List.filter_append] at hus
      have hin := hus.cons (fun u hu => earliest u (List.mem_filter.mp hu).1)
        (fun u hu => least u (List.mem_filter.mp hu).1)
      have hrest : (before ++ after).filter (now < ·.due) =
          (before ++ t :: after).filter (now < ·.due) := by
        rw [List.filter_append, List.filter_append, List.filter_cons_of_neg (by simpa using due)]
      refine ⟨t :: us, ?_, .popDue (.tick due earliest least) (hrest ▸ hserves)⟩
      rw [List.filter_append, List.filter_cons_of_pos (by simpa using due)]
      exact hin
    | nothing later =>
      have hnone : ts.filter (·.due ≤ now) = [] :=
        List.filter_eq_nil_iff.mpr fun t ht => by simpa using later t ht
      have hall : ts.filter (now < ·.due) = ts :=
        List.filter_eq_self.mpr fun t ht => by simpa using later t ht
      rw [hnone, hall]
      exact ⟨[], ⟨.nil, fun _ => rfl⟩, .popDue (.nothing later) (.nil _)⟩

/-- As many ticks wait as have been scheduled and not popped. -/
theorem length_add (h : Serves ts rs as ts') :
    ts'.length + as.countP (·.isSome) = ts.length + rs.countP TickRequest.schedules := by
  induction h with
  | nil ts => rfl
  | schedule _ ih =>
    rw [List.length_append, List.length_singleton] at ih
    rw [List.countP_cons_of_neg (by simp), List.countP_cons_of_pos rfl]
    omega
  | popDue pops _ ih =>
    rw [List.countP_cons_of_neg (a := TickRequest.popDue _) (by simp [TickRequest.schedules])]
    cases pops with
    | tick _ _ _ =>
      rw [List.countP_cons_of_pos rfl]
      simp only [List.length_append, List.length_cons] at ih ⊢
      omega
    | nothing _ => rwa [List.countP_cons_of_neg (by simp)]

end Serves

namespace TickQueue

section

variable {Q : TickQueue} {q q' : Q.State} {now : Nat}

theorem serve_of_some {t : PendingTick} (h : Q.popDue? q now = some (t, q')) :
    Q.serve q (.popDue now) = (some t, q') := by
  rw [serve, h]

theorem serve_of_none (h : Q.popDue? q now = none) : Q.serve q (.popDue now) = (none, q) := by
  rw [serve, h]

end

/-- A queue that holds what the relation says does as a list of waiting ticks. -/
structure Follows (Q : TickQueue) (Holds : Q.State → List PendingTick → Prop) : Prop where
  empty : Holds Q.empty []
  schedule : ∀ {q ts} t, Holds q ts → Holds (Q.schedule q t) (ts ++ [t])
  tick : ∀ {q ts now t q'}, Holds q ts → Q.popDue? q now = some (t, q') →
    ∃ ts', Pops now ts (some t) ts' ∧ Holds q' ts'
  nothing : ∀ {q ts now}, Holds q ts → Q.popDue? q now = none → ∀ t ∈ ts, now < t.due
  length : ∀ {q ts}, Holds q ts → Q.length q = ts.length

variable {Q : TickQueue} {Holds : Q.State → List PendingTick → Prop}

theorem Follows.serveAll (h : Q.Follows Holds) {q : Q.State} {ts : List PendingTick}
    (hq : Holds q ts) (rs : List TickRequest) :
    ∃ ts', Serves ts rs (Q.serveAll q rs).1 ts' ∧ Holds (Q.serveAll q rs).2 ts' := by
  induction rs generalizing q ts with
  | nil => exact ⟨ts, .nil ts, hq⟩
  | cons r rs ih =>
    cases r with
    | schedule t =>
      obtain ⟨ts', hs, hq'⟩ := ih (h.schedule t hq)
      exact ⟨ts', .schedule hs, hq'⟩
    | popDue now =>
      rw [TickQueue.serveAll]
      cases hp : Q.popDue? q now with
      | none =>
        rw [serve_of_none hp]
        obtain ⟨ts', hs, hq'⟩ := ih hq
        exact ⟨ts', .popDue (.nothing (h.nothing hq hp)) hs, hq'⟩
      | some popped =>
        obtain ⟨t, q'⟩ := popped
        rw [serve_of_some hp]
        obtain ⟨ts₁, hpops, hq₁⟩ := h.tick hq hp
        obtain ⟨ts', hs, hq'⟩ := ih hq₁
        exact ⟨ts', .popDue hpops hs, hq'⟩

theorem Follows.serves (h : Q.Follows Holds) (rs : List TickRequest) :
    ∃ ts, Serves [] rs (Q.answers rs) ts ∧ Q.lengthAfter rs = ts.length := by
  obtain ⟨ts, hs, hq⟩ := h.serveAll h.empty rs
  exact ⟨ts, hs, h.length hq⟩

end TickQueue

end Chip8
