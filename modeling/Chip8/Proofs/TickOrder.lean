import Chip8.Proofs.TickQueues
import Mathlib.Data.List.Sort
import Mathlib.Data.Multiset.Basic

/-! # The order of ticks

Ticks leave the agenda by the time when they are due, and those due at the same time in the order in
which they were scheduled. A heap that numbers its ticks and takes the tick that is due first, with
the lowest number, as the greatest gives the same answers. -/
namespace Chip8

namespace Agenda

def queue : TickQueue := ⟨Agenda, empty, schedule, popDue?, length⟩

theorem filter_insert {t : PendingTick} {us : List PendingTick}
    (h : us.Pairwise fun t u => t.due ≤ u.due) (due : Nat) :
    (insert t us).filter (·.due = due) = (us ++ [t]).filter (·.due = due) := by
  induction us with
  | nil => rfl
  | cons u us ih =>
    obtain ⟨hu, hus⟩ := List.pairwise_cons.mp h
    unfold insert
    split
    next => rw [List.cons_append, List.filter_cons, List.filter_cons, ih hus]
    next hlt =>
      have hlt : t.due < u.due := Nat.lt_of_not_le hlt
      have hlater : ∀ v ∈ u :: us, t.due < v.due :=
        List.forall_mem_cons.mpr ⟨hlt, fun v hv => hlt.trans_le (hu v hv)⟩
      rw [List.filter_append]
      by_cases hdue : t.due = due
      · subst hdue
        rw [List.filter_cons_of_pos (by simp), PendingTick.filter_due_of_lt hlater]
        simp
      · rw [List.filter_cons_of_neg (by simpa using hdue)]
        simp [hdue]

theorem follows : queue.Follows fun a ts => InOrder (Agenda.ticks a) ts where
  empty := ⟨.nil, fun _ => rfl⟩
  schedule := by
    intro a ts t h
    refine ⟨(Agenda.schedule a t).sorted, fun due => ?_⟩
    have hd := h.stable due
    change (insert t (Agenda.ticks a)).filter _ = _
    rw [filter_insert (Agenda.sorted a), List.filter_append, hd, List.filter_append]
  tick := by
    intro a ts now t a' h hp
    obtain ⟨ht, hdue⟩ := ticks_of_popDue? hp
    rw [ht] at h
    obtain ⟨before, after, rfl, hb, ha, hrest⟩ := h.exists_split
    exact ⟨_, .tick hdue hb ha, hrest⟩
  nothing := by
    intro a ts now h hp t ht
    exact (popDue?_eq_none_iff a now).mp hp t (h.perm.mem_iff.mpr ht)
  length := by
    intro a ts h
    exact h.perm.length_eq

end Agenda

/-- A tick with its number in the order of scheduling. -/
structure NumberedTick where
  tick : PendingTick
  /-- Grows without bound. It fits 64 bits while fewer than `UInt64.size` ticks have been
  scheduled, by `MaxHeap.number_lt`. -/
  number : Nat

namespace NumberedTick

/-- The greater one of two ticks is due earlier, or at the same time and has the lower number. -/
def order (a b : NumberedTick) : Ordering :=
  (compare b.tick.due a.tick.due).then (compare b.number a.number)

theorem isLE_order_iff (a b : NumberedTick) :
    (a.order b).isLE = true ↔
      b.tick.due < a.tick.due ∨ b.tick.due = a.tick.due ∧ b.number ≤ a.number := by
  rw [order, Ordering.isLE_then_iff_or, Nat.compare_eq_lt, Nat.compare_eq_eq, Nat.isLE_compare]

instance : Std.TransCmp order where
  eq_swap := by
    intro a b
    rw [order, order, Ordering.swap_then, Nat.compare_swap, Nat.compare_swap]
  isLE_trans := by
    intro a b c hab hbc
    rw [isLE_order_iff] at hab hbc ⊢
    omega

end NumberedTick

/-- A heap with the greatest item first. Nothing is said of where the items are kept. -/
structure MaxHeap {α : Type} (order : α → α → Ordering) [Std.TransCmp order] where
  Heap : Type
  items : Heap → Multiset α
  empty : Heap
  push : Heap → α → Heap
  peek? : Heap → Option α
  pop? : Heap → Option (α × Heap)
  length : Heap → Nat
  items_empty : items empty = 0
  items_push : ∀ h a, items (push h a) = a ::ₘ items h
  peek?_none : ∀ {h}, peek? h = none → items h = 0
  peek?_some : ∀ {h a}, peek? h = some a → a ∈ items h ∧ ∀ b ∈ items h, (order b a).isLE = true
  pop?_none : ∀ {h}, pop? h = none → items h = 0
  pop?_some : ∀ {h a h'}, pop? h = some (a, h') →
    items h = a ::ₘ items h' ∧ ∀ b ∈ items h, (order b a).isLE = true
  length_eq : ∀ h, length h = (items h).card

namespace MaxHeap

variable (H : MaxHeap NumberedTick.order)

/-- A heap with the number of the tick that was scheduled last. -/
def queue : TickQueue where
  State := H.Heap × Nat
  empty := (H.empty, 0)
  schedule q t := (H.push q.1 ⟨t, q.2 + 1⟩, q.2 + 1)
  popDue? q now :=
    match H.peek? q.1 with
    | some k =>
      if k.tick.due ≤ now then (H.pop? q.1).map fun (k, heap) => (k.tick, heap, q.2) else none
    | none => none
  length q := H.length q.1

/-- The heap holds the ticks, numbered as they are listed. -/
def Holds (q : H.Heap × Nat) (ts : List PendingTick) : Prop :=
  ∃ ks : List NumberedTick, ks.map (·.tick) = ts ∧ H.items q.1 = ks ∧
    ks.Pairwise (fun k l => k.number < l.number) ∧ ∀ k ∈ ks, k.number ≤ q.2

variable {H}

theorem popDue?_some {heap : H.Heap} {n now : Nat} {t : PendingTick} {q' : H.Heap × Nat}
    (h : H.queue.popDue? (heap, n) now = some (t, q')) :
    ∃ k k' heap', H.peek? heap = some k ∧ k.tick.due ≤ now ∧ H.pop? heap = some (k', heap') ∧
      k'.tick = t ∧ (heap', n) = q' := by
  simp only [queue] at h
  split at h
  next k hpeek =>
    split at h
    next hdue =>
      obtain ⟨⟨k', heap'⟩, hpop, heq⟩ := Option.map_eq_some_iff.mp h
      exact ⟨k, k', heap', hpeek, hdue, hpop, congrArg Prod.fst heq, congrArg Prod.snd heq⟩
    next => cases h
  next => cases h

theorem popDue?_none {heap : H.Heap} {n now : Nat} {l : NumberedTick}
    (h : H.queue.popDue? (heap, n) now = none) (hl : l ∈ H.items heap) :
    ∃ k, H.peek? heap = some k ∧ now < k.tick.due := by
  simp only [queue] at h
  split at h
  next k hpeek =>
    split at h
    next hdue =>
      rw [H.pop?_none (Option.map_eq_none_iff.mp h)] at hl
      exact absurd hl (Multiset.notMem_zero l)
    next hlater => exact ⟨k, hpeek, Nat.lt_of_not_le hlater⟩
  next hpeek =>
    rw [H.peek?_none hpeek] at hl
    exact absurd hl (Multiset.notMem_zero l)

theorem pops_of_pop? {ks : List NumberedTick} {heap heap' : H.Heap} {k : NumberedTick} {now : Nat}
    (hks : H.items heap = ks) (hnumbers : ks.Pairwise fun k l => k.number < l.number)
    (hp : H.pop? heap = some (k, heap')) (hdue : k.tick.due ≤ now) :
    ∃ ks' : List NumberedTick, Pops now (ks.map (·.tick)) (some k.tick) (ks'.map (·.tick)) ∧
      H.items heap' = ks' ∧ ks'.Sublist ks := by
  obtain ⟨hitems, hmax⟩ := H.pop?_some hp
  have hk : k ∈ ks := by
    rw [← Multiset.mem_coe, ← hks, hitems]
    exact Multiset.mem_cons_self k _
  have hle : ∀ l ∈ ks, k.tick.due < l.tick.due ∨ k.tick.due = l.tick.due ∧ k.number ≤ l.number := by
    intro l hl
    rw [← Multiset.mem_coe, ← hks] at hl
    exact (NumberedTick.isLE_order_iff l k).mp (hmax l hl)
  obtain ⟨before, after, rfl⟩ := List.append_of_mem hk
  have hbefore : ∀ l ∈ before, l.number < k.number := fun l hl =>
    (List.pairwise_append.mp hnumbers).2.2 l hl k List.mem_cons_self
  refine ⟨before ++ after, ?_, ?_, by simp⟩
  · rw [List.map_append, List.map_append, List.map_cons]
    refine .tick hdue (List.forall_mem_map.mpr fun l hl => ?_)
      (List.forall_mem_map.mpr fun l hl => ?_)
    · have := hbefore l hl
      have := hle l (by simp [hl])
      omega
    · have := hle l (by simp [hl])
      omega
  · have hcons : k ::ₘ H.items heap' = k ::ₘ (↑(before ++ after) : Multiset NumberedTick) := by
      rw [← hitems, hks, Multiset.cons_coe, Multiset.coe_eq_coe]
      exact List.perm_middle
    exact (Multiset.cons_inj_right k).mp hcons

theorem follows (H : MaxHeap NumberedTick.order) : H.queue.Follows H.Holds where
  empty := ⟨[], rfl, H.items_empty, .nil, by simp⟩
  schedule := by
    rintro ⟨heap, n⟩ ts t ⟨ks, rfl, hks, hnumbers, hle⟩
    refine ⟨ks ++ [⟨t, n + 1⟩], by simp, ?_, ?_, ?_⟩
    · change H.items (H.push heap ⟨t, n + 1⟩) = _
      rw [H.items_push, hks, Multiset.cons_coe, Multiset.coe_eq_coe]
      exact (List.perm_append_singleton _ _).symm
    · refine List.pairwise_append.mpr ⟨hnumbers, List.pairwise_singleton _ _, ?_⟩
      intro k hk l hl
      obtain rfl := List.mem_singleton.mp hl
      exact Nat.lt_succ_of_le (hle k hk)
    · intro k hk
      rcases List.mem_append.mp hk with hk | hk
      · exact Nat.le_succ_of_le (hle k hk)
      · obtain rfl := List.mem_singleton.mp hk
        exact Nat.le_refl _
  tick := by
    rintro ⟨heap, n⟩ ts now t q' ⟨ks, rfl, hks, hnumbers, hle⟩ hp
    obtain ⟨k, k', heap', hpeek, hdue, hpop, rfl, rfl⟩ := popDue?_some hp
    obtain ⟨hk, -⟩ := H.peek?_some hpeek
    have hdue' : k'.tick.due ≤ now := by
      have := (NumberedTick.isLE_order_iff k k').mp ((H.pop?_some hpop).2 k hk)
      omega
    obtain ⟨ks', hpops, hks', hsub⟩ := pops_of_pop? hks hnumbers hpop hdue'
    exact ⟨_, hpops, ks', rfl, hks', hnumbers.sublist hsub, fun l hl => hle l (hsub.subset hl)⟩
  nothing := by
    rintro ⟨heap, n⟩ ts now ⟨ks, rfl, hks, -, -⟩ hp
    refine List.forall_mem_map.mpr fun l hl => ?_
    have hmem : l ∈ H.items heap := by rwa [hks, Multiset.mem_coe]
    obtain ⟨k, hk, hlater⟩ := popDue?_none hp hmem
    have := (NumberedTick.isLE_order_iff l k).mp ((H.peek?_some hk).2 l hmem)
    omega
  length := by
    rintro ⟨heap, n⟩ ts ⟨ks, rfl, hks, hnumbers, hle⟩
    change H.length heap = _
    rw [H.length_eq, hks, Multiset.coe_card, List.length_map]

/-- Every scheduled tick takes the next number. -/
theorem last_serve (q : H.Heap × Nat) (r : TickRequest) :
    Prod.snd (H.queue.serve q r).2 = q.2 + [r].countP TickRequest.schedules := by
  cases r with
  | schedule t => rfl
  | popDue now =>
    cases hp : H.queue.popDue? q now with
    | none =>
      rw [TickQueue.serve_of_none hp]
      rfl
    | some popped =>
      obtain ⟨t, q'⟩ := popped
      rw [TickQueue.serve_of_some hp]
      obtain ⟨_, _, _, -, -, -, -, rfl⟩ := popDue?_some hp
      rfl

theorem last_serveAll (q : H.Heap × Nat) (rs : List TickRequest) :
    Prod.snd (H.queue.serveAll q rs).2 = q.2 + rs.countP TickRequest.schedules := by
  induction rs generalizing q with
  | nil => rfl
  | cons r rs ih =>
    calc Prod.snd (H.queue.serveAll q (r :: rs)).2
        = Prod.snd (H.queue.serve q r).2 + rs.countP TickRequest.schedules :=
          ih (H.queue.serve q r).2
      _ = q.2 + (r :: rs).countP TickRequest.schedules := by
          rw [last_serve, Nat.add_assoc, ← List.countP_append, List.singleton_append]

theorem number_lt (H : MaxHeap NumberedTick.order) {rs : List TickRequest}
    (h : rs.countP TickRequest.schedules < UInt64.size) :
    ∀ k ∈ H.items (Prod.fst (H.queue.serveAll H.queue.empty rs).2), k.number < UInt64.size := by
  intro k hk
  obtain ⟨_, -, ks, -, hks, -, hle⟩ := H.follows.serveAll H.follows.empty rs
  rw [hks, Multiset.mem_coe] at hk
  calc k.number
      ≤ Prod.snd (H.queue.serveAll H.queue.empty rs).2 := hle k hk
    _ = 0 + rs.countP TickRequest.schedules := last_serveAll (H.empty, 0) rs
    _ < UInt64.size := by rwa [Nat.zero_add]

section SortedLists

variable {α : Type} {order : α → α → Ordering} [Std.TransCmp order]

theorem pairwise_orderedInsert {l : List α}
    (h : l.Pairwise fun a b => (order b a).isLE = true) (a : α) :
    (l.orderedInsert (fun a b => (order b a).isLE = true) a).Pairwise
      fun a b => (order b a).isLE = true := by
  have : Std.Total fun a b => (order b a).isLE = true := by
    refine ⟨fun a b => ?_⟩
    by_cases hba : (order b a).isLE = true
    · exact .inl hba
    · exact .inr (by simp [Std.OrientedCmp.lt_of_not_isLE hba])
  have : IsTrans α fun a b => (order b a).isLE = true :=
    ⟨fun _ _ _ hab hbc => Std.TransCmp.isLE_trans hbc hab⟩
  exact h.orderedInsert a l

theorem isLE_head {a : α} {l : List α}
    (h : (a :: l).Pairwise fun a b => (order b a).isLE = true) :
    ∀ b ∈ a :: l, (order b a).isLE = true := by
  intro b hb
  rcases List.mem_cons.mp hb with rfl | hb
  · exact Std.ReflCmp.isLE_rfl
  · exact (List.pairwise_cons.mp h).1 b hb

/-- Lists with the greatest item at the head. -/
def sortedLists (order : α → α → Ordering) [Std.TransCmp order] : MaxHeap order where
  Heap := { l : List α // l.Pairwise fun a b => (order b a).isLE = true }
  items l := l.1
  empty := ⟨[], .nil⟩
  push l a := ⟨l.1.orderedInsert _ a, pairwise_orderedInsert l.2 a⟩
  peek? l := l.1.head?
  pop? l :=
    match l with
    | ⟨[], _⟩ => none
    | ⟨a :: l, h⟩ => some (a, ⟨l, (List.pairwise_cons.mp h).2⟩)
  length l := l.1.length
  items_empty := rfl
  items_push l a := by
    rw [Multiset.cons_coe, Multiset.coe_eq_coe]
    exact List.perm_orderedInsert _ a l.1
  peek?_none := by
    rintro ⟨_ | ⟨a, l⟩, hl⟩ h
    · rfl
    · cases h
  peek?_some := by
    rintro ⟨_ | ⟨a, l⟩, hl⟩ b h
    · cases h
    · cases h
      exact ⟨List.mem_cons_self, isLE_head hl⟩
  pop?_none := by
    rintro ⟨_ | ⟨a, l⟩, hl⟩ h
    · rfl
    · cases h
  pop?_some := by
    rintro ⟨_ | ⟨a, l⟩, hl⟩ b l' h
    · cases h
    · cases h
      exact ⟨rfl, isLE_head hl⟩
  length_eq _ := rfl

end SortedLists

end MaxHeap
namespace Agenda

/-- Every request is answered with the tick that is due first of those that wait, the first one
scheduled if there are several, and with none if all are due later. Popping until nothing is due any
more takes out the ticks that are due, in order. A heap of numbered ticks answers in the same
way. -/
theorem ticks_leave_in_order (rs : List TickRequest) :
    (∃ ts, Serves [] rs (queue.answers rs) ts ∧ queue.lengthAfter rs = ts.length ∧
      ts.length + (queue.answers rs).countP (·.isSome) = rs.countP TickRequest.schedules ∧
      ∀ now, ∃ due, InOrder due (ts.filter (·.due ≤ now)) ∧
        queue.answers (rs ++ List.replicate (due.length + 1) (.popDue now)) =
          queue.answers rs ++ (due.map some ++ [none]) ∧
        Serves [] (rs ++ List.replicate (due.length + 1) (.popDue now))
          (queue.answers rs ++ (due.map some ++ [none])) (ts.filter (now < ·.due))) ∧
    ∀ H : MaxHeap NumberedTick.order,
      H.queue.answers rs = queue.answers rs ∧ H.queue.lengthAfter rs = queue.lengthAfter rs := by
  obtain ⟨ts, hs, hlength⟩ := follows.serves rs
  refine ⟨⟨ts, hs, hlength, by simpa using hs.length_add, fun now => ?_⟩, fun H => ?_⟩
  · obtain ⟨due, hdue, hdrain⟩ := Serves.drain now ts
    have hall := hs.append hdrain
    obtain ⟨_, hs', -⟩ := follows.serves (rs ++ List.replicate (due.length + 1) (.popDue now))
    exact ⟨due, hdue, (hs'.unique hall).1, hall⟩
  · obtain ⟨ts', hs', hlength'⟩ := H.follows.serves rs
    obtain ⟨hanswers, rfl⟩ := hs'.unique hs
    exact ⟨hanswers, hlength'.trans hlength.symm⟩

/-- Three ticks are due at the same time, one is due before them, and one request is for a time that
has passed. -/
theorem ticks_leave_in_order_tied :
    let rs : List TickRequest :=
      [.schedule ⟨5, .sound, 1⟩, .popDue 4, .schedule ⟨5, .delay, 1⟩, .schedule ⟨3, .delay, 2⟩,
        .popDue 9, .popDue 2, .schedule ⟨5, .sound, 7⟩, .popDue 5, .popDue 5]
    (MaxHeap.sortedLists NumberedTick.order).queue.answers rs =
      [none, none, none, none, some ⟨3, .delay, 2⟩, none, none, some ⟨5, .sound, 1⟩,
        some ⟨5, .delay, 1⟩] ∧
      (MaxHeap.sortedLists NumberedTick.order).queue.lengthAfter rs = 1 := by
  intro rs
  obtain ⟨hanswers, hlength⟩ :=
    (ticks_leave_in_order rs).2 (MaxHeap.sortedLists NumberedTick.order)
  exact ⟨hanswers.trans (by decide), hlength.trans (by decide)⟩

end Agenda
end Chip8
