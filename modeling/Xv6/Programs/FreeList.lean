import Xv6.Programs.Umalloc
import Xv6.Library.Links
import Mathlib.Algebra.BigOperators.Group.List.Basic
import Mathlib.Data.Finset.Card
import Mathlib.Data.List.Pairwise
import Mathlib.Tactic.Common

namespace Xv6.Umalloc

open Function Links

variable {base start : Nat} {h : Heap} {a b p q bp n fuel : Nat} {l l₁ l₂ live : List Nat}

namespace Heap

@[simp] theorem ptr_setPtr : (h.setPtr p q).ptr = update h.ptr p q := by
  funext a
  unfold ptr setPtr
  by_cases same : a = p
  · subst same
    simp
  · simp [same]

@[simp] theorem size_setPtr : (h.setPtr p q).size = h.size := by
  funext a
  unfold size setPtr
  by_cases same : a = p
  · subst same
    simp
  · simp [same]

@[simp] theorem ptr_setSize : (h.setSize p n).ptr = h.ptr := by
  funext a
  unfold ptr setSize
  by_cases same : a = p
  · subst same
    simp
  · simp [same]

@[simp] theorem size_setSize : (h.setSize p n).size = update h.size p n := by
  funext a
  unfold size setSize
  by_cases same : a = p
  · subst same
    simp
  · simp [same]

@[simp] theorem brk_setPtr : (h.setPtr p q).brk = h.brk := rfl

@[simp] theorem brk_setSize : (h.setSize p n).brk = h.brk := rfl

@[simp] theorem ptr_mk : ptr ⟨h.mem, p, n⟩ = h.ptr := rfl

@[simp] theorem size_mk : size ⟨h.mem, p, n⟩ = h.size := rfl

theorem joinPrev_setPtr (ne : bp ≠ p) : ((h.setPtr p q).joinPrev bp p) = h.joinPrev bp p := by
  unfold joinPrev
  rw [size_setPtr]
  split_ifs
  · simp only [setPtr, setSize, ptr, update_self, update_idem, update_of_ne ne]
  · simp only [setPtr, update_self, update_idem]

theorem joinPrev_freep (h : Heap) (q bp p : Nat) : joinPrev { h with freep := q } bp p = { h.joinPrev bp p with freep := q } := by
  unfold joinPrev
  rw [size_mk]
  split_ifs <;> rfl

end Heap

def Apart (size : Nat → Nat) (a b : Nat) : Prop := a + 8 * size a ≤ b ∨ b + 8 * size b ≤ a

instance (size : Nat → Nat) : Std.Symm (Apart size) := ⟨fun _ _ => Or.symm⟩

/-- `l` is the free list, `live` are the other blocks of a heap that begins at `start`. -/
structure Holds (base start : Nat) (h : Heap) (l live : List Nat) : Prop where
  first : l.head? = some base
  empty : h.size base = 0
  ring : Segment h.ptr base l base
  freep : h.freep ∈ l
  order : l.Pairwise fun a b => a + 8 * h.size a < b
  free : ∀ a ∈ l, a ≠ base → start ≤ a ∧ 0 < h.size a ∧ a + 8 * h.size a ≤ h.brk
  kept : ∀ a ∈ live, start ≤ a ∧ 0 < h.size a ∧ a + 8 * h.size a ≤ h.brk
  separate : ∀ a ∈ l, ∀ b ∈ live, Apart h.size a b
  apart : live.Pairwise (Apart h.size)
  sum : start + 8 * ((l.map h.size).sum + (live.map h.size).sum) = h.brk
  above : base + 8 ≤ start
  below : h.brk < KERNBASE

theorem map_update {size : Nat → Nat} (other : p ∉ l) : l.map (update size p n) = l.map size := by
  apply List.map_congr_left
  intro a member
  apply update_of_ne
  rintro rfl
  exact other member

theorem sum_update (size : Nat → Nat) (n : Nat) (before : p ∉ l₁) (behind : p ∉ l₂) :
    ((l₁ ++ p :: l₂).map (update size p n)).sum + size p = ((l₁ ++ p :: l₂).map size).sum + n := by
  simp only [List.map_append, List.map_cons, List.sum_append, List.sum_cons, map_update before, map_update behind, update_self]
  omega

namespace Holds

theorem base_mem (holds : Holds base start h l live) : base ∈ l := List.mem_of_head? holds.first

theorem bound (holds : Holds base start h l live) (member : a ∈ l) : a + 8 * h.size a ≤ h.brk := by
  by_cases first : a = base
  · subst first
    have := holds.empty
    have := holds.above
    have := holds.sum
    omega
  · exact (holds.free a member first).2.2

theorem plus_eq (holds : Holds base start h l live) (bound : a + 8 * h.size a ≤ h.brk) :
    plus a (h.size a) = a + 8 * h.size a := by
  have := holds.below
  unfold KERNBASE at this
  exact Nat.mod_eq_of_lt (by omega)

theorem not_live (holds : Holds base start h l live) (member : a ∈ l) : a ∉ live := by
  intro both
  obtain ⟨low, positive, high⟩ := holds.kept a both
  rcases holds.separate a member a both with apart | apart <;> omega

theorem nodup (holds : Holds base start h l live) : l.Nodup := by
  apply holds.order.imp
  rintro a b lt rfl
  omega

theorem length_le (holds : Holds base start h l live) : l.length ≤ h.brk := by
  rw [← List.toFinset_card_of_nodup holds.nodup, ← Finset.card_range h.brk]
  apply Finset.card_le_card
  intro a member
  rw [List.mem_toFinset] at member
  rw [Finset.mem_range]
  have := holds.above
  have := holds.sum
  by_cases first : a = base
  · omega
  · have := holds.free a member first
    omega

end Holds

/-- Where the loop of `free` stops. -/
def Stops (h : Heap) (bp p : Nat) : Prop := p < bp ∧ bp < h.ptr p ∨ h.ptr p ≤ p ∧ (p < bp ∨ bp < h.ptr p)

theorem freeLoop_of_stops (stops : Stops h bp p) : h.freeLoop bp (fuel + 1) p = some p := by
  unfold Heap.freeLoop
  rcases stops with inside | wrapped
  · rw [if_pos inside]
  · by_cases inside : p < bp ∧ bp < h.ptr p
    · rw [if_pos inside]
    · rw [if_neg inside, if_pos wrapped]

theorem freeLoop_of_not (passes : ¬ Stops h bp p) : h.freeLoop bp (fuel + 1) p = h.freeLoop bp fuel (h.ptr p) := by
  have passes := not_or.mp passes
  show (if _ then _ else if _ then _ else _) = _
  rw [if_neg passes.1, if_neg passes.2]

theorem freeLoop_ends {e : Nat} (segment : Segment h.ptr a l e) (stops : ∃ x ∈ l, Stops h bp x) (enough : l.length ≤ fuel) :
    ∃ p ∈ l, Stops h bp p ∧ h.freeLoop bp fuel a = some p := by
  induction l generalizing a fuel with
  | nil =>
    obtain ⟨x, member, _⟩ := stops
    cases member
  | cons x l ih =>
    obtain ⟨rfl, rest⟩ := segment
    obtain ⟨fuel, rfl⟩ := Nat.exists_eq_add_of_lt (Nat.lt_of_lt_of_le (Nat.zero_lt_succ l.length) enough)
    rw [Nat.zero_add]
    by_cases here : Stops h bp a
    · exact ⟨a, List.mem_cons_self .., here, freeLoop_of_stops here⟩
    · have later : ∃ x ∈ l, Stops h bp x := by
        obtain ⟨x, member, stop⟩ := stops
        rcases List.mem_cons.mp member with rfl | member
        · exact absurd stop here
        · exact ⟨x, member, stop⟩
      have short : l.length ≤ fuel := by
        rw [List.length_cons] at enough
        omega
      obtain ⟨p, member, stop, found⟩ := ih rest later short
      refine ⟨p, List.mem_cons_of_mem _ member, stop, ?_⟩
      rw [freeLoop_of_not here]
      exact found

namespace Holds

theorem place (holds : Holds base start h (l₁ ++ p :: l₂) live) (high : base < bp) (stops : Stops h bp p) :
    p < bp ∧ ∀ b ∈ l₂, bp < b := by
  cases l₂ with
  | nil =>
    have last : h.ptr p = base := holds.ring.next_of_last
    constructor
    · rcases stops with inside | wrapped
      · exact inside.1
      · omega
    · intro b member
      cases member
  | cons q l₂ =>
    have next : h.ptr p = q := holds.ring.next_of_cons
    obtain ⟨_, behind, _⟩ := List.pairwise_append.mp holds.order
    obtain ⟨first, rest⟩ := List.pairwise_cons.mp behind
    have up := first q (List.mem_cons_self ..)
    have inside : p < bp ∧ bp < q := by
      rcases stops with inside | wrapped <;> omega
    refine ⟨inside.1, fun b member => ?_⟩
    rcases List.mem_cons.mp member with rfl | member
    · exact inside.2
    · have := (List.pairwise_cons.mp rest).1 b member
      omega

theorem exists_cons (holds : Holds base start h l live) : ∃ rest, l = base :: rest := by
  cases l with
  | nil => cases holds.first
  | cons a l =>
    have first := holds.first
    rw [List.head?_cons, Option.some.injEq] at first
    exact ⟨l, by rw [first]⟩

theorem base_le (holds : Holds base start h l live) (member : a ∈ l) : base ≤ a := by
  by_cases first : a = base
  · exact first.ge
  · have := holds.free a member first
    have := holds.above
    omega

theorem exists_stops (holds : Holds base start h l live) (high : base < bp) (other : bp ∉ l) : ∃ x ∈ l, Stops h bp x := by
  have behind : ∀ l₂ l₁ p, l = l₁ ++ p :: l₂ → p < bp → ∃ x ∈ l, Stops h bp x := by
    intro l₂
    induction l₂ with
    | nil =>
      intro l₁ p eq low
      have last : h.ptr p = base := (eq ▸ holds.ring).next_of_last
      have member : p ∈ l := eq ▸ List.mem_append_right _ (List.mem_cons_self ..)
      refine ⟨p, member, .inr ⟨?_, .inl low⟩⟩
      rw [last]
      exact holds.base_le member
    | cons q l₂ ih =>
      intro l₁ p eq low
      have member : q ∈ l := by
        rw [eq]
        exact List.mem_append_right _ (List.mem_cons_of_mem _ (List.mem_cons_self ..))
      by_cases next : q < bp
      · exact ih (l₁ ++ [p]) q (by rw [eq, List.append_assoc]; rfl) next
      · have link : h.ptr p = q := (eq ▸ holds.ring).next_of_cons
        have ne : q ≠ bp := fun same => other (same ▸ member)
        refine ⟨p, eq ▸ List.mem_append_right _ (List.mem_cons_self ..), .inl ⟨low, ?_⟩⟩
        omega
  obtain ⟨rest, eq⟩ := holds.exists_cons
  exact behind rest [] base eq high

theorem freeLoop (holds : Holds base start h l live) (high : base < bp) (other : bp ∉ l) (enough : l.length ≤ fuel) :
    ∃ l₁ p l₂, l = l₁ ++ p :: l₂ ∧ h.freeLoop bp fuel h.freep = some p ∧ p < bp ∧ ∀ b ∈ l₂, bp < b := by
  obtain ⟨r₁, r₂, eq⟩ := List.append_of_mem holds.freep
  have ring := holds.ring
  rw [eq] at ring
  have same : ∀ x, x ∈ h.freep :: r₂ ++ r₁ ↔ x ∈ l := by
    intro x
    rw [eq, List.mem_append, List.mem_append, or_comm]
  obtain ⟨x, member, stop⟩ := holds.exists_stops high other
  have short : (h.freep :: r₂ ++ r₁).length ≤ fuel := by
    rw [eq, List.length_append] at enough
    rw [List.length_append]
    omega
  obtain ⟨p, member', stop', found⟩ := freeLoop_ends ring.rotate ⟨x, (same x).mpr member, stop⟩ short
  obtain ⟨l₁, l₂, eq'⟩ := List.append_of_mem ((same p).mp member')
  subst eq'
  obtain ⟨low, above⟩ := holds.place high stop'
  exact ⟨l₁, p, l₂, rfl, found, low, above⟩

variable {h' : Heap}

theorem frame (holds : Holds base start h l live) (ptr : ∀ a ∈ l, h'.ptr a = h.ptr a)
    (size : ∀ a, a ∈ l ∨ a ∈ live → h'.size a = h.size a) (freep : h'.freep ∈ l) (brk : h'.brk = h.brk) :
    Holds base start h' l live where
  first := holds.first
  empty := (size base (.inl holds.base_mem)).trans holds.empty
  ring := holds.ring.congr ptr
  freep := freep
  order := by
    apply holds.order.imp_of_mem
    intro a b member _ lt
    rwa [size a (.inl member)]
  free a member := by
    rw [size a (.inl member), brk]
    exact holds.free a member
  kept a member := by
    rw [size a (.inr member), brk]
    exact holds.kept a member
  separate a member b member' := by
    unfold Apart
    rw [size a (.inl member), size b (.inr member')]
    exact holds.separate a member b member'
  apart := by
    apply holds.apart.imp_of_mem
    intro a b member member' apart
    unfold Apart
    rw [size a (.inr member), size b (.inr member')]
    exact apart
  sum := by
    rw [brk, List.map_congr_left fun a member => size a (.inl member),
      List.map_congr_left fun a member => size a (.inr member)]
    exact holds.sum
  above := holds.above
  below := by
    rw [brk]
    exact holds.below

theorem head_eq (holds : Holds base start h (l₁ ++ p :: l₂) live) (l₃ : List Nat) : (l₁ ++ p :: l₃).head? = some base := by
  have first := holds.first
  cases l₁ <;> exact first

theorem between (holds : Holds base start h l (bp :: live)) (member : a ∈ l) :
    (a < bp → a + 8 * h.size a ≤ bp) ∧ (bp < a → bp + 8 * h.size bp ≤ a) := by
  obtain ⟨low, positive, _⟩ := holds.kept bp (List.mem_cons_self ..)
  have := holds.separate a member bp (List.mem_cons_self ..)
  unfold Apart at this
  constructor
  · omega
  · intro lt
    have := holds.above
    have := holds.free a member (by omega)
    omega

theorem absorb (holds : Holds base start h (l₁ ++ p :: q :: l₂) (bp :: live)) (low : p < bp) (adjacent : bp + 8 * h.size bp = q)
    (ptr : h'.ptr = update (update h.ptr bp (h.ptr q)) p (h.ptr q))
    (size : h'.size = update h.size bp (h.size bp + h.size q)) (freep : h'.freep = p) (brk : h'.brk = h.brk) :
    Holds base start h' (l₁ ++ p :: l₂) (bp :: live) := by
  have sub : ∀ a, a ∈ l₁ ++ p :: l₂ → a ∈ l₁ ++ p :: q :: l₂ := by
    intro a member
    simp only [List.mem_append, List.mem_cons] at member ⊢
    tauto
  have free : ∀ a, a ∈ l₁ ++ p :: q :: l₂ → a ≠ bp := by
    rintro a member rfl
    exact holds.not_live member (List.mem_cons_self ..)
  have other : ∀ a ∈ live, a ≠ bp := by
    rintro a member rfl
    have := (List.pairwise_cons.mp holds.apart).1 a member
    have := holds.kept a (List.mem_cons_of_mem _ member)
    unfold Apart at *
    omega
  have nodup := holds.nodup
  have size_free : ∀ a, a ∈ l₁ ++ p :: q :: l₂ → h'.size a = h.size a := by
    intro a member
    rw [size, update_of_ne (free a member)]
  have size_live : ∀ a ∈ live, h'.size a = h.size a := by
    intro a member
    rw [size, update_of_ne (other a member)]
  have size_bp : h'.size bp = h.size bp + h.size q := by rw [size, update_self]
  have member_p : p ∈ l₁ ++ p :: q :: l₂ := by simp
  have member_q : q ∈ l₁ ++ p :: q :: l₂ := by simp
  obtain ⟨start_bp, positive_bp, _⟩ := holds.kept bp (List.mem_cons_self ..)
  have positive_q := holds.free q member_q (by have := holds.above; omega)
  obtain ⟨ring₁, at_p, ring₂⟩ := segment_cut.mp holds.ring
  obtain ⟨order₁, order₂, order₃⟩ := List.pairwise_append.mp holds.order
  obtain ⟨order_p, order₄⟩ := List.pairwise_cons.mp order₂
  obtain ⟨order_q, order₅⟩ := List.pairwise_cons.mp order₄
  constructor
  · exact holds.head_eq l₂
  · rw [size_free base holds.base_mem]
    exact holds.empty
  · apply segment_cut.mpr
    constructor
    · apply ring₁.congr
      intro a member
      have ne : a ≠ p := by
        rintro rfl
        exact absurd (order₃ a member a (List.mem_cons_self ..)) (by omega)
      rw [ptr, update_of_ne ne, update_of_ne (free a (List.mem_append_left _ member))]
    · rw [ptr, update_self]
      apply ring₂.congr
      intro a member
      have above := order_p a (List.mem_cons_of_mem _ member)
      rw [update_of_ne (by omega), update_of_ne (free a (by simp [member]))]
  · rw [freep]
    simp
  · apply (holds.order.sublist (by simp)).imp_of_mem
    intro a b member _ lt
    rwa [size_free a (sub a member)]
  · intro a member ne
    rw [size_free a (sub a member), brk]
    exact holds.free a (sub a member) ne
  · intro a member
    rw [brk]
    rcases List.mem_cons.mp member with rfl | member
    · rw [size_bp]
      omega
    · rw [size_live a member]
      exact holds.kept a (List.mem_cons_of_mem _ member)
  · intro a member b member'
    unfold Apart
    rw [size_free a (sub a member)]
    rcases List.mem_cons.mp member' with rfl | member'
    · rw [size_bp]
      rcases List.mem_append.mp member with member | member
      · have := order₃ a member p (List.mem_cons_self ..)
        omega
      · rcases List.mem_cons.mp member with rfl | member
        · exact .inl ((holds.between member_p).1 low)
        · have := order_q a member
          omega
    · rw [size_live b member']
      exact holds.separate a (sub a member) b (List.mem_cons_of_mem _ member')
  · obtain ⟨apart_bp, apart⟩ := List.pairwise_cons.mp holds.apart
    apply List.pairwise_cons.mpr
    constructor
    · intro b member
      have := apart_bp b member
      have := holds.separate q member_q b (List.mem_cons_of_mem _ member)
      have := holds.kept b (List.mem_cons_of_mem _ member)
      unfold Apart at *
      rw [size_bp, size_live b member]
      omega
    · apply apart.imp_of_mem
      intro a b member member' apart
      unfold Apart
      rw [size_live a member, size_live b member']
      exact apart
  · have sum := holds.sum
    rw [List.map_congr_left fun a member => size_free a (sub a member), List.map_cons,
      List.map_congr_left fun a member => size_live a member, size_bp, brk]
    simp only [List.map_append, List.map_cons, List.sum_append, List.sum_cons] at sum ⊢
    omega
  · exact holds.above
  · rw [brk]
    exact holds.below

theorem link (holds : Holds base start h (l₁ ++ p :: l₂) (bp :: live)) (low : p + 8 * h.size p < bp)
    (gap : ∀ b ∈ l₂, bp + 8 * h.size bp < b) (next : h.ptr bp = h.ptr p) (ptr : h'.ptr = update h.ptr p bp)
    (size : h'.size = h.size) (freep : h'.freep = p) (brk : h'.brk = h.brk) :
    Holds base start h' (l₁ ++ p :: bp :: l₂) live := by
  have free : ∀ a, a ∈ l₁ ++ p :: l₂ → a ≠ bp := by
    rintro a member rfl
    exact holds.not_live member (List.mem_cons_self ..)
  have cases : ∀ a, a ∈ l₁ ++ p :: bp :: l₂ → a ∈ l₁ ++ p :: l₂ ∨ a = bp := by
    intro a member
    simp only [List.mem_append, List.mem_cons] at member ⊢
    tauto
  have member_p : p ∈ l₁ ++ p :: l₂ := by simp
  have inside := holds.kept bp (List.mem_cons_self ..)
  obtain ⟨ring₁, ring₂⟩ := segment_cut.mp holds.ring
  obtain ⟨order₁, order₂, order₃⟩ := List.pairwise_append.mp holds.order
  obtain ⟨order_p, order₄⟩ := List.pairwise_cons.mp order₂
  obtain ⟨apart_bp, apart⟩ := List.pairwise_cons.mp holds.apart
  constructor
  · exact holds.head_eq (bp :: l₂)
  · rw [size]
    exact holds.empty
  · apply segment_cut.mpr
    constructor
    · apply ring₁.congr
      intro a member
      have ne : a ≠ p := by
        rintro rfl
        exact absurd (order₃ a member a (List.mem_cons_self ..)) (by omega)
      rw [ptr, update_of_ne ne]
    · rw [ptr, update_self]
      refine ⟨rfl, ?_⟩
      rw [update_of_ne (by omega), next]
      apply ring₂.congr
      intro a member
      have above := order_p a member
      rw [update_of_ne (by omega)]
  · rw [freep]
    simp
  · rw [size]
    apply List.pairwise_append.mpr
    refine ⟨order₁, List.pairwise_cons.mpr ⟨?_, List.pairwise_cons.mpr ⟨gap, order₄⟩⟩, ?_⟩
    · intro b member
      rcases List.mem_cons.mp member with rfl | member
      · exact low
      · exact order_p b member
    · intro a member b member'
      have := order₃ a member p (List.mem_cons_self ..)
      rcases List.mem_cons.mp member' with rfl | member'
      · exact this
      · rcases List.mem_cons.mp member' with rfl | member'
        · omega
        · exact order₃ a member b (List.mem_cons_of_mem _ member')
  · intro a member ne
    rw [size, brk]
    rcases cases a member with member | rfl
    · exact holds.free a member ne
    · exact inside
  · intro a member
    rw [size, brk]
    exact holds.kept a (List.mem_cons_of_mem _ member)
  · intro a member b member'
    rw [size]
    rcases cases a member with member | rfl
    · exact holds.separate a member b (List.mem_cons_of_mem _ member')
    · exact apart_bp b member'
  · rw [size]
    exact apart
  · have sum := holds.sum
    rw [size, brk]
    simp only [List.map_append, List.map_cons, List.sum_append, List.sum_cons] at sum ⊢
    omega
  · exact holds.above
  · rw [brk]
    exact holds.below

theorem merge (holds : Holds base start h (l₁ ++ p :: l₂) (bp :: live)) (adjacent : p + 8 * h.size p = bp)
    (gap : ∀ b ∈ l₂, bp + 8 * h.size bp < b) (next : h.ptr bp = h.ptr p) (ptr : h'.ptr = update h.ptr p (h.ptr bp))
    (size : h'.size = update h.size p (h.size p + h.size bp)) (freep : h'.freep = p) (brk : h'.brk = h.brk) :
    Holds base start h' (l₁ ++ p :: l₂) live := by
  have member_p : p ∈ l₁ ++ p :: l₂ := by simp
  have inside := holds.kept bp (List.mem_cons_self ..)
  have above := holds.above
  have later : p ≠ base := by
    rintro rfl
    have := holds.empty
    omega
  have inside_p := holds.free p member_p later
  obtain ⟨order₁, order₂, order₃⟩ := List.pairwise_append.mp holds.order
  obtain ⟨order_p, order₄⟩ := List.pairwise_cons.mp order₂
  obtain ⟨apart_bp, apart⟩ := List.pairwise_cons.mp holds.apart
  have before : ∀ a ∈ l₁, a ≠ p := by
    rintro a member rfl
    exact absurd (order₃ a member a (List.mem_cons_self ..)) (by omega)
  have behind : ∀ a ∈ l₂, a ≠ p := by
    rintro a member rfl
    exact absurd (order_p a member) (by omega)
  have size_p : h'.size p = h.size p + h.size bp := by rw [size, update_self]
  have size_of : ∀ a, a ≠ p → h'.size a = h.size a := by
    intro a ne
    rw [size, update_of_ne ne]
  have live_ne : ∀ a ∈ live, a ≠ p := by
    rintro a member rfl
    exact holds.not_live member_p (List.mem_cons_of_mem _ member)
  constructor
  · exact holds.first
  · rw [size_of base later.symm]
    exact holds.empty
  · have same : h'.ptr = h.ptr := by rw [ptr, next, update_eq_self]
    rw [same]
    exact holds.ring
  · rw [freep]
    exact member_p
  · apply List.pairwise_append.mpr
    refine ⟨?_, List.pairwise_cons.mpr ⟨?_, ?_⟩, ?_⟩
    · apply order₁.imp_of_mem
      intro a b member _ lt
      rwa [size_of a (before a member)]
    · intro b member
      rw [size_p]
      have := gap b member
      omega
    · apply order₄.imp_of_mem
      intro a b member _ lt
      rwa [size_of a (behind a member)]
    · intro a member b member'
      rw [size_of a (before a member)]
      exact order₃ a member b member'
  · intro a member ne
    rw [brk]
    by_cases here : a = p
    · subst here
      rw [size_p]
      omega
    · rw [size_of a here]
      exact holds.free a member ne
  · intro a member
    rw [size_of a (live_ne a member), brk]
    exact holds.kept a (List.mem_cons_of_mem _ member)
  · intro a member b member'
    have separate := holds.separate a member b (List.mem_cons_of_mem _ member')
    unfold Apart at separate ⊢
    rw [size_of b (live_ne b member')]
    by_cases here : a = p
    · subst here
      have := apart_bp b member'
      have := holds.kept b (List.mem_cons_of_mem _ member')
      unfold Apart at *
      rw [size_p]
      omega
    · rw [size_of a here]
      exact separate
  · apply apart.imp_of_mem
    intro a b member member' apart
    unfold Apart
    rw [size_of a (live_ne a member), size_of b (live_ne b member')]
    exact apart
  · have sum := holds.sum
    have moved := sum_update h.size (h.size p + h.size bp) (fun member => before p member rfl)
      (fun member => behind p member rfl)
    rw [← size] at moved
    rw [brk, List.map_congr_left fun a member => size_of a (live_ne a member)]
    rw [List.map_cons, List.sum_cons] at sum
    omega
  · exact above
  · rw [brk]
    exact holds.below

/-- A heap in which `bp` has been joined to what follows it. -/
structure Joined (h h' : Heap) (bp p : Nat) (l₃ live : List Nat) : Prop where
  next : h'.ptr bp = h'.ptr p
  gap : ∀ b ∈ l₃, bp + 8 * h'.size bp < b
  grown : h.size bp ≤ h'.size bp
  size : ∀ a ∈ live, h'.size a = h.size a
  brk : h'.brk = h.brk
  result : { (h.joinNext bp p).joinPrev bp p with freep := p } = { h'.joinPrev bp p with freep := p }

theorem joinNext (holds : Holds base start h (l₁ ++ p :: l₂) (bp :: live)) (low : p < bp) (above : ∀ b ∈ l₂, bp < b) :
    ∃ h' l₃, Holds base start h' (l₁ ++ p :: l₃) (bp :: live) ∧ l₃.length ≤ l₂.length ∧ Joined h h' bp p l₃ live := by
  obtain ⟨start_bp, positive, inside⟩ := holds.kept bp (List.mem_cons_self ..)
  have behind : plus bp (h.size bp) = bp + 8 * h.size bp := holds.plus_eq inside
  have other : ∀ a ∈ live, a ≠ bp := by
    rintro a member rfl
    have := (List.pairwise_cons.mp holds.apart).1 a member
    unfold Apart at this
    omega
  have free : ∀ a, a ∈ l₁ ++ p :: l₂ → a ≠ bp := by
    rintro a member rfl
    exact holds.not_live member (List.mem_cons_self ..)
  by_cases adjacent : plus bp (h.size bp) = h.ptr p
  · cases l₂ with
    | nil =>
      have last : h.ptr p = base := holds.ring.next_of_last
      have := holds.above
      omega
    | cons q l₂ =>
      have link : h.ptr p = q := holds.ring.next_of_cons
      have member : q ∈ l₁ ++ p :: q :: l₂ := by simp
      have bound := holds.bound member
      have below := holds.below
      unfold KERNBASE at below
      have joined : h.joinNext bp p = (h.setSize bp (h.size bp + h.size q)).setPtr bp (h.ptr q) := by
        unfold Heap.joinNext
        rw [if_pos adjacent]
        simp only [Heap.ptr_setSize]
        rw [link, Nat.mod_eq_of_lt (by omega)]
      refine ⟨{ ((h.setSize bp (h.size bp + h.size q)).setPtr bp (h.ptr q)).setPtr p (h.ptr q) with freep := p }, l₂,
        ?_, Nat.le_succ _, ?_⟩
      · apply holds.absorb low (by omega)
        · simp
        · simp
        · rfl
        · rfl
      · constructor
        · simp [update_of_ne (show bp ≠ p by omega)]
        · intro b member'
          have order := (List.pairwise_cons.mp (List.pairwise_cons.mp (List.pairwise_append.mp holds.order).2.1).2).1 b member'
          simp only [Heap.size_mk, Heap.size_setPtr, Heap.size_setSize, update_self]
          omega
        · simp
        · intro a member'
          simp [update_of_ne (other a member')]
        · rfl
        · rw [joined, Heap.joinPrev_freep (Heap.setPtr _ p _), Heap.joinPrev_setPtr (by omega)]
  · refine ⟨{ h.setPtr bp (h.ptr p) with freep := p }, l₂, ?_, Nat.le_refl _, ?_⟩
    · apply holds.frame
      · intro a member
        simp [update_of_ne (free a member)]
      · intro a _
        simp
      · simp
      · rfl
    · constructor
      · simp [update_of_ne (show p ≠ bp by omega)]
      · intro b member
        simp only [Heap.size_mk, Heap.size_setPtr]
        cases l₂ with
        | nil => cases member
        | cons q l₂ =>
          have link : h.ptr p = q := holds.ring.next_of_cons
          have near := (holds.between (show q ∈ l₁ ++ p :: q :: l₂ by simp)).2 (above q (List.mem_cons_self ..))
          rcases List.mem_cons.mp member with rfl | member
          · omega
          · have order := (List.pairwise_cons.mp (List.pairwise_cons.mp (List.pairwise_append.mp holds.order).2.1).2).1 b member
            omega
      · simp
      · intro a _
        simp
      · rfl
      · unfold Heap.joinNext
        rw [if_neg adjacent, Heap.joinPrev_freep (h.setPtr _ _) p]

theorem free_holds (holds : Holds base start h l (bp :: live)) :
    ∃ h' l', h.free (bp + 8) = some h' ∧ Holds base start h' l' live ∧ h'.brk = h.brk ∧ (∀ a ∈ live, h'.size a = h.size a) ∧
      (∃ a ∈ l', h.size bp ≤ h'.size a) ∧ l'.length ≤ l.length + 1 := by
  have start_bp := (holds.kept bp (List.mem_cons_self ..)).1
  have above := holds.above
  have other : bp ∉ l := fun member => holds.not_live member (List.mem_cons_self ..)
  have enough : l.length ≤ h.brk + 1 := Nat.le_succ_of_le holds.length_le
  obtain ⟨l₁, p, l₂, rfl, found, low, above⟩ := holds.freeLoop (by omega) other enough
  obtain ⟨h₁, l₃, holds₁, short, joined⟩ := holds.joinNext low above
  have ran : h.free (bp + 8) = some { h₁.joinPrev bp p with freep := p } := by
    unfold Heap.free
    rw [Nat.add_sub_cancel]
    dsimp only
    rw [found, ← joined.result]
    rfl
  have before := (holds₁.between (show p ∈ l₁ ++ p :: l₃ by simp)).1 low
  have behind : plus p (h₁.size p) = p + 8 * h₁.size p := holds₁.plus_eq (holds₁.bound (by simp))
  rw [ran]
  by_cases adjacent : plus p (h₁.size p) = bp
  · have inside := (holds₁.kept bp (List.mem_cons_self ..)).2.2
    have below := holds₁.below
    unfold KERNBASE at below
    have joined' : h₁.joinPrev bp p = (h₁.setSize p (h₁.size p + h₁.size bp)).setPtr p (h₁.ptr bp) := by
      unfold Heap.joinPrev
      rw [if_pos adjacent]
      simp only [Heap.ptr_setSize]
      rw [Nat.mod_eq_of_lt (by omega)]
    rw [joined']
    refine ⟨_, l₁ ++ p :: l₃, rfl, ?_, joined.brk, ?_, ⟨p, by simp, ?_⟩, ?_⟩
    · apply holds₁.merge (by omega) joined.gap joined.next
      · simp
      · simp
      · rfl
      · rfl
    · intro a member
      have ne : a ≠ p := by
        rintro rfl
        exact holds₁.not_live (show a ∈ l₁ ++ a :: l₃ by simp) (List.mem_cons_of_mem _ member)
      simp [update_of_ne ne, joined.size a member]
    · have := joined.grown
      simp
      omega
    · simp
      omega
  · have joined' : h₁.joinPrev bp p = h₁.setPtr p bp := by
      unfold Heap.joinPrev
      rw [if_neg adjacent]
    rw [joined']
    refine ⟨_, l₁ ++ p :: bp :: l₃, rfl, ?_, joined.brk, ?_, ⟨bp, by simp, ?_⟩, ?_⟩
    · apply holds₁.link (by omega) joined.gap joined.next
      · simp
      · simp
      · rfl
      · rfl
    · intro a member
      simp [joined.size a member]
    · have := joined.grown
      simpa using this
    · simp
      omega

end Holds

end Xv6.Umalloc
