import Xv6.Programs.FreeList

namespace Xv6.Umalloc

open Function Links

variable {base start : Nat} {h h' : Heap} {a b p q bp n fuel : Nat} {l l₁ l₂ live : List Nat} {grant : Nat → Bool}

namespace Holds

theorem extend (holds : Holds base start h l live) (positive : 0 < n) (below : h.brk + 8 * n < KERNBASE)
    (ptr : h'.ptr = h.ptr) (size : h'.size = update h.size h.brk n) (freep : h'.freep = h.freep)
    (brk : h'.brk = h.brk + 8 * n) : Holds base start h' l (h.brk :: live) := by
  have above := holds.above
  have free : ∀ a ∈ l, a < h.brk := by
    intro a member
    have := holds.sum
    by_cases first : a = base
    · omega
    · have := holds.free a member first
      omega
  have kept : ∀ a ∈ live, a < h.brk := by
    intro a member
    have := holds.kept a member
    omega
  have size_of : ∀ a, a < h.brk → h'.size a = h.size a := by
    intro a low
    rw [size, update_of_ne (by omega)]
  have size_new : h'.size h.brk = n := by rw [size, update_self]
  have inside : start ≤ h.brk := by
    have := holds.sum
    omega
  constructor
  · exact holds.first
  · rw [size_of base (free base holds.base_mem)]
    exact holds.empty
  · rw [ptr]
    exact holds.ring
  · rw [freep]
    exact holds.freep
  · apply holds.order.imp_of_mem
    intro a b member _ lt
    rwa [size_of a (free a member)]
  · intro a member ne
    have := holds.free a member ne
    rw [size_of a (free a member), brk]
    omega
  · intro a member
    rw [brk]
    rcases List.mem_cons.mp member with rfl | member
    · rw [size_new]
      omega
    · have := holds.kept a member
      rw [size_of a (kept a member)]
      omega
  · intro a member b member'
    unfold Apart
    rw [size_of a (free a member)]
    rcases List.mem_cons.mp member' with rfl | member'
    · exact .inl (holds.bound member)
    · rw [size_of b (kept b member')]
      exact holds.separate a member b member'
  · apply List.pairwise_cons.mpr
    constructor
    · intro b member
      have := holds.kept b member
      unfold Apart
      rw [size_of b (kept b member)]
      omega
    · apply holds.apart.imp_of_mem
      intro a b member member' apart
      unfold Apart
      rw [size_of a (kept a member), size_of b (kept b member')]
      exact apart
  · have sum := holds.sum
    rw [List.map_congr_left fun a member => size_of a (free a member), List.map_cons,
      List.map_congr_left fun a member => size_of a (kept a member), List.sum_cons, size_new, brk]
    omega
  · exact above
  · rw [brk]
    exact below

theorem unlink (holds : Holds base start h (l₁ ++ q :: p :: l₂) live) (ptr : h'.ptr = update h.ptr q (h.ptr p))
    (size : h'.size = h.size) (freep : h'.freep = q) (brk : h'.brk = h.brk) :
    Holds base start h' (l₁ ++ q :: l₂) (p :: live) := by
  have sub : ∀ a, a ∈ l₁ ++ q :: l₂ → a ∈ l₁ ++ q :: p :: l₂ := by
    intro a member
    simp only [List.mem_append, List.mem_cons] at member ⊢
    tauto
  have member_p : p ∈ l₁ ++ q :: p :: l₂ := by simp
  obtain ⟨ring₁, at_q, ring₂⟩ := segment_cut.mp holds.ring
  obtain ⟨order₁, order₂, order₃⟩ := List.pairwise_append.mp holds.order
  obtain ⟨order_q, order₄⟩ := List.pairwise_cons.mp order₂
  obtain ⟨order_p, order₅⟩ := List.pairwise_cons.mp order₄
  have later : p ≠ base := by
    rintro rfl
    have := order_q p (List.mem_cons_self ..)
    have := holds.base_le (show q ∈ l₁ ++ q :: p :: l₂ by simp)
    omega
  have inside := holds.free p member_p later
  constructor
  · exact holds.head_eq l₂
  · rw [size]
    exact holds.empty
  · apply segment_cut.mpr
    constructor
    · apply ring₁.congr
      intro a member
      have ne : a ≠ q := by
        rintro rfl
        exact absurd (order₃ a member a (List.mem_cons_self ..)) (by omega)
      rw [ptr, update_of_ne ne]
    · rw [ptr, update_self]
      apply ring₂.congr
      intro a member
      have := order_q a (List.mem_cons_of_mem _ member)
      rw [update_of_ne (by omega)]
  · rw [freep]
    simp
  · rw [size]
    exact holds.order.sublist (by simp)
  · rw [size, brk]
    exact fun a member => holds.free a (sub a member)
  · rw [size, brk]
    intro a member
    rcases List.mem_cons.mp member with rfl | member
    · exact inside
    · exact holds.kept a member
  · rw [size]
    intro a member b member'
    rcases List.mem_cons.mp member' with rfl | member'
    · rcases List.mem_append.mp member with member | member
      · have := order₃ a member b (by simp)
        exact .inl (by omega)
      · rcases List.mem_cons.mp member with rfl | member
        · have := order_q b (List.mem_cons_self ..)
          exact .inl (by omega)
        · have := order_p a member
          exact .inr (by omega)
    · exact holds.separate a (sub a member) b member'
  · rw [size]
    exact List.pairwise_cons.mpr ⟨fun b member => holds.separate p member_p b member, holds.apart⟩
  · have sum := holds.sum
    rw [size, brk]
    simp only [List.map_append, List.map_cons, List.sum_append, List.sum_cons] at sum ⊢
    omega
  · exact holds.above
  · rw [brk]
    exact holds.below

theorem split (holds : Holds base start h l live) (member : p ∈ l) (positive : 0 < n) (less : n < h.size p) (ptr : h'.ptr = h.ptr)
    (size : h'.size = update (update h.size p (h.size p - n)) (p + 8 * (h.size p - n)) n) (freep : h'.freep ∈ l)
    (brk : h'.brk = h.brk) : Holds base start h' l ((p + 8 * (h.size p - n)) :: live) := by
  obtain ⟨c, eq⟩ : ∃ c, c = p + 8 * (h.size p - n) := ⟨_, rfl⟩
  rw [← eq] at size ⊢
  have later : p ≠ base := by
    rintro rfl
    have := holds.empty
    omega
  have inside := holds.free p member later
  have nodup := holds.nodup
  obtain ⟨l₁, l₂, rfl⟩ := List.append_of_mem member
  obtain ⟨order₁, order₂, order₃⟩ := List.pairwise_append.mp holds.order
  obtain ⟨order_p, order₄⟩ := List.pairwise_cons.mp order₂
  have size_p : h'.size p = h.size p - n := by rw [size, update_of_ne (by omega), update_self]
  have size_c : h'.size c = n := by rw [size, update_self]
  have apart_free : ∀ a, a ∈ l₁ ++ p :: l₂ → a ≠ p → a + 8 * h.size a ≤ p ∨ p + 8 * h.size p ≤ a := by
    intro a member ne
    rcases List.mem_append.mp member with member | member
    · exact .inl (Nat.le_of_lt (order₃ a member p (List.mem_cons_self ..)))
    · rcases List.mem_cons.mp member with rfl | member
      · exact absurd rfl ne
      · exact .inr (Nat.le_of_lt (order_p a member))
  have size_free : ∀ a, a ∈ l₁ ++ p :: l₂ → a ≠ p → h'.size a = h.size a := by
    intro a member ne
    have := apart_free a member ne
    rw [size, update_of_ne (by omega), update_of_ne ne]
  have size_live : ∀ a ∈ live, h'.size a = h.size a := by
    intro a member'
    have inside' := holds.kept a member'
    have apart := holds.separate p member a member'
    unfold Apart at apart
    rw [size, update_of_ne (by omega), update_of_ne (by omega)]
  have shrunk : ∀ a, a ∈ l₁ ++ p :: l₂ → h'.size a ≤ h.size a := by
    intro a member
    by_cases here : a = p
    · subst here
      omega
    · exact Nat.le_of_eq (size_free a member here)
  constructor
  · exact holds.first
  · rw [size_free base holds.base_mem later.symm]
    exact holds.empty
  · rw [ptr]
    exact holds.ring
  · exact freep
  · apply holds.order.imp_of_mem
    intro a b member _ lt
    have := shrunk a member
    omega
  · intro a member ne
    rw [brk]
    by_cases here : a = p
    · subst here
      omega
    · rw [size_free a member here]
      exact holds.free a member ne
  · intro a member
    rw [brk]
    rcases List.mem_cons.mp member with rfl | member
    · omega
    · rw [size_live a member]
      exact holds.kept a member
  · intro a member' b member''
    unfold Apart
    rcases List.mem_cons.mp member'' with rfl | member''
    · rw [size_c]
      by_cases here : a = p
      · subst here
        omega
      · have := apart_free a member' here
        rw [size_free a member' here]
        omega
    · have := shrunk a member'
      have apart := holds.separate a member' b member''
      unfold Apart at apart
      rw [size_live b member'']
      omega
  · apply List.pairwise_cons.mpr
    constructor
    · intro b member'
      have apart := holds.separate p member b member'
      unfold Apart at apart ⊢
      rw [size_c, size_live b member']
      omega
    · apply holds.apart.imp_of_mem
      intro a b member member' apart
      unfold Apart
      rw [size_live a member, size_live b member']
      exact apart
  · have sum := holds.sum
    have before : ∀ a ∈ l₁, h'.size a = h.size a := fun a early => size_free a (by simp [early]) (by
      rintro rfl
      exact absurd (order₃ a early a (List.mem_cons_self ..)) (by omega))
    have behind : ∀ a ∈ l₂, h'.size a = h.size a := fun a late => size_free a (by simp [late]) (by
      rintro rfl
      exact absurd (order_p a late) (by omega))
    simp only [List.map_append, List.map_cons, List.sum_append, List.sum_cons] at sum ⊢
    rw [List.map_congr_left before, List.map_congr_left behind, List.map_congr_left size_live, size_p, size_c, brk]
    omega
  · exact holds.above
  · rw [brk]
    exact holds.below

theorem take_holds (holds : Holds base start h l live) (member : q ∈ l) (link : h.ptr q = p) (positive : 0 < n) (fits : n ≤ h.size p) :
    ∃ b l', (h.take n q p).1 = b + 8 ∧ Holds base start (h.take n q p).2 l' (b :: live) ∧ (h.take n q p).2.size b = n ∧
      (∀ a ∈ live, (h.take n q p).2.size a = h.size a) := by
  have later : p ≠ base := by
    rintro rfl
    have := holds.empty
    omega
  obtain ⟨l₁, l₂, rfl⟩ := List.append_of_mem member
  cases l₂ with
  | nil => exact absurd (link.symm.trans holds.ring.next_of_last) later
  | cons x l₂ =>
    obtain rfl : p = x := link.symm.trans holds.ring.next_of_cons
    have member_p : p ∈ l₁ ++ q :: p :: l₂ := by simp
    have inside := holds.free p member_p later
    have below := holds.below
    have above := holds.above
    unfold KERNBASE at below
    unfold Heap.take
    by_cases exactly : h.size p = n
    · rw [if_pos exactly]
      refine ⟨p, l₁ ++ q :: l₂, Nat.mod_eq_of_lt (by omega), ?_, ?_, ?_⟩
      · apply holds.unlink
        · simp
        · simp
        · rfl
        · rfl
      · simpa using exactly
      · intro a _
        simp
    · rw [if_neg exactly]
      have place : plus p ((h.setSize p (h.size p - n)).size p) = p + 8 * (h.size p - n) := by
        rw [Heap.size_setSize, update_self]
        exact Nat.mod_eq_of_lt (by omega)
      dsimp only
      rw [place]
      refine ⟨p + 8 * (h.size p - n), l₁ ++ q :: p :: l₂, Nat.mod_eq_of_lt (by omega), ?_, ?_, ?_⟩
      · apply holds.split member_p positive (by omega)
        · simp
        · simp
        · exact member
        · rfl
      · simp
      · intro a member'
        have inside' := holds.kept a member'
        have apart := holds.separate p member_p a member'
        unfold Apart at apart
        have ne : a ≠ p := by omega
        have ne' : a ≠ p + 8 * (h.size p - n) := by omega
        simp [update_of_ne ne, update_of_ne ne']

theorem morecore_holds (holds : Holds base start h l live) (grant : Nat → Bool) (positive : 0 < n) (small : n < 2 ^ 28) :
    ¬ h.Gives grant (8 * Heap.amount n) ∧ h.morecore grant n = some (none, h) ∨
    h.Gives grant (8 * Heap.amount n) ∧ ∃ h' l', h.morecore grant n = some (some h'.freep, h') ∧ Holds base start h' l' live ∧
      (∀ a ∈ live, h'.size a = h.size a) ∧ (∃ a ∈ l', n ≤ h'.size a) ∧ l'.length ≤ l.length + 1 := by
  obtain ⟨nu, eq⟩ : ∃ nu, nu = Heap.amount n := ⟨_, rfl⟩
  have large : n ≤ nu ∧ 4096 ≤ nu ∧ nu < 2 ^ 28 := by
    rw [eq]
    unfold Heap.amount
    split_ifs <;> omega
  have bytes : nu * 8 % 2 ^ 32 = 8 * nu := by omega
  rw [← eq]
  unfold Heap.morecore Heap.sbrk
  rw [← eq, bytes, if_neg (by omega), if_pos (by omega), Option.bind_some]
  by_cases given : h.Gives grant (8 * nu)
  · rw [if_pos given]
    right
    have below := given.2
    have extended : Holds base start (Heap.setSize { h with brk := h.brk + 8 * nu } h.brk nu) l (h.brk :: live) := by
      apply holds.extend (n := nu) (by omega) below
      · simp
      · simp
      · rfl
      · rfl
    obtain ⟨h', l', ran, holds', _, size, fits, short⟩ := extended.free_holds
    have pointer : plus h.brk 1 = h.brk + 8 := by
      unfold KERNBASE at below
      exact Nat.mod_eq_of_lt (by omega)
    have mapped : h.brk < (h.brk + 8 * nu + 4095) / 4096 * 4096 := by omega
    refine ⟨given, h', l', ?_, holds', ?_, ?_, short⟩
    · dsimp only
      rw [if_pos mapped, pointer, ran]
      rfl
    · intro a member
      have := holds.kept a member
      rw [size a member]
      simp [update_of_ne (show a ≠ h.brk by omega)]
    · obtain ⟨a, member, fits⟩ := fits
      refine ⟨a, member, ?_⟩
      simp at fits
      omega
  · rw [if_neg given]
    exact .inl ⟨given, rfl⟩

theorem next_mem (holds : Holds base start h l live) (member : q ∈ l) : h.ptr q ∈ l := by
  obtain ⟨l₁, l₂, rfl⟩ := List.append_of_mem member
  cases l₂ with
  | nil =>
    rw [holds.ring.next_of_last]
    exact holds.base_mem
  | cons x l₂ =>
    rw [holds.ring.next_of_cons]
    simp

theorem size_lt (holds : Holds base start h l live) (member : a ∈ l) : h.size a < 2 ^ 28 := by
  have := holds.bound member
  have below := holds.below
  unfold KERNBASE at below
  omega

end Holds

section Passes

variable (grant) (k : Nat)

theorem mallocLoop_fits (fits : n ≤ h.size p) :
    h.mallocLoop grant n (k + 1) q p = some (some (h.take n q p).1, (h.take n q p).2) := if_pos fits

theorem mallocLoop_next (less : ¬ n ≤ h.size p) (ne : p ≠ h.freep) :
    h.mallocLoop grant n (k + 1) q p = h.mallocLoop grant n k p (h.ptr p) := by
  rw [Heap.mallocLoop, if_neg less, if_neg ne]

theorem mallocLoop_fails (less : ¬ n ≤ h.size h.freep) (failed : h.morecore grant n = some (none, h')) :
    h.mallocLoop grant n (k + 1) q h.freep = some (none, h') := by
  rw [Heap.mallocLoop, if_neg less, if_pos rfl, failed]
  rfl

theorem mallocLoop_grows {r : Nat} (less : ¬ n ≤ h.size h.freep) (grown : h.morecore grant n = some (some r, h')) :
    h.mallocLoop grant n (k + 1) q h.freep = h'.mallocLoop grant n k r (h'.ptr r) := by
  rw [Heap.mallocLoop, if_neg less, if_pos rfl, grown]
  rfl

theorem requests_fits (fits : n ≤ h.size p) : h.requests grant n (k + 1) p = [] := if_pos fits

theorem requests_next (less : ¬ n ≤ h.size p) (ne : p ≠ h.freep) :
    h.requests grant n (k + 1) p = h.requests grant n k (h.ptr p) := by
  rw [Heap.requests, if_neg less, if_neg ne]

theorem requests_fails (less : ¬ n ≤ h.size h.freep) (failed : h.morecore grant n = some (none, h')) :
    h.requests grant n (k + 1) h.freep = [Heap.amount n] := by
  rw [Heap.requests, if_neg less, if_pos rfl, failed]

theorem requests_grows {r : Nat} (less : ¬ n ≤ h.size h.freep) (grown : h.morecore grant n = some (some r, h')) :
    h.requests grant n (k + 1) h.freep = Heap.amount n :: h'.requests grant n k (h'.ptr r) := by
  rw [Heap.requests, if_neg less, if_pos rfl, grown]

theorem mem_requests (less : ¬ n ≤ h.size h.freep) : Heap.amount n ∈ h.requests grant n (k + 1) h.freep := by
  rw [Heap.requests, if_neg less, if_pos rfl]
  split <;> exact List.mem_cons_self

end Passes

theorem mallocLoop_walk {e k : Nat} {t : List Nat} (segment : Segment h.ptr p t h.freep) (other : h.freep ∉ t)
    (enough : e = k + t.length + 1) (member : q ∈ l) (link : h.ptr q = p) (sub : ∀ a ∈ t, a ∈ l) :
    (∃ q' p', q' ∈ l ∧ h.ptr q' = p' ∧ n ≤ h.size p' ∧
      h.mallocLoop grant n e q p = some (some (h.take n q' p').1, (h.take n q' p').2) ∧ h.requests grant n e p = []) ∨
    (∀ a, a ∈ t ∨ a = h.freep → h.size a < n) ∧
      ∃ q', h.mallocLoop grant n e q p = h.mallocLoop grant n (k + 1) q' h.freep ∧
        h.requests grant n e p = h.requests grant n (k + 1) h.freep := by
  induction t generalizing p q e with
  | nil =>
    obtain rfl : p = h.freep := segment
    subst enough
    by_cases fits : n ≤ h.size h.freep
    · exact .inl ⟨q, h.freep, member, link, fits, mallocLoop_fits grant _ fits, requests_fits grant _ fits⟩
    · right
      refine ⟨?_, q, rfl, rfl⟩
      rintro a (inside | rfl)
      · cases inside
      · exact Nat.lt_of_not_le fits
  | cons x t ih =>
    obtain ⟨rfl, rest⟩ := segment
    obtain rfl : e = k + t.length + 1 + 1 := by
      rw [enough, List.length_cons]
      omega
    by_cases fits : n ≤ h.size p
    · exact .inl ⟨q, p, member, link, fits, mallocLoop_fits grant _ fits, requests_fits grant _ fits⟩
    · have ne : p ≠ h.freep := by
        rintro rfl
        exact other (List.mem_cons_self ..)
      rw [mallocLoop_next grant _ fits ne, requests_next grant _ fits ne]
      rcases ih rest (fun inside => other (List.mem_cons_of_mem _ inside)) rfl (sub p (List.mem_cons_self ..)) rfl
        (fun a inside => sub a (List.mem_cons_of_mem _ inside)) with found | ⟨small, last⟩
      · exact .inl found
      · right
        refine ⟨?_, last⟩
        rintro a (inside | last)
        · rcases List.mem_cons.mp inside with rfl | inside
          · exact Nat.lt_of_not_le fits
          · exact small a (.inl inside)
        · exact small a (.inr last)

namespace Holds

theorem walk (holds : Holds base start h l live) (grant : Nat → Bool) (n k : Nat) :
    (∃ q p, q ∈ l ∧ h.ptr q = p ∧ n ≤ h.size p ∧
      h.mallocLoop grant n (k + l.length) h.freep (h.ptr h.freep) = some (some (h.take n q p).1, (h.take n q p).2) ∧
        h.requests grant n (k + l.length) (h.ptr h.freep) = []) ∨
    (∀ a ∈ l, h.size a < n) ∧ ∃ q, h.mallocLoop grant n (k + l.length) h.freep (h.ptr h.freep) =
      h.mallocLoop grant n (k + 1) q h.freep ∧
        h.requests grant n (k + l.length) (h.ptr h.freep) = h.requests grant n (k + 1) h.freep := by
  obtain ⟨r₁, r₂, eq⟩ := List.append_of_mem holds.freep
  have ring := holds.ring
  rw [eq] at ring
  obtain ⟨_, rest⟩ := ring.rotate
  have nodup := holds.nodup
  rw [eq] at nodup
  have other : h.freep ∉ r₂ ++ r₁ := by
    have nodup := (List.perm_append_comm.nodup_iff).mp nodup
    exact (List.nodup_cons.mp nodup).1
  have sub : ∀ a ∈ r₂ ++ r₁, a ∈ l := by
    intro a member
    rw [eq]
    rcases List.mem_append.mp member with member | member
    · exact List.mem_append_right _ (List.mem_cons_of_mem _ member)
    · exact List.mem_append_left _ member
  have length : k + l.length = k + (r₂ ++ r₁).length + 1 := by
    rw [eq, List.length_append, List.length_append, List.length_cons]
    omega
  rcases mallocLoop_walk rest other length holds.freep rfl sub with found | ⟨small, last⟩
  · exact .inl found
  · right
    refine ⟨?_, last⟩
    intro a member
    have around : ∀ a ∈ l, a ∈ r₂ ++ r₁ ∨ a = h.freep := by
      intro a member
      rw [eq] at member
      simp only [List.mem_append, List.mem_cons] at member ⊢
      tauto
    exact small a (around a member)

/-- How `malloc` ends: without a block, or with a new one. -/
structure Taken (base start n : Nat) (h : Heap) (live : List Nat) (r : Option Nat) (h' : Heap) : Prop where
  size : ∀ a ∈ live, h'.size a = h.size a
  none : r = none → ∃ l, Holds base start h' l live
  some : ∀ ap, r = some ap → ∃ b l, ap = b + 8 ∧ Holds base start h' l (b :: live) ∧ h'.size b = n

theorem taken (holds : Holds base start h l live) (member : q ∈ l) (link : h.ptr q = p) (positive : 0 < n) (fits : n ≤ h.size p) :
    Taken base start n h live (some (h.take n q p).1) (h.take n q p).2 := by
  obtain ⟨b, l', place, holds', size, same⟩ := holds.take_holds member link positive fits
  refine ⟨same, nofun, ?_⟩
  rintro _ ⟨rfl⟩
  exact ⟨b, l', place, holds', size⟩

theorem mallocLoop (holds : Holds base start h l live) (grant : Nat → Bool) (positive : 0 < n) (small : n < 2 ^ 28) :
    ∃ r h', h.mallocLoop grant n (2 * h.brk + 2) h.freep (h.ptr h.freep) = some (r, h') ∧ Taken base start n h live r h' ∧
      (r = none ↔ (∀ a ∈ l, h.size a < n) ∧ ¬ h.Gives grant (8 * Heap.amount n)) ∧
      ∀ nu ∈ h.requests grant n (2 * h.brk + 2) (h.ptr h.freep), nu = Heap.amount n := by
  have length := holds.length_le
  obtain ⟨k, enough⟩ : ∃ k, 2 * h.brk + 2 = k + l.length ∧ l.length + 2 ≤ k := ⟨2 * h.brk + 2 - l.length, by omega, by omega⟩
  rw [enough.1]
  rcases holds.walk grant n k with ⟨q, p, member, link, fits, ran, asked⟩ | ⟨less, q, ran, asked⟩
  · refine ⟨_, _, ran, holds.taken member link positive fits, iff_of_false nofun ?_, ?_⟩
    · rintro ⟨less, _⟩
      exact absurd fits (Nat.not_le.mpr (less p (link ▸ holds.next_mem member)))
    · rw [asked]
      exact fun _ member => nomatch member
  · have less' := Nat.not_le.mpr (less h.freep holds.freep)
    rcases holds.morecore_holds grant positive small with
      ⟨refused, failed⟩ | ⟨given, h', l', grown, holds', same, ⟨a, member, fits⟩, short⟩
    · refine ⟨none, h, ?_, ⟨fun _ _ => rfl, fun _ => ⟨l, holds⟩, nofun⟩, iff_of_true rfl ⟨less, refused⟩, ?_⟩
      · rw [ran, mallocLoop_fails grant k less' failed]
      · rw [asked, requests_fails grant k less' failed]
        exact fun _ member => List.mem_singleton.mp member
    · obtain ⟨k', enough'⟩ : ∃ k', k = k' + l'.length := ⟨k - l'.length, by omega⟩
      rw [ran, asked, mallocLoop_grows grant k less' grown, requests_grows grant k less' grown, enough']
      rcases holds'.walk grant n k' with ⟨q, p, member, link, fits, ran, asked⟩ | ⟨less, _⟩
      · have taken := holds'.taken member link positive fits
        refine ⟨_, _, ran, ⟨?_, taken.none, taken.some⟩, iff_of_false nofun fun refused => refused.2 given, ?_⟩
        · intro a member
          rw [taken.size a member, same a member]
        · rw [asked]
          exact fun _ member => List.mem_singleton.mp member
      · exact absurd fits (Nat.not_le.mpr (less a member))

theorem requests_large (holds : Holds base start h l live) (grant : Nat → Bool) (large : 2 ^ 28 ≤ n) :
    Heap.amount n ∈ h.requests grant n (2 * h.brk + 2) (h.ptr h.freep) := by
  have length := holds.length_le
  obtain ⟨k, enough⟩ : ∃ k, 2 * h.brk + 2 = k + l.length := ⟨2 * h.brk + 2 - l.length, by omega⟩
  rw [enough]
  rcases holds.walk grant n k with ⟨q, p, member, link, fits, _⟩ | ⟨less, q, _, asked⟩
  · have := holds.size_lt (link ▸ holds.next_mem member : p ∈ l)
    omega
  · rw [asked]
    exact mem_requests grant k (Nat.not_le.mpr (less h.freep holds.freep))

theorem init (fresh : h.brk = start) (above : base + 8 ≤ start) (below : start < KERNBASE) :
    Holds base start { h with mem := update h.mem base ⟨base, 0⟩, freep := base } [base] [] where
  first := rfl
  empty := by
    show (update h.mem base ⟨base, 0⟩ base).size = 0
    rw [update_self]
  ring := by
    refine ⟨rfl, ?_⟩
    show (update h.mem base ⟨base, 0⟩ base).ptr = base
    rw [update_self]
  freep := List.mem_singleton_self base
  order := List.pairwise_singleton ..
  free a member ne := absurd (List.mem_singleton.mp member) ne
  kept _ member := nomatch member
  separate _ _ _ member := nomatch member
  apart := .nil
  sum := by
    have none : Heap.size { h with mem := update h.mem base ⟨base, 0⟩, freep := base } base = 0 := by
      show (update h.mem base ⟨base, 0⟩ base).size = 0
      rw [update_self]
    rw [List.map_singleton, List.sum_singleton, none, List.map_nil, List.sum_nil]
    exact fresh.symm
  above := above
  below := by
    show h.brk < KERNBASE
    rw [fresh]
    exact below

theorem perm {live' : List Nat} (holds : Holds base start h l live) (perm : live.Perm live') : Holds base start h l live' where
  first := holds.first
  empty := holds.empty
  ring := holds.ring
  freep := holds.freep
  order := holds.order
  free := holds.free
  kept a member := holds.kept a (perm.mem_iff.mpr member)
  separate a member b member' := holds.separate a member b (perm.mem_iff.mpr member')
  apart := (perm.pairwise_iff fun apart => Std.Symm.symm _ _ apart).mp holds.apart
  sum := by
    rw [← (perm.map h.size).sum_eq]
    exact holds.sum
  above := holds.above
  below := holds.below

end Holds

end Xv6.Umalloc
