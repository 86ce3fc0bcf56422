import Xv6.Buffers.Edits

namespace Xv6.Buffers

open Function Links Log Sched Tally

variable {s s' : State} {p q : Slot} {b x y : Index} {dev blockno : Nat} {l l₁ l₂ : List Index}

namespace State

/-- The list has all buffers, and of two with the same block the later one was never used. -/
structure Order (s : State) (l : List Index) : Prop where
  ring : s.lru.Ring l
  full : ∀ b, b ∈ l
  apart : l.Pairwise fun x y => (s.buf x).Same (s.buf y) → s.buf y = .zero

namespace Order

variable (order : s.Order l)
include order

theorem edit (edit : s.Edit s' p b) (referenced : 0 < (s.buf b).refcnt) (lru : s'.lru = s.lru) : s'.Order l where
  ring := lru ▸ order.ring
  full := order.full
  apart := by
    apply order.apart.imp
    intro x y apart same
    have used : s.buf b ≠ .zero := fun zero => Nat.lt_irrefl 0 (by rw [zero] at referenced; exact referenced)
    have same_before : ∀ z, (s'.buf z).Same (s.buf z) := by
      intro z
      by_cases here : z = b
      · rw [here]
        exact edit.same referenced
      · rw [(edit.others z here).1]
        exact ⟨rfl, rfl⟩
    have before : (s.buf x).Same (s.buf y) :=
      ⟨(same_before x).1.symm.trans (same.1.trans (same_before y).1),
        (same_before x).2.symm.trans (same.2.trans (same_before y).2)⟩
    have zero := apart before
    have other : y ≠ b := by
      rintro rfl
      exact used zero
    rw [(edit.others y other).1, zero]

theorem found (split : l = l₁ ++ b :: l₂) (names : (s.buf b).Names dev blockno)
    (first : ∀ x ∈ l₁, ¬ (s.buf x).Names dev blockno) (n : Nat) {pc : Pc} :
    ((s.put b { s.buf b with refcnt := n }).goto p pc).Order l where
  ring := order.ring
  full := order.full
  apart := by
    have nodup := order.ring.nodup
    have apart := order.apart
    subst split
    obtain ⟨_, nodup', disjoint⟩ := List.nodup_append.mp nodup
    obtain ⟨apart₁, apart₂, cross⟩ := List.pairwise_append.mp apart
    obtain ⟨behind, apart₂⟩ := List.pairwise_cons.mp apart₂
    have outside := (List.nodup_cons.mp nodup').1
    have not_first : ∀ x ∈ l₁, x ≠ b := fun x member => disjoint x member b (List.mem_cons_self ..)
    have not_second : ∀ x ∈ l₂, x ≠ b := fun x member same => outside (same ▸ member)
    have kept : ∀ x, x ≠ b → update s.buf b { s.buf b with refcnt := n } x = s.buf x := fun x other => update_of_ne other ..
    simp only [buf_goto, buf_put]
    rw [List.pairwise_append, List.pairwise_cons]
    refine ⟨?_, ⟨?_, ?_⟩, ?_⟩
    · apply apart₁.imp_of_mem
      intro x y hx hy apart
      rwa [kept x (not_first x hx), kept y (not_first y hy)]
    · intro y hy
      rw [update_self, kept y (not_second y hy)]
      exact behind y hy
    · apply apart₂.imp_of_mem
      intro x y hx hy apart
      rwa [kept x (not_second x hx), kept y (not_second y hy)]
    · intro x hx y hy
      rw [kept x (not_first x hx)]
      rcases List.mem_cons.mp hy with rfl | later
      · rw [update_self]
        exact fun same => absurd ⟨same.1.trans names.1, same.2.trans names.2⟩ (first x hx)
      · rw [kept y (not_second y later)]
        exact cross x hx y hy

theorem recycled (absent : ∀ x, ¬ (s.buf x).Names dev blockno) {v : Buf} (names : v.Names dev blockno) {pc : Pc} :
    ((s.put b v).goto p pc).Order l where
  ring := order.ring
  full := order.full
  apart := by
    simp only [buf_goto, buf_put]
    apply (order.apart.and order.ring.nodup).imp
    rintro x y ⟨apart, different⟩ same
    by_cases second : y = b
    · subst second
      rw [update_of_ne different, update_self] at same
      exact absurd ⟨same.1.trans names.1, same.2.trans names.2⟩ (absent x)
    · rw [update_of_ne second] at same ⊢
      by_cases first : x = b
      · subst first
        rw [update_self] at same
        exact absurd ⟨same.1.symm.trans names.1, same.2.symm.trans names.2⟩ (absent y)
      · rw [update_of_ne first] at same
        exact apart same

theorem moved (used : s.buf b ≠ .zero) :
    ∃ l', ({ s with lru := (s.lru.unlink b).insert b } : State).Order l' := by
  obtain ⟨l₁, l₂, rfl⟩ := List.append_of_mem (order.full b)
  have nodup := order.ring.nodup
  obtain ⟨_, nodup', disjoint⟩ := List.nodup_append.mp nodup
  have outside : b ∉ l₁ ++ l₂ := by
    intro member
    rcases List.mem_append.mp member with first | second
    · exact disjoint b first b (List.mem_cons_self ..) rfl
    · exact (List.nodup_cons.mp nodup').1 second
  obtain ⟨apart₁, apart₂, cross⟩ := List.pairwise_append.mp order.apart
  obtain ⟨behind, apart₂⟩ := List.pairwise_cons.mp apart₂
  refine ⟨b :: (l₁ ++ l₂), order.ring.unlink.insert outside, ?_, ?_⟩
  · intro x
    have member := order.full x
    simp only [List.mem_append, List.mem_cons] at member ⊢
    tauto
  · refine List.pairwise_cons.mpr ⟨?_, List.pairwise_append.mpr ⟨apart₁, apart₂, ?_⟩⟩
    · intro y member same
      rcases List.mem_append.mp member with first | second
      · exact absurd (cross y first b (List.mem_cons_self ..) ⟨same.1.symm, same.2.symm⟩) used
      · exact behind y second same
    · exact fun x hx y hy => cross x hx y (List.mem_cons_of_mem b hy)

end Order

/-- How `bget` ends. -/
inductive Got (s : State) (p : Slot) (dev blockno : Nat) (l : List Index) : State → Prop
  | found (b : Index) (l₁ l₂ : List Index) (split : l = l₁ ++ b :: l₂) (names : (s.buf b).Names dev blockno)
    (first : ∀ x ∈ l₁, ¬ (s.buf x).Names dev blockno) :
    Got s p dev blockno l
      ((s.put b { s.buf b with refcnt := (s.buf b).refcnt + 1 }).goto p (.locking dev blockno b))
  | recycled (b : Index) (absent : ∀ x, ¬ (s.buf x).Names dev blockno) (unused : (s.buf b).refcnt = 0)
    (clean : (s.buf b).dirty = false) :
    Got s p dev blockno l
      ((s.put b
        { s.buf b with
          dev := dev
          blockno := blockno
          valid := false
          dirty := false
          refcnt := 1 }).goto p (.locking dev blockno b))
  | noBuffers (absent : ∀ x, ¬ (s.buf x).Names dev blockno)
    (busy : ∀ x, (s.buf x).refcnt ≠ 0 ∨ (s.buf x).dirty = true) : Got s p dev blockno l (s.panic "bget: no buffers")

theorem Order.bget (order : s.Order l) (p : Slot) (dev blockno : Nat) :
    ∃ s', s.bget p dev blockno = some s' ∧ s.Got p dev blockno l s' := by
  unfold State.bget
  rw [order.ring.scan_next]
  cases search : l.find? fun b => decide ((s.buf b).dev = dev ∧ (s.buf b).blockno = blockno) with
  | some b =>
    obtain ⟨names, l₁, l₂, split, first⟩ := List.find?_eq_some_iff_append.mp search
    have holds := decide_eq_true_iff.mp names
    refine ⟨_, rfl, .found b l₁ l₂ split holds ?_⟩
    intro x member
    have passed := first x member
    rw [Bool.not_eq_true', decide_eq_false_iff_not] at passed
    exact passed
  | none =>
    have absent : ∀ x, ¬ (s.buf x).Names dev blockno := by
      intro x
      simpa [Buf.Names] using List.find?_eq_none.mp search x (order.full x)
    dsimp only
    rw [order.ring.scan_prev]
    cases again : l.reverse.find? fun b => decide ((s.buf b).refcnt = 0 ∧ (s.buf b).dirty = false) with
    | some b =>
      have passed := List.find?_some again
      obtain ⟨unused, clean⟩ := decide_eq_true_iff.mp passed
      exact ⟨_, rfl, .recycled b absent unused clean⟩
    | none =>
      refine ⟨_, rfl, .noBuffers absent ?_⟩
      intro x
      have busy := List.find?_eq_none.mp again x (List.mem_reverse.mpr (order.full x))
      by_cases unused : (s.buf x).refcnt = 0
      · exact .inr (by simpa [unused] using busy)
      · exact .inl unused

end State

end Xv6.Buffers
