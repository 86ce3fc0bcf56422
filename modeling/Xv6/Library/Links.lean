import Mathlib.Data.List.Nodup
import Mathlib.Logic.Function.Basic

namespace Links

variable {α : Type} {next next' : α → α} {a b e x : α} {l l₁ l₂ : List α}

/-- From `a` the links lead through the cells of `l`, in order, to `e`. -/
def Segment (next : α → α) : α → List α → α → Prop
  | a, [], e => a = e
  | a, x :: l, e => a = x ∧ Segment next (next x) l e

theorem segment_cons : Segment next a (x :: l) e ↔ a = x ∧ Segment next (next x) l e := Iff.rfl

theorem segment_append : Segment next a (l₁ ++ l₂) e ↔ ∃ b, Segment next a l₁ b ∧ Segment next b l₂ e := by
  induction l₁ generalizing a with
  | nil =>
    constructor
    · exact fun rest => ⟨a, rfl, rest⟩
    · rintro ⟨_, rfl, rest⟩
      exact rest
  | cons x l₁ ih =>
    rw [List.cons_append, segment_cons, ih]
    constructor
    · rintro ⟨rfl, b, first, rest⟩
      exact ⟨b, ⟨rfl, first⟩, rest⟩
    · rintro ⟨b, ⟨rfl, first⟩, rest⟩
      exact ⟨rfl, b, first, rest⟩

theorem segment_cut : Segment next a (l₁ ++ x :: l₂) e ↔ Segment next a l₁ x ∧ Segment next (next x) l₂ e := by
  rw [segment_append]
  constructor
  · rintro ⟨_, first, rfl, rest⟩
    exact ⟨first, rest⟩
  · rintro ⟨first, rest⟩
    exact ⟨x, first, rfl, rest⟩

theorem Segment.congr (segment : Segment next a l e) (same : ∀ y ∈ l, next' y = next y) : Segment next' a l e := by
  induction l generalizing a with
  | nil => exact segment
  | cons x l ih =>
    obtain ⟨rfl, rest⟩ := segment
    refine ⟨rfl, ?_⟩
    rw [same a (List.mem_cons_self ..)]
    exact ih rest fun y member => same y (List.mem_cons_of_mem a member)

theorem Segment.rotate (ring : Segment next a (l₁ ++ x :: l₂) a) : Segment next x (x :: l₂ ++ l₁) x := by
  obtain ⟨first, rest⟩ := segment_cut.mp ring
  exact segment_append.mpr ⟨a, ⟨rfl, rest⟩, first⟩

theorem Segment.next_of_cons (segment : Segment next a (l₁ ++ x :: b :: l₂) e) : next x = b :=
  (segment_cut.mp segment).2.1

theorem Segment.next_of_last (segment : Segment next a (l ++ [x]) e) : next x = e := (segment_cut.mp segment).2

section Doubly

open Function

variable {prev : α → α} {head : α}

/-- A doubly linked ring through `head`: the cells of `l` follow it along `next` and, turned around, along
    `prev`, and no cell comes twice. -/
structure Doubly (next prev : α → α) (head : α) (l : List α) : Prop where
  forward : Segment next head (head :: l) head
  backward : Segment prev head (head :: l.reverse) head
  once : (head :: l).Nodup

namespace Doubly

theorem reverse (ring : Doubly next prev head l) : Doubly prev next head l.reverse where
  forward := ring.backward
  backward := by
    rw [List.reverse_reverse]
    exact ring.forward
  once := by
    obtain ⟨outside, once⟩ := List.nodup_cons.mp ring.once
    exact List.nodup_cons.mpr ⟨fun member => outside (List.mem_reverse.mp member), List.nodup_reverse.mpr once⟩

theorem walk (ring : Doubly next prev head l) : Segment next (next head) l head := ring.forward.2

theorem head_not_mem (ring : Doubly next prev head l) : head ∉ l := (List.nodup_cons.mp ring.once).1

/-- What is led back from `b` to the head ends, read forwards, with the cell before `b`. -/
theorem split_last (back : Segment prev (prev b) l.reverse head) : ∃ m, head :: l = m ++ [prev b] := by
  rcases List.eq_nil_or_concat l with rfl | ⟨m, x, rfl⟩
  · exact ⟨[], by rw [show prev b = head from back]; rfl⟩
  · rw [List.concat_eq_append, List.reverse_append] at back
    exact ⟨head :: m, by rw [show prev b = x from back.1, List.concat_eq_append]; rfl⟩

theorem before (ring : Doubly next prev head (l₁ ++ b :: l₂)) : ∃ m, head :: l₁ = m ++ [prev b] := by
  have back := ring.backward
  rw [List.reverse_append, List.reverse_cons, List.append_assoc, List.singleton_append, ← List.cons_append] at back
  exact split_last (segment_cut.mp back).2

theorem before_head (ring : Doubly next prev head l) : ∃ m, head :: l = m ++ [prev head] := split_last ring.backward.2

theorem next_ne (ring : Doubly next prev head (l₁ ++ b :: l₂)) : next b ≠ b := by
  have back := ring.reverse
  rw [List.reverse_append, List.reverse_cons, List.append_assoc, List.singleton_append] at back
  obtain ⟨m, split⟩ := back.before
  intro same
  rw [same] at split
  have member : b ∈ head :: l₂.reverse := split ▸ List.mem_append_right m (List.mem_singleton_self b)
  have once := back.once
  rw [← List.cons_append] at once
  exact (List.nodup_append.mp once).2.2 b member b (List.mem_cons_self ..) rfl

variable [DecidableEq α]

theorem skip (ring : Doubly next prev head (l₁ ++ b :: l₂)) :
    Segment (update next (prev b) (next b)) head (head :: (l₁ ++ l₂)) head := by
  obtain ⟨m, split⟩ := ring.before
  have forward := ring.forward
  have once := ring.once
  rw [← List.cons_append, split, List.append_assoc] at forward once
  rw [← List.cons_append, split, List.append_assoc]
  obtain ⟨_, apart, disjoint⟩ := List.nodup_append.mp once
  obtain ⟨first, rest⟩ := segment_cut.mp forward
  obtain ⟨_, last⟩ := segment_cons.mp rest
  apply segment_cut.mpr
  rw [update_self]
  constructor
  · exact first.congr fun y member => update_of_ne (disjoint y member _ (List.mem_cons_self ..)) ..
  · apply last.congr
    intro y member
    apply update_of_ne
    rintro rfl
    exact (List.nodup_cons.mp apart).1 (List.mem_cons_of_mem b member)

theorem enter (ring : Doubly next prev head l) (outside : b ∉ head :: l) :
    Segment (update (update next b (next head)) head b) head (head :: b :: l) head := by
  obtain ⟨ne, outside⟩ := not_or.mp (fun member => outside (List.mem_cons.mpr member))
  refine ⟨rfl, ?_, ?_⟩
  · exact update_self ..
  · rw [update_of_ne ne, update_self]
    apply ring.walk.congr
    intro y member
    have not_head : y ≠ head := fun same => ring.head_not_mem (same ▸ member)
    have not_b : y ≠ b := fun same => outside (same ▸ member)
    rw [update_of_ne not_head, update_of_ne not_b]

theorem enter_last (ring : Doubly next prev head l) (outside : b ∉ head :: l) :
    Segment (update (update next b head) (prev head) b) head (head :: (l ++ [b])) head := by
  obtain ⟨m, split⟩ := ring.before_head
  have forward := ring.forward
  have once := ring.once
  rw [split] at forward once outside
  obtain ⟨_, _, disjoint⟩ := List.nodup_append.mp once
  obtain ⟨outside_m, outside_last⟩ := not_or.mp (fun member => outside (List.mem_append.mpr member))
  rw [← List.cons_append, split, List.append_assoc]
  apply segment_cut.mpr
  rw [update_self]
  constructor
  · apply (segment_cut.mp forward).1.congr
    intro y member
    have not_b : y ≠ b := fun same => outside_m (same ▸ member)
    rw [update_of_ne (disjoint y member _ (List.mem_singleton_self _)), update_of_ne not_b]
  · have not_last : b ≠ prev head := fun same => outside_last (List.mem_singleton.mpr same)
    refine ⟨rfl, ?_⟩
    rw [update_of_ne not_last, update_self]
    rfl

theorem unlink (ring : Doubly next prev head (l₁ ++ b :: l₂)) :
    Doubly (update next (prev b) (next b)) (update prev (next b) (prev b)) head (l₁ ++ l₂) where
  forward := ring.skip
  backward := by
    have back := ring.reverse
    rw [List.reverse_append, List.reverse_cons, List.append_assoc, List.singleton_append] at back
    rw [List.reverse_append]
    exact back.skip
  once := ring.once.sublist (List.Sublist.cons_cons head (List.Sublist.append_left (List.sublist_cons_self b l₂) l₁))

theorem push (ring : Doubly next prev head l) (outside : b ∉ head :: l) :
    Doubly (update (update next b (next head)) head b) (update (update prev b head) (next head) b) head (b :: l) where
  forward := ring.enter outside
  backward := by
    have outside' : b ∉ head :: l.reverse := by simpa using outside
    rw [List.reverse_cons]
    exact ring.reverse.enter_last outside'
  once := by
    obtain ⟨ne, outside⟩ := not_or.mp (fun member => outside (List.mem_cons.mpr member))
    obtain ⟨head_outside, once⟩ := List.nodup_cons.mp ring.once
    rw [List.nodup_cons, List.nodup_cons, List.mem_cons, not_or]
    exact ⟨⟨Ne.symm ne, head_outside⟩, outside, once⟩

end Doubly

end Doubly

end Links
