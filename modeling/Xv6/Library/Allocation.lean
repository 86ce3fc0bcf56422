import Mathlib.Data.Finset.Card

namespace Allocation

open Function

variable {ι β : Type} {refs refs' : ι → Option β} {used used' : β → Prop} {x : ι} {b : β}

/-- The cells in use are exactly those that some place refers to, each from one place. -/
structure Exact (refs : ι → Option β) (used : β → Prop) : Prop where
  sound : ∀ x b, refs x = some b → used b
  distinct : ∀ x y b, refs x = some b → refs y = some b → x = y
  complete : ∀ b, used b → ∃ x, refs x = some b

namespace Exact

theorem congr (held : Exact refs used) (same : ∀ x, refs' x = refs x) (alike : ∀ b, used' b ↔ used b) :
    Exact refs' used' where
  sound x b at_x := (alike b).mpr (held.sound x b (same x ▸ at_x))
  distinct x y b at_x at_y := held.distinct x y b (same x ▸ at_x) (same y ▸ at_y)
  complete b in_use := by
    obtain ⟨x, at_x⟩ := held.complete b ((alike b).mp in_use)
    exact ⟨x, (same x).trans at_x⟩

theorem take [DecidableEq ι] (held : Exact refs used) (empty : refs x = none) (free : ¬ used b) :
    Exact (update refs x (some b)) (fun c => c = b ∨ used c) where
  sound y c at_y := by
    by_cases here : y = x
    · subst here
      rw [update_self] at at_y
      exact .inl (Option.some.inj at_y).symm
    · rw [update_of_ne here] at at_y
      exact .inr (held.sound y c at_y)
  distinct y z c at_y at_z := by
    have new : ∀ w, w ≠ x → refs w = some c → c ≠ b := fun w _ at_w eq => free (eq ▸ held.sound w c at_w)
    by_cases here : y = x <;> by_cases there : z = x
    · exact here.trans there.symm
    · subst here
      rw [update_self] at at_y
      rw [update_of_ne there] at at_z
      exact absurd (Option.some.inj at_y).symm (new z there at_z)
    · subst there
      rw [update_self] at at_z
      rw [update_of_ne here] at at_y
      exact absurd (Option.some.inj at_z).symm (new y here at_y)
    · rw [update_of_ne here] at at_y
      rw [update_of_ne there] at at_z
      exact held.distinct y z c at_y at_z
  complete c in_use := by
    rcases in_use with rfl | in_use
    · exact ⟨x, update_self ..⟩
    · obtain ⟨y, at_y⟩ := held.complete c in_use
      have ne : y ≠ x := by
        intro eq
        subst eq
        rw [empty] at at_y
        cases at_y
      exact ⟨y, by rw [update_of_ne ne]; exact at_y⟩

theorem drop (held : Exact refs used) (gone : ι → Prop) [DecidablePred gone] :
    Exact (fun x => if gone x then none else refs x) (fun b => used b ∧ ∀ x, gone x → refs x ≠ some b) where
  sound x b at_x := by
    by_cases left : gone x
    · rw [if_pos left] at at_x
      cases at_x
    · rw [if_neg left] at at_x
      exact ⟨held.sound x b at_x, fun y went at_y => left (held.distinct x y b at_x at_y ▸ went)⟩
  distinct x y b at_x at_y := by
    by_cases left : gone x <;> by_cases left' : gone y
    · rw [if_pos left] at at_x
      cases at_x
    · rw [if_pos left] at at_x
      cases at_x
    · rw [if_pos left'] at at_y
      cases at_y
    · rw [if_neg left] at at_x
      rw [if_neg left'] at at_y
      exact held.distinct x y b at_x at_y
  complete b still := by
    obtain ⟨x, at_x⟩ := held.complete b still.1
    exact ⟨x, by rw [if_neg fun left => still.2 x left at_x]; exact at_x⟩

theorem card_eq (held : Exact refs used) (places : Finset ι) (cells : Finset β)
    (some_iff : ∀ x, x ∈ places ↔ (refs x).isSome) (used_iff : ∀ b, b ∈ cells ↔ used b) : places.card = cells.card := by
  have inside : ∀ x, x ∈ places → ∃ b, refs x = some b := fun x member => Option.isSome_iff_exists.mp ((some_iff x).mp member)
  apply Finset.card_bij fun x member => (inside x member).choose
  · intro x member
    exact (used_iff _).mpr (held.sound x _ (inside x member).choose_spec)
  · intro x member y member' same
    have at_x := (inside x member).choose_spec
    have at_y := (inside y member').choose_spec
    rw [← same] at at_y
    exact held.distinct x y _ at_x at_y
  · intro b member
    obtain ⟨x, at_x⟩ := held.complete b ((used_iff b).mp member)
    have member' := (some_iff x).mpr (by rw [at_x]; rfl)
    exact ⟨x, member', Option.some.inj ((inside x member').choose_spec.symm.trans at_x)⟩

end Exact

end Allocation
