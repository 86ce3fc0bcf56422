import Mathlib.Data.List.Basic
import Mathlib.Logic.Function.Basic

namespace Writes

open Function

variable {ι α : Type} [DecidableEq ι] {ws rest : List (ι × α)} {d e : ι → α} {i : ι}

/-- The state of a store after a list of writes, the earliest first. -/
def apply (ws : List (ι × α)) (d : ι → α) : ι → α := ws.foldl (fun d w => update d w.1 w.2) d

@[simp] theorem apply_cons {w : ι × α} : apply (w :: ws) d = apply ws (update d w.1 w.2) := rfl

theorem apply_append : apply (ws ++ rest) d = apply rest (apply ws d) := List.foldl_append ..

theorem apply_of_not_mem (away : ∀ w ∈ ws, w.1 ≠ i) : apply ws d i = d i := by
  induction ws generalizing d with
  | nil => rfl
  | cons w ws ih =>
    rw [apply_cons, ih fun v member => away v (.tail _ member), update_of_ne (away w (.head _)).symm]

/-- A cell that a list of writes covers holds the same whatever it held before. -/
theorem apply_congr (same : d i = e i ∨ ∃ w ∈ ws, w.1 = i) : apply ws d i = apply ws e i := by
  induction ws generalizing d e with
  | nil => exact same.resolve_right (by simp)
  | cons w ws ih =>
    rw [apply_cons, apply_cons]
    apply ih
    by_cases here : w.1 = i
    · subst here
      rw [update_self, update_self]
      exact .inl rfl
    · rw [update_of_ne (Ne.symm here), update_of_ne (Ne.symm here)]
      rcases same with same | ⟨v, member, eq⟩
      · exact .inl same
      · cases member with
        | head => exact absurd eq here
        | tail _ member => exact .inr ⟨v, member, eq⟩

/-- The first `k` writes and then all of them have the effect of all of them. -/
theorem apply_take_again (k : Nat) : apply ws (apply (ws.take k) d) = apply ws d := by
  funext i
  apply apply_congr
  by_cases covered : ∃ w ∈ ws, w.1 = i
  · exact .inr covered
  · exact .inl (apply_of_not_mem fun w member eq => covered ⟨w, List.mem_of_mem_take member, eq⟩)

theorem apply_of_mem (distinct : (ws.map Prod.fst).Nodup) {w : ι × α} (member : w ∈ ws) : apply ws d w.1 = w.2 := by
  induction ws generalizing d with
  | nil => cases member
  | cons v ws ih =>
    rw [List.map_cons, List.nodup_cons] at distinct
    cases member with
    | head =>
      rw [apply_cons, apply_of_not_mem, update_self]
      intro u later eq
      exact distinct.1 (eq ▸ List.mem_map_of_mem later)
    | tail _ member => exact ih distinct.2 member

end Writes
