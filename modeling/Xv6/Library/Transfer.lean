import Mathlib.Logic.Function.Basic
import Mathlib.Data.List.Basic
import Mathlib.Data.List.Range
import Mathlib.Algebra.Ring.Nat
import Mathlib.Tactic.Common

namespace Transfers

open Function

variable {A β : Type} [DecidableEq A] {dst src : ℕ → A} {order order' : List ℕ} {m : A → β} {a : A} {i k n : ℕ}

/-- One element after the other goes from `src` to `dst`, in the order of the list. -/
def transfer (dst src : ℕ → A) : List ℕ → (A → β) → A → β
  | [], m => m
  | i :: rest, m => transfer dst src rest (update m (dst i) (m (src i)))

theorem transfer_append : transfer dst src (order ++ order') m = transfer dst src order' (transfer dst src order m) := by
  induction order generalizing m with
  | nil => rfl
  | cons i rest ih => exact ih

theorem transfer_map (f : ℕ → ℕ) :
    transfer dst src (order.map f) m = transfer (fun i => dst (f i)) (fun i => src (f i)) order m := by
  induction order generalizing m with
  | nil => rfl
  | cons i rest ih => exact ih

theorem transfer_apart (apart : ∀ i ∈ order, a ≠ dst i) : transfer dst src order m a = m a := by
  induction order generalizing m with
  | nil => rfl
  | cons i rest ih =>
    rw [transfer, ih fun j member => apart j (List.mem_cons_of_mem i member)]
    exact update_of_ne (apart i List.mem_cons_self) ..

theorem transfer_ordered (distinct : order.Pairwise fun i j => dst i ≠ dst j)
    (unspoilt : order.Pairwise fun i j => src j ≠ dst i) (member : i ∈ order) :
    transfer dst src order m (dst i) = m (src i) := by
  induction order generalizing m with
  | nil => cases member
  | cons first rest ih =>
    obtain ⟨apart, distinct⟩ := List.pairwise_cons.mp distinct
    obtain ⟨fresh, unspoilt⟩ := List.pairwise_cons.mp unspoilt
    rw [transfer]
    rcases List.mem_cons.mp member with rfl | later
    · rw [transfer_apart apart, update_self]
    · rw [ih distinct unspoilt later]
      exact update_of_ne (fresh i later) ..

theorem transfer_range_succ : transfer dst src (List.range (n + 1)) m =
    update (transfer dst src (List.range n) m) (dst n) (transfer dst src (List.range n) m (src n)) := by
  rw [List.range_succ, transfer_append]
  rfl

/-- Upwards with the destination `k` elements above the source: the first `k` elements are repeated. -/
theorem transfer_repeats (positive : 0 < k) (shift : ∀ i, i + k < n → src (i + k) = dst i)
    (fresh : ∀ i j, i < k → j < n → src i ≠ dst j) (distinct : ∀ i j, i < j → j < n → dst i ≠ dst j) (inside : i < n) :
    transfer dst src (List.range n) m (dst i) = m (src (i % k)) := by
  induction n generalizing i with
  | zero => omega
  | succ n ih =>
    have before : ∀ i, i < n → transfer dst src (List.range n) m (dst i) = m (src (i % k)) := by
      intro i inside
      exact ih (fun i small => shift i (by omega)) (fun i j low small => fresh i j low (by omega))
        (fun i j less small => distinct i j less (by omega)) inside
    rw [transfer_range_succ]
    by_cases last : i = n
    · subst last
      rw [update_self]
      by_cases low : i < k
      · rw [Nat.mod_eq_of_lt low]
        apply transfer_apart
        intro j member
        have := List.mem_range.mp member
        exact fresh i j low (by omega)
      · -- what is read has been written, `k` elements ago
        have source : src i = dst (i - k) := by
          rw [← shift (i - k) (by omega), Nat.sub_add_cancel (by omega)]
        rw [source, before (i - k) (by omega), ← Nat.mod_eq_sub_mod (by omega)]
    · rw [update_of_ne (distinct i n (by omega) (by omega))]
      exact before i (by omega)

end Transfers
