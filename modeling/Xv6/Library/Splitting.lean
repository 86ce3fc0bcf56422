import Mathlib.Data.List.Basic
import Mathlib.Algebra.Ring.Nat
import Mathlib.Tactic.Common

namespace Splitting

variable {α : Type} {p : α → Bool} {l : List α}

/-- The longest pieces of a list without a separator, in order, but no empty ones. -/
def pieces (p : α → Bool) (l : List α) : List (List α) := (l.splitOnP p).filter fun piece => !piece.isEmpty

theorem pieces_nil : pieces p [] = [] := by
  rw [pieces, List.splitOnP_nil]
  rfl

theorem pieces_cons_pos {a : α} (separates : p a = true) : pieces p (a :: l) = pieces p l := by
  rw [pieces, List.splitOnP_cons_eq_if_modifyHead, if_pos separates]
  rfl

theorem pieces_dropWhile (p : α → Bool) (l : List α) : pieces p (l.dropWhile p) = pieces p l := by
  induction l with
  | nil => rfl
  | cons a rest ih =>
    cases separates : p a
    · rw [List.dropWhile_cons_of_neg (Bool.eq_false_iff.mp separates)]
    · rw [List.dropWhile_cons_of_pos separates, ih, pieces_cons_pos separates]

theorem pieces_append {piece rest : List α} (nonempty : piece ≠ []) (inner : ∀ a ∈ piece, p a = false)
    (ends : ∀ a, rest.head? = some a → p a = true) : pieces p (piece ++ rest) = piece :: pieces p rest := by
  have kept : (!piece.isEmpty) = true := by
    rw [Bool.not_eq_true', List.isEmpty_eq_false_iff]
    exact nonempty
  cases rest with
  | nil =>
    rw [List.append_nil, pieces, List.splitOnP_eq_singleton inner, pieces_nil, List.filter_cons, if_pos kept]
    rfl
  | cons a rest =>
    have separates : p a = true := ends a rfl
    rw [pieces_cons_pos separates, pieces, List.splitOnP_append_cons_of_forall_mem inner a separates,
      List.filter_cons, if_pos kept]
    rfl

theorem dropWhile_head {a : α} (head : (l.dropWhile p).head? = some a) : p a = false := by
  have remains : l.dropWhile p ≠ [] := by
    intro none
    rw [none] at head
    cases head
  have stops := List.head_dropWhile_not p remains
  rw [List.head?_eq_some_head remains, Option.some.injEq] at head
  rwa [head] at stops

theorem pieces_step (start : ∀ a, l.head? = some a → p a = false) (nonempty : l ≠ []) :
    pieces p l = l.takeWhile (fun a => !p a) :: pieces p ((l.dropWhile fun a => !p a).dropWhile p) := by
  have whole : l.takeWhile (fun a => !p a) ++ l.dropWhile (fun a => !p a) = l := List.takeWhile_append_dropWhile
  have inner : ∀ a ∈ l.takeWhile (fun a => !p a), p a = false := by
    intro a member
    have holds := List.all_eq_true.mp List.all_takeWhile a member
    simpa using holds
  have first : l.takeWhile (fun a => !p a) ≠ [] := by
    cases l with
    | nil => exact absurd rfl nonempty
    | cons a rest =>
      have low := start a rfl
      rw [List.takeWhile_cons_of_pos (by simp [low])]
      exact List.cons_ne_nil _ _
  have ends : ∀ a, (l.dropWhile fun a => !p a).head? = some a → p a = true := by
    intro a head
    simpa using dropWhile_head head
  rw [pieces_dropWhile, ← pieces_append first inner ends, whole]

def terminated (p : α → Bool) (l : List α) : List (List α) := (l.splitOnP p).dropLast

theorem terminated_of_none (none : ∀ a ∈ l, p a = false) : terminated p l = [] := by
  rw [terminated, List.splitOnP_eq_singleton none]
  rfl

theorem terminated_append {piece rest : List α} {a : α} (inner : ∀ a ∈ piece, p a = false) (separates : p a = true) :
    terminated p (piece ++ a :: rest) = piece :: terminated p rest := by
  rw [terminated, List.splitOnP_append_cons_of_forall_mem inner a separates,
    List.dropLast_cons_of_ne_nil (List.splitOnP_ne_nil p rest)]
  rfl

theorem first_separator (p : α → Bool) (l : List α) :
    (∀ a ∈ l, p a = false) ∨
      ∃ piece a rest, l = piece ++ a :: rest ∧ p a = true ∧ ∀ a ∈ piece, p a = false := by
  have whole : l.takeWhile (fun a => !p a) ++ l.dropWhile (fun a => !p a) = l := List.takeWhile_append_dropWhile
  have inner : ∀ a ∈ l.takeWhile (fun a => !p a), p a = false := by
    intro a member
    simpa using List.all_eq_true.mp List.all_takeWhile a member
  cases remains : l.dropWhile (fun a => !p a) with
  | nil =>
    left
    rw [remains, List.append_nil] at whole
    rw [← whole]
    exact inner
  | cons a rest =>
    right
    have head : (l.dropWhile fun a => !p a).head? = some a := by rw [remains]; rfl
    have separates : p a = true := by simpa using dropWhile_head head
    rw [remains] at whole
    exact ⟨_, a, rest, whole.symm, separates, inner⟩

end Splitting
