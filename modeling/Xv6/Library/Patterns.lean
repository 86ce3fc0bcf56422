import Mathlib.Computability.Language

namespace Patterns

open Computability

variable {α : Type} {p : α → Prop} {M N : Language α} {a : α} {x rest : List α}

/-- The texts of one letter that `p` holds of. -/
def letter (p : α → Prop) : Language α := {x | ∃ a, p a ∧ x = [a]}

def anything : Language α := Set.univ

theorem nil_mem_letter_mul : ([] : List α) ∉ letter p * M := by
  intro member
  rcases Language.mem_mul.mp member with ⟨x, ⟨a, accepted, rfl⟩, y, inM, same⟩
  cases same

theorem cons_mem_letter_mul : a :: rest ∈ letter p * M ↔ p a ∧ rest ∈ M := by
  constructor
  · intro member
    rcases Language.mem_mul.mp member with ⟨x, ⟨b, accepted, rfl⟩, y, inM, same⟩
    rw [List.singleton_append, List.cons.injEq] at same
    rw [← same.1, ← same.2]
    exact ⟨accepted, inM⟩
  · intro both
    exact Language.mem_mul.mpr ⟨[a], ⟨a, both.1, rfl⟩, rest, both.2, rfl⟩

theorem star_mul (L M : Language α) : L∗ * M = M + L * (L∗ * M) := by
  calc
    L∗ * M = (1 + L * L∗) * M := by rw [Language.one_add_self_mul_kstar_eq_kstar]
    _ = M + L * (L∗ * M) := by rw [add_mul, one_mul, mul_assoc]

theorem nil_mem_star_mul : ([] : List α) ∈ (letter p)∗ * M ↔ [] ∈ M := by
  rw [star_mul, Language.mem_add]
  constructor
  · intro either
    rcases either with inM | more
    · exact inM
    · exact absurd more nil_mem_letter_mul
  · exact Or.inl

theorem cons_mem_star_mul :
    a :: rest ∈ (letter p)∗ * M ↔ a :: rest ∈ M ∨ p a ∧ rest ∈ (letter p)∗ * M := by
  conv_lhs => rw [star_mul, Language.mem_add, cons_mem_letter_mul]

theorem nil_mem_anything_mul : ([] : List α) ∈ anything * M ↔ [] ∈ M := by
  constructor
  · intro member
    rcases Language.mem_mul.mp member with ⟨x, -, y, inM, same⟩
    rw [List.append_eq_nil_iff] at same
    rw [same.2] at inM
    exact inM
  · intro inM
    exact Language.mem_mul.mpr ⟨[], trivial, [], inM, rfl⟩

theorem cons_mem_anything_mul : a :: rest ∈ anything * M ↔ a :: rest ∈ M ∨ rest ∈ anything * M := by
  constructor
  · intro member
    rcases Language.mem_mul.mp member with ⟨x, -, y, inM, same⟩
    cases x with
    | nil =>
      left
      rw [← same]
      exact inM
    | cons b front =>
      right
      rw [List.cons_append, List.cons.injEq] at same
      exact Language.mem_mul.mpr ⟨front, trivial, y, inM, same.2⟩
  · intro either
    rcases either with inM | later
    · exact Language.mem_mul.mpr ⟨[], trivial, a :: rest, inM, rfl⟩
    · rcases Language.mem_mul.mp later with ⟨x, -, y, inM, same⟩
      exact Language.mem_mul.mpr ⟨a :: x, trivial, y, inM, congrArg (a :: ·) same⟩

theorem mem_anything : x ∈ (anything : Language α) := trivial

end Patterns
