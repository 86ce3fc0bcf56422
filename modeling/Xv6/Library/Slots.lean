import Mathlib.Data.Option.Basic
import Mathlib.Tactic.Common

namespace Slots

variable {κ ν : Type} {e e' : Nat → Option (κ × ν)} {n i j : Nat} {key other : κ} {v w : ν}

/-- No two of the first `n` slots hold the same key. -/
def Distinct (e : Nat → Option (κ × ν)) (n : Nat) : Prop :=
  ∀ i j key v w, i < n → j < n → e i = some (key, v) → e j = some (key, w) → i = j

/-- A key goes into an empty slot, or into a new one behind the last. -/
structure Put (e : Nat → Option (κ × ν)) (n i : Nat) (key : κ) (v : ν) (e' : Nat → Option (κ × ν)) : Prop where
  place : i ≤ n
  empty : i < n → e i = none
  here : e' i = some (key, v)
  others : ∀ j, j < n → j ≠ i → e' j = e j

structure Clear (e : Nat → Option (κ × ν)) (n i : Nat) (e' : Nat → Option (κ × ν)) : Prop where
  here : e' i = none
  others : ∀ j, j < n → j ≠ i → e' j = e j

section

variable [DecidableEq κ]

/-- The place and the value of a key: those of the first slot that holds it. -/
def lookup (e : Nat → Option (κ × ν)) (key : κ) : Nat → Option (Nat × ν)
  | 0 => none
  | n + 1 => (lookup e key n).or ((e n).bind fun (k, v) => if k = key then some (n, v) else none)

theorem lookup_eq_none : lookup e key n = none ↔ ∀ j, j < n → ∀ v, e j ≠ some (key, v) := by
  induction n with
  | zero => exact ⟨fun _ j low => absurd low (Nat.not_lt_zero j), fun _ => rfl⟩
  | succ n ih =>
    rw [lookup, Option.or_eq_none_iff, ih, Option.bind_eq_none_iff]
    constructor
    · rintro ⟨before, last⟩ j low v here
      rcases Nat.lt_succ_iff_lt_or_eq.mp low with early | rfl
      · exact before j early v here
      · have fails := last _ here
        simp at fails
    · intro all
      refine ⟨fun j low => all j (Nat.lt_succ_of_lt low), ?_⟩
      rintro ⟨k, v⟩ here
      apply if_neg
      rintro rfl
      exact all n (Nat.lt_succ_self n) v here

theorem lookup_eq_some (found : lookup e key n = some (j, v)) :
    j < n ∧ e j = some (key, v) ∧ ∀ i, i < j → ∀ w, e i ≠ some (key, w) := by
  induction n with
  | zero => cases found
  | succ n ih =>
    rw [lookup, Option.or_eq_some_iff] at found
    rcases found with early | ⟨before, last⟩
    · obtain ⟨low, here, first⟩ := ih early
      exact ⟨Nat.lt_succ_of_lt low, here, first⟩
    · obtain ⟨⟨k, u⟩, here, chosen⟩ := Option.bind_eq_some_iff.mp last
      dsimp only at chosen
      split at chosen
      · rename_i same
        cases chosen
        exact ⟨Nat.lt_succ_self _, same ▸ here, lookup_eq_none.mp before⟩
      · cases chosen

theorem Distinct.lookup (distinct : Distinct e n) : lookup e key n = some (j, v) ↔ j < n ∧ e j = some (key, v) := by
  constructor
  · intro found
    exact ⟨(lookup_eq_some found).1, (lookup_eq_some found).2.1⟩
  · rintro ⟨low, here⟩
    cases found : Slots.lookup e key n with
    | none => exact absurd here (lookup_eq_none.mp found j low v)
    | some r =>
      obtain ⟨low', here', -⟩ := lookup_eq_some (j := r.1) (v := r.2) found
      obtain rfl := distinct _ _ _ _ _ low low' here here'
      rw [here] at here'
      cases here'
      rfl

end

namespace Put

theorem cases (put : Put e n i key v e') (low : j < max n (i + 1)) : j = i ∨ j ≠ i ∧ j < n := by
  have := put.place
  omega

theorem holds (put : Put e n i key v e') (ne : other ≠ key) :
    j < max n (i + 1) ∧ e' j = some (other, w) ↔ j < n ∧ e j = some (other, w) := by
  constructor
  · rintro ⟨low, here⟩
    rcases put.cases low with rfl | ⟨away, low⟩
    · rw [put.here] at here
      cases here
      exact absurd rfl ne
    · exact ⟨low, put.others j low away ▸ here⟩
  · rintro ⟨low, here⟩
    have away : j ≠ i := by
      rintro rfl
      rw [put.empty low] at here
      cases here
    exact ⟨Nat.lt_of_lt_of_le low (Nat.le_max_left ..), (put.others j low away).trans here⟩

variable [DecidableEq κ]

theorem distinct (put : Put e n i key v e') (before : Distinct e n) (absent : lookup e key n = none) :
    Distinct e' (max n (i + 1)) := by
  have single : ∀ j w, j < max n (i + 1) → e' j = some (key, w) → j = i := by
    intro j w low here
    rcases put.cases low with same | ⟨away, low⟩
    · exact same
    · rw [put.others j low away] at here
      exact absurd here (lookup_eq_none.mp absent j low w)
  intro a b k x y low low' here here'
  by_cases same : k = key
  · subst same
    exact (single a x low here).trans (single b y low' here').symm
  · have first := (put.holds same).mp ⟨low, here⟩
    have second := (put.holds same).mp ⟨low', here'⟩
    exact before _ _ _ _ _ first.1 second.1 first.2 second.2

end Put

namespace Clear

theorem holds (clear : Clear e n i e') : j < n ∧ e' j = some (other, w) ↔ j ≠ i ∧ j < n ∧ e j = some (other, w) := by
  constructor
  · rintro ⟨low, here⟩
    have away : j ≠ i := by
      rintro rfl
      rw [clear.here] at here
      cases here
    exact ⟨away, low, clear.others j low away ▸ here⟩
  · rintro ⟨away, low, here⟩
    exact ⟨low, (clear.others j low away).trans here⟩

theorem distinct (clear : Clear e n i e') (before : Distinct e n) : Distinct e' n := by
  intro a b k x y low low' here here'
  have first := clear.holds.mp ⟨low, here⟩
  have second := clear.holds.mp ⟨low', here'⟩
  exact before _ _ _ _ _ first.2.1 second.2.1 first.2.2 second.2.2

variable [DecidableEq κ]

end Clear

end Slots
