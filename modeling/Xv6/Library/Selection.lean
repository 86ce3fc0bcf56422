import Mathlib.Order.Fin.Basic
import Mathlib.Data.List.FinRange
import Mathlib.Data.List.Induction
import Mathlib.Data.List.Sort

namespace Selection

section Best

variable {α κ : Type} [LinearOrder κ] (keep : α → Prop) [DecidablePred keep] (key : α → κ)

/-- One turn of the loop: a candidate replaces the one chosen so far only if its key is smaller. -/
def prefer (chosen : Option α) (p : α) : Option α :=
  if keep p then
    match chosen with
    | none => some p
    | some q => if key p < key q then some p else some q
  else chosen

/-- The loop that looks through a list for the element of smallest key. -/
def best (l : List α) : Option α := l.foldl (prefer keep key) none

theorem best_concat (l : List α) (p : α) : best keep key (l ++ [p]) = prefer keep key (best keep key l) p := by
  simp [best]

variable {keep key}

theorem prefer_none {chosen : Option α} {p : α} :
    prefer keep key chosen p = none ↔ chosen = none ∧ ¬ keep p := by
  unfold prefer
  by_cases kept : keep p
  · cases chosen with
    | none => simp [kept]
    | some q => by_cases less : key p < key q <;> simp [kept, less]
  · simp [kept]

theorem best_eq_none {l : List α} : best keep key l = none ↔ ∀ p ∈ l, ¬ keep p := by
  induction l using List.reverseRecOn with
  | nil => simp [best]
  | append_singleton l p ih =>
    rw [best_concat, prefer_none, ih]
    constructor
    · intro ⟨earlier, last⟩ q member
      cases List.mem_append.mp member with
      | inl inside => exact earlier q inside
      | inr new => exact (List.mem_singleton.mp new) ▸ last
    · intro all
      exact ⟨fun q inside => all q (by simp [inside]), all p (by simp)⟩

variable [LinearOrder α]

/-- `p` is kept, and every kept element of the list has a larger key or the same key and a later place. -/
structure IsBest (keep : α → Prop) (key : α → κ) (l : List α) (p : α) : Prop where
  kept : keep p
  least : ∀ q ∈ l, keep q → key p < key q ∨ key p = key q ∧ p ≤ q

omit [DecidablePred keep] in
theorem IsBest.key_le {l : List α} {p q : α} (chosen : IsBest keep key l p) (member : q ∈ l) (kept : keep q) :
    key p ≤ key q := by
  cases chosen.least q member kept with
  | inl less => exact less.le
  | inr same => exact same.1.le

theorem best_isBest {l : List α} {p : α} (sorted : l.Pairwise (· < ·)) (found : best keep key l = some p) :
    p ∈ l ∧ IsBest keep key l p := by
  induction l using List.reverseRecOn generalizing p with
  | nil => simp [best] at found
  | append_singleton l x ih =>
    obtain ⟨front, -, later⟩ := List.pairwise_append.mp sorted
    have after : ∀ q ∈ l, q < x := fun q member => later q member x (by simp)
    rw [best_concat] at found
    unfold prefer at found
    by_cases kept : keep x
    · cases chosen : best keep key l with
      | none =>
        simp only [kept, if_true, chosen, Option.some.injEq] at found
        subst found
        refine ⟨by simp, kept, fun q member keptq => ?_⟩
        cases List.mem_append.mp member with
        | inl inside => exact absurd keptq (best_eq_none.mp chosen q inside)
        | inr new => exact .inr ⟨by rw [List.mem_singleton.mp new], (List.mem_singleton.mp new).ge⟩
      | some y =>
        obtain ⟨inside, best⟩ := ih front chosen
        simp only [kept, if_true, chosen] at found
        by_cases less : key x < key y
        · simp only [less, if_true, Option.some.injEq] at found
          subst found
          refine ⟨by simp, kept, fun q member keptq => ?_⟩
          cases List.mem_append.mp member with
          | inl old => exact .inl (less.trans_le (best.key_le old keptq))
          | inr new => exact .inr ⟨by rw [List.mem_singleton.mp new], (List.mem_singleton.mp new).ge⟩
        · simp only [less, if_false, Option.some.injEq] at found
          subst found
          refine ⟨by simp [inside], best.kept, fun q member keptq => ?_⟩
          cases List.mem_append.mp member with
          | inl old => exact best.least q old keptq
          | inr new =>
            obtain rfl := List.mem_singleton.mp new
            cases (not_lt.mp less).lt_or_eq with
            | inl smaller => exact .inl smaller
            | inr same => exact .inr ⟨same, (after y inside).le⟩
    · simp only [kept, if_false] at found
      obtain ⟨inside, best⟩ := ih front found
      refine ⟨by simp [inside], best.kept, fun q member keptq => ?_⟩
      cases List.mem_append.mp member with
      | inl old => exact best.least q old keptq
      | inr new => exact absurd ((List.mem_singleton.mp new) ▸ keptq) kept

end Best

section Scan

variable {n : Nat}

/-- The first index from a given one on that satisfies `P`. -/
def firstFrom (start : Nat) (P : Fin n → Prop) [DecidablePred P] : Option (Fin n) :=
  Fin.find? (fun p => start ≤ p.val ∧ P p)

variable {P : Fin n → Prop} [DecidablePred P] {start : Nat} {p : Fin n}

theorem firstFrom_eq_some :
    firstFrom start P = some p ↔ (start ≤ p.val ∧ P p) ∧ ∀ q : Fin n, start ≤ q.val → q < p → ¬ P q := by
  rw [firstFrom, Fin.find?_eq_some_iff]
  simp only [decide_eq_true_eq, decide_eq_false_iff_not, not_and]
  exact and_congr_right fun _ => ⟨fun all q low less => all q less low, fun all q less low => all q low less⟩

theorem firstFrom_eq_none : firstFrom start P = none ↔ ∀ q : Fin n, start ≤ q.val → ¬ P q := by
  rw [firstFrom, Fin.find?_eq_none_iff]
  simp only [decide_eq_false_iff_not, not_and]

theorem mem_of_best {κ : Type} [LinearOrder κ] {key : Fin n → κ}
    (found : best P key (List.finRange n) = some p) : IsBest P key (List.finRange n) p :=
  (best_isBest (List.pairwise_lt_finRange n) found).2

theorem best_of_isBest {κ : Type} [LinearOrder κ] {key : Fin n → κ} (least : IsBest P key (List.finRange n) p) :
    best P key (List.finRange n) = some p := by
  cases chosen : best P key (List.finRange n) with
  | none => exact absurd least.kept (best_eq_none.mp chosen p (List.mem_finRange p))
  | some q =>
    have least' := mem_of_best chosen
    rcases least.least q (List.mem_finRange q) least'.kept with less | ⟨-, le⟩
    · exact absurd less (not_lt.mpr (least'.key_le (List.mem_finRange p) least.kept))
    · rcases least'.least p (List.mem_finRange p) least.kept with less | ⟨-, ge⟩
      · exact absurd less (not_lt.mpr (least.key_le (List.mem_finRange q) least'.kept))
      · rw [le_antisymm le ge]

theorem best_of_only {κ : Type} [LinearOrder κ] {key : Fin n → κ} (only : ∀ q, P q ↔ q = p) :
    best P key (List.finRange n) = some p :=
  best_of_isBest ⟨(only p).mpr rfl, fun q _ kept => by
    rw [(only q).mp kept]
    exact .inr ⟨rfl, le_rfl⟩⟩

end Scan

section Round

/-- How many places a scan at `cursor` passes before it comes to `x`, going round a table of `n`. -/
def distance (n cursor x : Nat) : Nat := if cursor ≤ x then x - cursor else n - cursor + x

/-- The scan moves on without passing `q`, or begins a new round once it has passed `q`. -/
def Advances (n q cursor cursor' : Nat) : Prop :=
  cursor' ≤ n ∧ (cursor ≤ cursor' ∧ (cursor ≤ q → cursor' ≤ q) ∨ cursor' = 0 ∧ q < cursor)

variable {n q x cursor cursor' : Nat}

theorem distance_ahead (ahead : cursor ≤ x) : distance n cursor x = x - cursor := if_pos ahead

theorem distance_behind (behind : x < cursor) : distance n cursor x = n - cursor + x := if_neg (not_le.mpr behind)

theorem distance_lt (inside : q < n) : distance n cursor q < n := by
  rcases Nat.lt_or_ge q cursor with behind | ahead
  · rw [distance_behind behind]
    omega
  · rw [distance_ahead ahead]
    omega

theorem Advances.refl (inside : cursor ≤ n) : Advances n q cursor cursor := ⟨inside, .inl ⟨le_rfl, id⟩⟩

theorem Advances.distance_le (advances : Advances n q cursor cursor') : distance n cursor' q ≤ distance n cursor q := by
  obtain ⟨bound, ⟨further, stops⟩ | ⟨rfl, behind⟩⟩ := advances
  · rcases Nat.lt_or_ge q cursor with behind | ahead
    · rw [distance_behind behind, distance_behind (behind.trans_le further)]
      omega
    · rw [distance_ahead ahead, distance_ahead (stops ahead)]
      omega
  · rw [distance_behind behind, distance_ahead (Nat.zero_le _)]
    omega

theorem Advances.distance_lt (advances : Advances n q cursor cursor') (inside : q < n) (inside' : x < n)
    (later : distance n cursor q < distance n cursor x) : distance n cursor' q < distance n cursor' x := by
  obtain ⟨bound, ⟨further, stops⟩ | ⟨rfl, behind⟩⟩ := advances
  · rcases Nat.lt_or_ge q cursor with behind | ahead
    · have after : x < cursor := by
        by_contra ahead
        rw [distance_behind behind, distance_ahead (not_lt.mp ahead)] at later
        omega
      rw [distance_behind behind, distance_behind after] at later
      rw [distance_behind (behind.trans_le further), distance_behind (after.trans_le further)]
      omega
    · rw [distance_ahead ahead] at later
      rw [distance_ahead (stops ahead)]
      have stop := stops ahead
      rcases Nat.lt_or_ge x cursor' with passed | coming
      · rw [distance_behind passed]
        omega
      · rw [distance_ahead (further.trans coming)] at later
        rw [distance_ahead coming]
        omega
  · have after : x < cursor := by
      by_contra ahead
      rw [distance_behind behind, distance_ahead (not_lt.mp ahead)] at later
      omega
    rw [distance_behind behind, distance_behind after] at later
    rw [distance_ahead (Nat.zero_le _), distance_ahead (Nat.zero_le _)]
    omega

theorem distance_succ (ne : cursor ≠ q) (inside : cursor < n) : distance n (cursor + 1) q + 1 = distance n cursor q := by
  rcases Nat.lt_or_ge q cursor with behind | ahead
  · rw [distance_behind behind, distance_behind (behind.trans (Nat.lt_succ_self _))]
    omega
  · rw [distance_ahead ahead, distance_ahead (by omega)]
    omega

end Round

end Selection
