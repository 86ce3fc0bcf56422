import Mathlib.Algebra.BigOperators.Fin
import Mathlib.Algebra.BigOperators.Group.Finset.Piecewise
import Mathlib.Algebra.Order.BigOperators.Group.Finset
import Mathlib.Data.Finset.Card
import Mathlib.Data.Finset.Image

namespace FiniteSums

open Finset Function

/-- Replacing one summand's index value trades the old term for the new one. -/
theorem sum_exchange {ι α M : Type} [DecidableEq ι] [AddCommMonoid M] (s : Finset ι) (values : ι → α)
    (term : ι → α → M) {i : ι} (member : i ∈ s) (v : α) :
    ∑ j ∈ s, term j (update values i v j) + term i (values i) = ∑ j ∈ s, term j (values j) + term i v := by
  rw [← add_sum_erase s _ member, ← add_sum_erase s (fun j => term j (values j)) member]
  have rest : ∑ j ∈ s.erase i, term j (update values i v j) = ∑ j ∈ s.erase i, term j (values j) := by
    apply sum_congr rfl
    intro j inside
    rw [update_of_ne (ne_of_mem_erase inside)]
  rw [rest, update_self]
  simp only [add_comm, add_left_comm]

theorem sum_exchange_outside {ι α M : Type} [DecidableEq ι] [AddCommMonoid M] (s : Finset ι) (values : ι → α)
    (term : ι → α → M) {i : ι} (outside : i ∉ s) (v : α) :
    ∑ j ∈ s, term j (update values i v j) = ∑ j ∈ s, term j (values j) := by
  apply sum_congr rfl
  intro j member
  rw [update_of_ne (ne_of_mem_of_not_mem member outside)]

theorem term_le_sum {ι : Type} {s : Finset ι} (term : ι → ℕ) {i : ι} (member : i ∈ s) :
    term i ≤ ∑ j ∈ s, term j := single_le_sum (fun _ _ => Nat.zero_le _) member

theorem pair_le_sum {ι : Type} [DecidableEq ι] {s : Finset ι} (term : ι → ℕ) {i j : ι} (different : i ≠ j)
    (hi : i ∈ s) (hj : j ∈ s) : term i + term j ≤ ∑ k ∈ s, term k := by
  rw [← sum_pair different]
  apply sum_le_sum_of_subset
  intro k member
  rcases mem_insert.mp member with rfl | member
  · exact hi
  · exact (mem_singleton.mp member) ▸ hj

theorem exists_of_sum_pos {ι : Type} {s : Finset ι} {term : ι → ℕ} (positive : 0 < ∑ j ∈ s, term j) :
    ∃ i ∈ s, 0 < term i := by
  by_contra none
  push Not at none
  have zero : ∑ j ∈ s, term j = 0 := sum_eq_zero (fun j member => Nat.le_zero.mp (none j member))
  omega

/-- Terms bounded by a share of others, except one that takes nothing, leave that one's share over. -/
theorem double_sum_add_le {ι : Type} [Fintype ι] [DecidableEq ι] {small large : ι → ℕ}
    (bound : ∀ j, 2 * small j ≤ large j) {i : ι} (zero : small i = 0) :
    2 * ∑ j, small j + large i ≤ ∑ j, large j := by
  rw [← add_sum_erase univ large (mem_univ i), ← add_sum_erase univ small (mem_univ i), zero, zero_add,
    mul_sum]
  have rest : ∑ j ∈ univ.erase i, 2 * small j ≤ ∑ j ∈ univ.erase i, large j :=
    sum_le_sum (fun j _ => bound j)
  omega

end FiniteSums

namespace Counting

open Finset

variable {α β : Type} [DecidableEq β]

theorem length_eq_card {l : List β} (nodup : l.Nodup) {s : Finset β} (same : ∀ f, f ∈ l ↔ f ∈ s) : l.length = s.card := by
  rw [← List.toFinset_card_of_nodup nodup]
  congr 1
  ext f
  rw [List.mem_toFinset, same]

theorem card_union_image (K : Finset β) (V : Finset α) {place : α → β} (apart : Set.InjOn place V) :
    (K ∪ V.image place).card = K.card + (V.filter fun v => place v ∉ K).card := by
  have rest : V.image place \ K = (V.filter fun v => place v ∉ K).image place := by
    ext f
    simp only [mem_sdiff, mem_image, mem_filter]
    constructor
    · rintro ⟨⟨v, inside, rfl⟩, other⟩
      exact ⟨v, ⟨inside, other⟩, rfl⟩
    · rintro ⟨v, ⟨inside, other⟩, rfl⟩
      exact ⟨⟨v, inside, rfl⟩, other⟩
  have apart' : Set.InjOn place (V.filter fun v => place v ∉ K) := apart.mono (coe_subset.mpr (filter_subset _ _))
  rw [union_comm, ← card_sdiff_add_card, rest, card_image_of_injOn apart', Nat.add_comm]

theorem card_moved [DecidableEq α] (K : Finset β) (V : Finset α) {place place' : α → β} (apart : Set.InjOn place V)
    (apart' : Set.InjOn place' V) (kept : ∀ v ∈ V, place' v = place v ∨ place' v ∉ K) :
    (K ∪ V.image place').card = (K ∪ V.image place).card + (V.filter fun v => place v ∈ K ∧ place' v ≠ place v).card := by
  have split : (V.filter fun v => place' v ∉ K) =
      (V.filter fun v => place v ∉ K) ∪ V.filter fun v => place v ∈ K ∧ place' v ≠ place v := by
    ext v
    simp only [mem_filter, mem_union]
    constructor
    · rintro ⟨inside, other⟩
      by_cases here : place v ∈ K
      · exact .inr ⟨inside, here, fun same => other (same ▸ here)⟩
      · exact .inl ⟨inside, here⟩
    · rintro (⟨inside, other⟩ | ⟨inside, here, moved⟩)
      · rcases kept v inside with same | away
        · exact ⟨inside, same ▸ other⟩
        · exact ⟨inside, away⟩
      · exact ⟨inside, (kept v inside).resolve_left moved⟩
  have disjoint : Disjoint (V.filter fun v => place v ∉ K) (V.filter fun v => place v ∈ K ∧ place' v ≠ place v) :=
    disjoint_filter.mpr fun v _ other here => other here.1
  rw [card_union_image K V apart', card_union_image K V apart, split, card_union_of_disjoint disjoint, Nat.add_assoc]

end Counting
