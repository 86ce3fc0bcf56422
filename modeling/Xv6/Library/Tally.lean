import Xv6.Library.Sums

namespace Tally

open Function

variable {α β : Type} [Fintype α] [DecidableEq α] [DecidableEq β]

/-- How many places of `g` hold a value. -/
def tally (g : α → Option β) (b : β) : ℕ := ∑ a, if g a = some b then 1 else 0

def one (b : β) : β → ℕ := Pi.single b 1

variable {g : α → Option β} {a : α} {b c : β}

omit [DecidableEq α] in
theorem tally_eq_card (g : α → Option β) (b : β) : tally g b = (Finset.univ.filter fun a => g a = some b).card := by
  rw [tally, Finset.card_filter]

theorem one_apply (b c : β) : one b c = if some b = some c then 1 else 0 := by
  unfold one
  rw [Pi.single_apply]
  by_cases same : c = b
  · rw [if_pos same, if_pos (by rw [same])]
  · rw [if_neg same, if_neg fun eq => same (Option.some.inj eq).symm]

theorem one_self (b : β) : one b b = 1 := Pi.single_eq_same ..

theorem one_of_ne (ne : c ≠ b) : one b c = 0 := Pi.single_eq_of_ne ne ..

theorem add_one_eq (want : β → ℕ) (b : β) : want + one b = update want b (want b + 1) := by
  funext c
  by_cases same : c = b
  · subst same
    rw [update_self, Pi.add_apply, one_self]
  · rw [update_of_ne same, Pi.add_apply, one_of_ne same, Nat.add_zero]

theorem update_add_one (want : β → ℕ) (b : β) : update (want + one b) b (want b) = want := by
  rw [add_one_eq, update_idem, update_eq_self]

theorem tally_exchange (g : α → Option β) (a : α) (v : Option β) (b : β) :
    tally (update g a v) b + (if g a = some b then 1 else 0) = tally g b + if v = some b then 1 else 0 :=
  FiniteSums.sum_exchange Finset.univ g (fun _ o => if o = some b then 1 else 0) (Finset.mem_univ a) v

theorem tally_put (free : g a = none) (b : β) : tally (update g a (some b)) = tally g + one b := by
  funext c
  have exchange := tally_exchange g a (some b) c
  rw [free, if_neg nofun, ← one_apply] at exchange
  exact exchange

theorem tally_drop (here : g a = some b) : tally (update g a none) + one b = tally g := by
  funext c
  have exchange := tally_exchange g a none c
  rw [here, ← one_apply, if_neg nofun] at exchange
  exact exchange

section

omit [DecidableEq α]

theorem tally_none : tally (fun _ : α => (none : Option β)) = 0 := by
  funext b
  exact Finset.sum_eq_zero fun _ _ => if_neg nofun

theorem tally_pos (here : g a = some b) : 0 < tally g b := by
  have term := FiniteSums.term_le_sum (fun a => if g a = some b then 1 else 0) (Finset.mem_univ a)
  rw [if_pos here] at term
  exact term

theorem exists_of_tally_pos (positive : 0 < tally g b) : ∃ a, g a = some b := by
  obtain ⟨a, _, term⟩ := FiniteSums.exists_of_sum_pos positive
  by_contra none
  push Not at none
  rw [if_neg (none a)] at term
  exact Nat.lt_irrefl 0 term

theorem tally_row {γ : Type} [Fintype γ] {g g' : γ × α → Option β} {row : α → Option β} {x : γ} [DecidableEq γ]
    (others : ∀ y a, y ≠ x → g' (y, a) = g (y, a)) (here : ∀ a, g' (x, a) = row a) (empty : ∀ a, g (x, a) = none) :
    tally g' = tally g + tally row := by
  funext b
  have rows : ∀ h : γ × α → Option β, tally h b = ∑ y, tally (fun a => h (y, a)) b := by
    intro h
    exact Fintype.sum_prod_type fun x => if h x = some b then 1 else 0
  have update : (fun y a => g' (y, a)) = update (fun y a => g (y, a)) x row := by
    funext y a
    by_cases same : y = x
    · subst same
      rw [update_self]
      exact here a
    · rw [update_of_ne same]
      exact others y a same
  have exchange := FiniteSums.sum_exchange Finset.univ (fun y a => g (y, a)) (fun _ row => tally row b) (Finset.mem_univ x) row
  have none : tally (fun a => g (x, a)) b = 0 := by
    apply Finset.sum_eq_zero
    intro a _
    show (if g (x, a) = some b then 1 else 0) = 0
    rw [empty a, if_neg nofun]
  rw [← update, none, Nat.add_zero] at exchange
  rw [rows g', Pi.add_apply, rows g]
  exact exchange

end

end Tally
