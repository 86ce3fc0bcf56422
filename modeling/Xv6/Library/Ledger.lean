import Xv6.Library.Sums

namespace Ledger

open Function FiniteSums

/-- What a holder may have on a counted object: a reading or a writing reference, ownership, a reference
    made whose count is still to come, a reference dropped whose count is still to go. -/
inductive Kind where
  | reader
  | writer
  | owner
  | uncounted
  | dropped
  deriving DecidableEq

abbrev Tally (F : Type) := Kind → F → ℕ

def unit {F : Type} [DecidableEq F] (k : Kind) (f : F) : Tally F :=
  fun k' f' => if k' = k ∧ f' = f then 1 else 0

/-- The references on `f`, counted or not. -/
def held {F : Type} (tally : Tally F) (f : F) : ℕ := tally .reader f + tally .writer f + tally .owner f

/-- One holder's side: its tally, the objects it knows itself alone on, and the contents it expects. -/
structure Account (F C : Type) where
  tally : Tally F
  claim : F → Prop
  seen : F → C

structure Pool (F C : Type) where
  free : List F
  count : F → ℕ
  content : F → C

variable {F C ι : Type} [Fintype ι]

def total (acc : ι → Account F C) (k : Kind) (f : F) : ℕ := ∑ t, (acc t).tally k f

def totalHeld (acc : ι → Account F C) (f : F) : ℕ :=
  total acc .reader f + total acc .writer f + total acc .owner f

/-- The counts of the pool agree with the accounts. A count may lag behind its references only by two
    references of one holder for each one uncounted, and whoever can write is alone. -/
structure Balanced (managed : F → Prop) (pool : Pool F C) (acc : ι → Account F C) : Prop where
  nodup : pool.free.Nodup
  free_managed : ∀ f ∈ pool.free, managed f
  free_count : ∀ f ∈ pool.free, pool.count f = 0
  balance : ∀ f, pool.count f + total acc .uncounted f = totalHeld acc f + total acc .dropped f
  lag : ∀ t f, 2 * (acc t).tally .uncounted f ≤ (acc t).tally .reader f
  alone : ∀ t f, 0 < (acc t).tally .writer f ∨ 0 < (acc t).tally .owner f ∨ (acc t).claim f →
    totalHeld acc f = 1
  claimed : ∀ t f, (acc t).claim f → 0 < held (acc t).tally f
  seen : ∀ t f, 0 < held (acc t).tally f → (acc t).seen f = pool.content f
  managed : ∀ t f, 0 < held (acc t).tally f → managed f

theorem tally_le_total (acc : ι → Account F C) (t : ι) (k : Kind) (f : F) :
    (acc t).tally k f ≤ total acc k f :=
  term_le_sum (fun u => (acc u).tally k f) (Finset.mem_univ t)

theorem held_le_total (acc : ι → Account F C) (t : ι) (f : F) : held (acc t).tally f ≤ totalHeld acc f := by
  have reader := tally_le_total acc t .reader f
  have writer := tally_le_total acc t .writer f
  have owner := tally_le_total acc t .owner f
  unfold held totalHeld
  omega

theorem totalHeld_eq_sum (acc : ι → Account F C) (f : F) : totalHeld acc f = ∑ t, held (acc t).tally f := by
  simp only [totalHeld, total, held, Finset.sum_add_distrib]

namespace Balanced

variable {managed : F → Prop} {pool : Pool F C} {acc : ι → Account F C}

theorem uncounted_le (h : Balanced managed pool acc) (f : F) :
    2 * total acc .uncounted f ≤ total acc .reader f := by
  unfold total
  rw [Finset.mul_sum]
  exact Finset.sum_le_sum (fun t _ => h.lag t f)

theorem zero_of_count_zero (h : Balanced managed pool acc) {f : F} (zero : pool.count f = 0) :
    totalHeld acc f = 0 ∧ total acc .uncounted f = 0 ∧ total acc .dropped f = 0 := by
  have balance := h.balance f
  have lag := h.uncounted_le f
  unfold totalHeld at balance ⊢
  omega

theorem free_zero (h : Balanced managed pool acc) {f : F} (member : f ∈ pool.free) (t : ι) (k : Kind) :
    (acc t).tally k f = 0 := by
  have zero := h.zero_of_count_zero (h.free_count f member)
  have bound := tally_le_total acc t k f
  unfold totalHeld at zero
  cases k <;> omega

theorem count_pos (h : Balanced managed pool acc) {t : ι} {f : F} (holds : 0 < held (acc t).tally f) :
    0 < pool.count f := by
  have bound := held_le_total acc t f
  rcases Nat.eq_zero_or_pos (pool.count f) with zero | positive
  · have none := h.zero_of_count_zero zero
    omega
  · exact positive

theorem count_pos_of_dropped (h : Balanced managed pool acc) {t : ι} {f : F}
    (drops : 0 < (acc t).tally .dropped f) : 0 < pool.count f := by
  have bound := tally_le_total acc t .dropped f
  rcases Nat.eq_zero_or_pos (pool.count f) with zero | positive
  · have none := h.zero_of_count_zero zero
    omega
  · exact positive

theorem not_free (h : Balanced managed pool acc) {t : ι} {f : F} (holds : 0 < held (acc t).tally f) :
    f ∉ pool.free := by
  intro member
  have positive := h.count_pos holds
  have zero := h.free_count f member
  omega

end Balanced

variable [DecidableEq ι]

theorem two_held_le_total (acc : ι → Account F C) {t u : ι} (different : t ≠ u) (f : F) :
    held (acc t).tally f + held (acc u).tally f ≤ totalHeld acc f := by
  have pair : ∑ v ∈ {t, u}, held (acc v).tally f ≤ ∑ v, held (acc v).tally f :=
    Finset.sum_le_sum_of_subset (Finset.subset_univ _)
  rw [Finset.sum_pair different] at pair
  rwa [totalHeld_eq_sum]

theorem other_held_zero {acc : ι → Account F C} {t u : ι} {f : F} (different : t ≠ u)
    (holds : 0 < held (acc t).tally f) (only : totalHeld acc f = 1) : held (acc u).tally f = 0 := by
  have both := two_held_le_total acc different f
  omega

theorem total_update (acc : ι → Account F C) (t : ι) (b : Account F C) (k : Kind) (f : F) :
    total (update acc t b) k f + (acc t).tally k f = total acc k f + b.tally k f :=
  sum_exchange Finset.univ acc (fun _ a => a.tally k f) (Finset.mem_univ t) b

theorem totalHeld_update (acc : ι → Account F C) (t : ι) (b : Account F C) (f : F) :
    totalHeld (update acc t b) f + held (acc t).tally f = totalHeld acc f + held b.tally f := by
  have reader := total_update acc t b .reader f
  have writer := total_update acc t b .writer f
  have owner := total_update acc t b .owner f
  unfold held totalHeld
  omega

namespace Balanced

variable {managed : F → Prop} {pool : Pool F C} {acc : ι → Account F C}

/-- A holder that owes no count and reads a count of one is the only holder. -/
theorem alone_of_count_one (h : Balanced managed pool acc) {t : ι} {f : F}
    (holds : 0 < held (acc t).tally f) (settled : (acc t).tally .uncounted f = 0)
    (one : pool.count f = 1) : totalHeld acc f = 1 := by
  have balance := h.balance f
  have lag : 2 * total acc .uncounted f + (acc t).tally .reader f ≤ total acc .reader f :=
    double_sum_add_le (fun u => h.lag u f) settled
  have writer := tally_le_total acc t .writer f
  have owner := tally_le_total acc t .owner f
  unfold held at holds
  unfold totalHeld at balance ⊢
  omega

end Balanced

/-- What one holder may do at once: `b` is its account and `pool'` the pool afterwards. New references
    only go to objects it had already or nobody had, and contents change only where nobody else looks. -/
structure Move (managed : F → Prop) (pool pool' : Pool F C) (acc : ι → Account F C) (t : ι)
    (b : Account F C) : Prop where
  nodup : pool'.free.Nodup
  free_managed : ∀ f ∈ pool'.free, managed f
  free_count : ∀ f ∈ pool'.free, pool'.count f = 0
  books : ∀ f,
    pool'.count f + total (update acc t b) .uncounted f =
      totalHeld (update acc t b) f + total (update acc t b) .dropped f ∧
    2 * b.tally .uncounted f ≤ b.tally .reader f ∧
    (0 < b.tally .writer f ∨ 0 < b.tally .owner f → totalHeld (update acc t b) f = 1) ∧
    (0 < held b.tally f → 0 < held (acc t).tally f ∨ totalHeld acc f = 0)
  claims : ∀ f, b.claim f → totalHeld (update acc t b) f = 1 ∧ 0 < held b.tally f
  private_content : ∀ f, pool'.content f ≠ pool.content f → totalHeld acc f = held (acc t).tally f
  seen : ∀ f, 0 < held b.tally f → b.seen f = pool'.content f
  managed : ∀ f, 0 < held b.tally f → managed f

variable {managed : F → Prop} {pool pool' : Pool F C} {acc : ι → Account F C} {t : ι} {b : Account F C}

theorem Balanced.move (h : Balanced managed pool acc) (m : Move managed pool pool' acc t b) :
    Balanced managed pool' (update acc t b) where
  nodup := m.nodup
  free_managed := m.free_managed
  free_count := m.free_count
  balance f := (m.books f).1
  lag u f := by
    rcases eq_or_ne u t with rfl | other
    · simpa using (m.books f).2.1
    · simpa [other] using h.lag u f
  alone u f exclusive := by
    rcases eq_or_ne u t with rfl | other
    · simp only [update_self] at exclusive
      rcases exclusive with writer | owner | claim
      · exact (m.books f).2.2.1 (.inl writer)
      · exact (m.books f).2.2.1 (.inr owner)
      · exact (m.claims f claim).1
    · simp only [update_of_ne other] at exclusive
      have only := h.alone u f exclusive
      have holds : 0 < held (acc u).tally f := by
        rcases exclusive with writer | owner | claim
        · unfold held; omega
        · unfold held; omega
        · exact h.claimed u f claim
      have none := other_held_zero other holds only
      have change := totalHeld_update acc t b f
      have grows := (m.books f).2.2.2
      omega
  claimed u f claim := by
    rcases eq_or_ne u t with rfl | other
    · simp only [update_self] at claim ⊢
      exact (m.claims f claim).2
    · simpa [other] using h.claimed u f (by simpa [other] using claim)
  seen u f holds := by
    rcases eq_or_ne u t with rfl | other
    · simpa using m.seen f (by simpa using holds)
    · simp only [update_of_ne other] at holds ⊢
      rw [h.seen u f holds]
      by_contra changed
      have mine := m.private_content f (fun same => changed same.symm)
      have both := two_held_le_total acc other f
      omega
  managed u f holds := by
    rcases eq_or_ne u t with rfl | other
    · exact m.managed f (by simpa using holds)
    · exact h.managed u f (by simpa [other] using holds)

end Ledger
