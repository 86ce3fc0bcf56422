import Mathlib.Algebra.Ring.Nat
import Xv6.Sched.Bounds

open Selection Transition

namespace Xv6.Sched.MLFQ

/-- What the pass indexes `queues` with lies in it; `inBounds` shows it of every reachable table. -/
def Indexed (t : Table) : Prop := ∀ k, t.Runnable k → (t k).queue.toNat < 5

def Worked (ticks : Word) (t : Table) : Prop := ∀ k, t.Runnable k → (t k).lastWorkingticks.toNat ≤ ticks.toNat

/-- The process has waited more ticks than its queue allows. -/
def Overdue (ticks : Word) (p : Proc) : Prop :=
  0 < p.queue.toNat ∧ (qMaxTime p.queue.toNat).toNat < ticks.toNat - p.lastWorkingticks.toNat

/-- The order within queue `i`: the time of creation, in the last queue the time at which a process last worked. -/
def rank (i : Nat) (p : Proc) : Int := if i = 4 then p.lastWorkingticks.toInt else p.ctime.toInt

variable {t : Table} {ticks : Word} {k : Slot}

theorem aged_state (p : Proc) (ticks : Word) : (aged p ticks).state = p.state := (aged_books p ticks).state

theorem runnable_age : (age t ticks).Runnable k ↔ t.Runnable k := by
  unfold Table.Runnable age
  rw [aged_state]

/-- Where the unsigned difference does not wrap, the test of the first loop is the one on the waiting time. -/
theorem aged_of_runnable (runnable : t.Runnable k) (queued : Indexed t) (worked : Worked ticks t) :
    (Overdue ticks (t k) → age t ticks k = { t k with queue := (t k).queue - 1, lastWorkingticks := ticks }) ∧
      (¬Overdue ticks (t k) → age t ticks k = t k) := by
  have low := queued k runnable
  have past := worked k runnable
  have int : (t k).queue.toInt = (t k).queue.toNat := BitVec.toInt_eq_toNat_of_lt (by omega)
  have waited : (ticks - (t k).lastWorkingticks).toNat = ticks.toNat - (t k).lastWorkingticks.toNat :=
    BitVec.toNat_sub_of_le (BitVec.le_def.mpr past)
  have test : (t k).state = .runnable ∧ 0 < (t k).queue.toInt ∧
      qMaxTime (t k).queue.toNat < ticks - (t k).lastWorkingticks ↔ Overdue ticks (t k) := by
    unfold Overdue
    rw [int, BitVec.lt_def, waited]
    constructor
    · rintro ⟨-, above, late⟩
      exact ⟨by omega, late⟩
    · rintro ⟨above, late⟩
      exact ⟨runnable, by omega, late⟩
  constructor
  · intro overdue
    exact if_pos (test.mpr overdue)
  · intro intime
    exact if_neg fun late => intime (test.mp late)

theorem indexed_age (queued : Indexed t) (worked : Worked ticks t) : Indexed (age t ticks) := by
  intro k runnable
  have before := runnable_age.mp runnable
  have low := queued k before
  by_cases overdue : Overdue ticks (t k)
  · rw [(aged_of_runnable before queued worked).1 overdue]
    have above := overdue.1
    show ((t k).queue - 1).toNat < 5
    bv_omega
  · rw [(aged_of_runnable before queued worked).2 overdue]
    exact low

theorem select_none {a : Table} (queued : Indexed a) (none : select a = none) : ∀ k, ¬a.Runnable k := by
  intro k runnable
  have all := List.findSome?_eq_none_iff.mp none
  have low := queued k runnable
  have member : (a k).queue.toNat ∈ [0, 1, 2, 3, 4] := by
    simp only [List.mem_cons, List.not_mem_nil, or_false]
    omega
  have empty := Option.map_eq_none_iff.mp (all _ member)
  exact best_eq_none.mp empty k (List.mem_finRange k) ⟨runnable, rfl⟩

theorem select_first {a : Table} {f : Frame} (found : select a = some f) {j : Nat} (above : j < f.i) :
    queues a j = none := by
  have small := (select_eq_some found).2
  obtain ⟨before, i, after, split, chosen, empty⟩ := List.findSome?_eq_some_iff.mp found
  obtain ⟨p, -, rfl⟩ := Option.map_eq_some_iff.mp chosen
  dsimp only at above small
  have sorted : (before ++ i :: after).Pairwise (· < ·) := split ▸ (by decide)
  have member : j ∈ before ++ i :: after := by
    rw [← split]
    simp only [List.mem_cons, List.not_mem_nil, or_false]
    omega
  rcases List.mem_append.mp member with early | late
  · exact Option.map_eq_none_iff.mp (empty j early)
  · rcases List.mem_cons.mp late with rfl | later
    · exact absurd above (Nat.lt_irrefl _)
    · have order := (List.pairwise_cons.mp (List.pairwise_append.mp sorted).2.1).1 j later
      omega

/-- The chosen process is in the first queue that is not empty, and there the least in rank and then in place. -/
theorem select_least {a : Table} {f : Frame} (found : select a = some f) {k : Slot} (runnable : a.Runnable k) :
    (a f.p).queue.toNat ≤ (a k).queue.toNat ∧
      ((a k).queue = (a f.p).queue → rank (a f.p).queue.toNat (a f.p) < rank (a f.p).queue.toNat (a k) ∨
        rank (a f.p).queue.toNat (a f.p) = rank (a f.p).queue.toNat (a k) ∧ f.p ≤ k) := by
  have chosen := (select_eq_some found).1
  obtain ⟨-, place⟩ := queues_eq_some chosen
  constructor
  · by_contra above
    rw [place] at above
    have empty := select_first found (Nat.lt_of_not_le above)
    exact best_eq_none.mp empty k (List.mem_finRange k) ⟨runnable, rfl⟩
  · intro same
    rw [place]
    exact (mem_of_best chosen).least k (List.mem_finRange k) ⟨runnable, by rw [same, place]⟩

/-- What is left of the pass up to its choice changes only the counters of the chosen process. -/
theorem start_eq_age (ticks : Word) (t : Table) (k : Slot) :
    ((start ticks t).1 k).queue = (age t ticks k).queue ∧
      ∀ i, rank i ((start ticks t).1 k) = rank i (age t ticks k) := by
  unfold start
  cases select (age t ticks) with
  | none => exact ⟨rfl, fun _ => rfl⟩
  | some f =>
    by_cases same : k = f.p
    · rw [same]
      dsimp only
      rw [Table.modify_self]
      exact ⟨rfl, fun _ => rfl⟩
    · dsimp only
      rw [Table.modify_of_ne _ _ same]
      exact ⟨rfl, fun _ => rfl⟩

theorem start_isSome (indexed : Indexed t) (worked : Worked ticks t) :
    (start ticks t).2.isSome ↔ ∃ k, t.Runnable k := by
  constructor
  · intro picks
    obtain ⟨f, picked⟩ := Option.isSome_iff_exists.mp picks
    have chosen := (queues_eq_some (select_eq_some (start_eq_some picked).2).1).1
    exact ⟨f.p, runnable_age.mp chosen⟩
  · rintro ⟨k, runnable⟩
    unfold start
    cases found : select (age t ticks) with
    | none => exact absurd (runnable_age.mpr runnable) (select_none (indexed_age indexed worked) found k)
    | some f => rfl

/-- One pass of the scheduler: whom it moves to another queue, whom it leaves alone, and whom it chooses. -/
theorem start_selects (t : Table) (ticks : Word) (indexed : Indexed t) (worked : Worked ticks t) :
    ((mlfq.start ticks t).2.isSome ↔ ∃ k, t.Runnable k) ∧
    (∀ k, (t.Runnable k ∧ Overdue ticks (t k) →
        ((mlfq.start ticks t).1 k).queue.toNat + 1 = (t k).queue.toNat) ∧
      (¬(t.Runnable k ∧ Overdue ticks (t k)) → ((mlfq.start ticks t).1 k).queue = (t k).queue)) ∧
    (∀ k, ¬t.Runnable k → (mlfq.start ticks t).1 k = t k) ∧
    ∀ f : Frame, (mlfq.start ticks t).2 = some f → t.Runnable f.p ∧
      ∀ k, t.Runnable k →
        ((mlfq.start ticks t).1 f.p).queue.toNat ≤ ((mlfq.start ticks t).1 k).queue.toNat ∧
        (((mlfq.start ticks t).1 k).queue = ((mlfq.start ticks t).1 f.p).queue →
          rank ((mlfq.start ticks t).1 f.p).queue.toNat ((mlfq.start ticks t).1 f.p) <
              rank ((mlfq.start ticks t).1 f.p).queue.toNat ((mlfq.start ticks t).1 k) ∨
            rank ((mlfq.start ticks t).1 f.p).queue.toNat ((mlfq.start ticks t).1 f.p) =
                rank ((mlfq.start ticks t).1 f.p).queue.toNat ((mlfq.start ticks t).1 k) ∧ f.p ≤ k) := by
  refine ⟨start_isSome indexed worked, fun k => ⟨?_, ?_⟩, fun k away => mlfq.start_spares ticks t k away, ?_⟩
  · rintro ⟨runnable, overdue⟩
    show ((start ticks t).1 k).queue.toNat + 1 = _
    rw [(start_eq_age ticks t k).1, (aged_of_runnable runnable indexed worked).1 overdue]
    have low := indexed k runnable
    have above := overdue.1
    show ((t k).queue - 1).toNat + 1 = _
    bv_omega
  · intro still
    show ((start ticks t).1 k).queue = _
    rw [(start_eq_age ticks t k).1]
    by_cases runnable : t.Runnable k
    · rw [(aged_of_runnable runnable indexed worked).2 fun overdue => still ⟨runnable, overdue⟩]
    · exact congrArg Proc.queue (if_neg fun aging => runnable aging.1)
  · intro f picked
    have found := (start_eq_some picked).2
    refine ⟨runnable_age.mp (queues_eq_some (select_eq_some found).1).1, fun k runnable => ?_⟩
    obtain ⟨queue_p, rank_p⟩ := start_eq_age ticks t f.p
    obtain ⟨queue_k, rank_k⟩ := start_eq_age ticks t k
    show ((start ticks t).1 f.p).queue.toNat ≤ ((start ticks t).1 k).queue.toNat ∧ _
    dsimp only [mlfq]
    rw [queue_p, queue_k, rank_p, rank_k]
    exact select_least found (runnable_age.mpr runnable)

/-- Two processes wait in the last queue, the second for 15 ticks. -/
def twoWaiting : Table := fun k =>
  ⟨if k.val < 2 then .runnable else .unused, BitVec.ofNat 32 (k.val + 1), none, none, false, 0, 0, 0, 0, 60, 4,
    fun _ => 0, 0, 0, if k.val = 0 then 15 else 5⟩

theorem start_selects_oldest : Indexed twoWaiting ∧ Worked 20 twoWaiting ∧
    ∃ f : Frame, (mlfq.start 20 twoWaiting).2 = some f ∧ twoWaiting.Runnable f.p := by
  have indexed : Indexed twoWaiting := fun k _ => (by decide : (4 : Word).toNat < 5)
  have worked : Worked 20 twoWaiting := by
    intro k _
    show (if k.val = 0 then (15 : Word) else 5).toNat ≤ _
    split <;> decide
  obtain ⟨picks, -, -, chosen⟩ := start_selects twoWaiting 20 indexed worked
  have waiting : twoWaiting.Runnable ⟨1, by decide⟩ := rfl
  obtain ⟨f, picked⟩ := Option.isSome_iff_exists.mp (picks.mpr ⟨_, waiting⟩)
  exact ⟨indexed, worked, f, picked, (chosen f picked).1⟩

end Xv6.Sched.MLFQ
