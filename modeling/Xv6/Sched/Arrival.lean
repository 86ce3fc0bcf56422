import Xv6.Sched.Dispatches

namespace Xv6.Sched

open Scheduler Transition Selection

section Creation

variable {S : Scheduler} {s s' : State S.Frame} {a : Action} {k : Slot} {past : List (State S.Frame × Action)}

/-- How many steps ago the process in slot `k` was created. -/
def seniority (k : Slot) (past : List (State S.Frame × Action)) : Nat := (life k past).length

theorem seniority_created (creates : s.creates a = some k) : seniority k ((s, a) :: past) = 0 := by
  simp [seniority, life, creates]

theorem seniority_other (old : s.creates a ≠ some k) : seniority k ((s, a) :: past) = seniority k past + 1 := by
  simp [seniority, life, old]

end Creation

namespace FCFS

variable {s s' : State fcfs.Frame} {a : Action} {past : List (State fcfs.Frame × Action)} {p q : Slot}

/-- A new process comes after all live ones: its `ctime` is larger as an `int`, or the same and its slot is
    further down. -/
def InOrder (s : State fcfs.Frame) (a : Action) : Prop :=
  ∀ np, s.creates a = some np → ∀ k, (s.ptable k).state.Live →
    (s.ptable k).ctime.toInt < s.ticks.toInt ∨ (s.ptable k).ctime.toInt = s.ticks.toInt ∧ k < np

/-- The invariant: live processes are ordered as they were created, and a scheduler has chosen the first
    RUNNABLE one. -/
structure Ordered (past : List (State fcfs.Frame × Action)) (s : State fcfs.Frame) : Prop where
  coherent : Coherent s
  older : ∀ p q, (s.ptable p).state.Live → (s.ptable q).state.Live → seniority q past < seniority p past → s.ptable.Precedes p q
  first : ∀ c (p : Slot), s.cpu c = .picked p → ∀ q, s.ptable.Runnable q → ¬ s.ptable.Precedes q p

theorem nextone_first {t : Table} (found : nextone t = some p) (runnable : t.Runnable q) : ¬ t.Precedes q p := by
  by_cases same : q = p
  · subst same
    exact Table.not_precedes_self
  · exact (Table.precedes_of_best found runnable same).asymm

theorem Ordered.step (held : Ordered past s) (taken : fcfs.Under InOrder s a s') : Ordered ((s, a) :: past) s' := by
  have stepped : Step fcfs s a s' := step_cases taken.1
  have move : ∀ k, Move fcfs s k a (s'.ptable k) := fun k => Move.of_step held.coherent stepped
  refine ⟨held.coherent.step stepped, fun p q liveP liveQ older => ?_, fun c p at_c q runnable => ?_⟩
  · rcases (move p).live liveP with ⟨newP, -⟩ | ⟨oldP, wasP, ctimeP⟩
    · rw [seniority_created newP] at older
      omega
    · rcases (move q).live liveQ with ⟨newQ, ctimeQ⟩ | ⟨oldQ, wasQ, ctimeQ⟩
      · unfold Table.Precedes
        rw [ctimeP, ctimeQ]
        exact taken.2 q newQ p wasP
      · rw [seniority_other oldP, seniority_other oldQ] at older
        exact (held.older p q wasP wasQ (by omega)).of_ctime ctimeP.symm ctimeQ.symm
  · have turn : Turn fcfs s c s' a := Turn.of_step stepped c
    rcases turn.picked_cases at_c with ⟨before, dispatch, resume⟩ | ⟨-, -, table, picked⟩ | ⟨-, g, -, -, picked⟩
    · rcases held.coherent.locked stepped (held.coherent.picked before).1 with h | h | unmoved
      · exact absurd h dispatch
      · exact absurd h resume
      · have old := held.first c p before q ((unmoved q).runnable.mp runnable)
        unfold Table.Precedes at old ⊢
        rwa [(unmoved p).ctime, (unmoved q).ctime]
    · obtain ⟨eq, found⟩ : (start s.ptable).1 = s.ptable.modify p .ran ∧ nextone s.ptable = some p :=
        start_eq_some picked
      have same : ∀ k, (s'.ptable k).ctime = (s.ptable k).ctime := fun k => by
        rw [table, fcfs.start_books s.ticks s.ptable k]
      have wasRunnable : s.ptable.Runnable q :=
        (fcfs.start_books s.ticks s.ptable q).state.symm.trans (table ▸ runnable)
      exact fun precedes => nextone_first found wasRunnable (precedes.of_ctime (same q) (same p))
    · cases picked

theorem Ordered.boot : Ordered [] fcfs.boot where
  coherent := .boot
  older _ _ _ _ less := by simp [seniority, life] at less
  first _ _ at_c := by cases at_c

end FCFS

/-- At every dispatch of the FCFS build no RUNNABLE process is older than the chosen one, as long as every new
    process comes after the live ones in the order that the scheduler goes by. -/
theorem fcfs_in_order {past : List (State fcfs.Frame × Action)} {s : State fcfs.Frame}
    (path : Path (fcfs.Under FCFS.InOrder) fcfs.boot past s) (c : Nat) (p : Slot)
    (dispatched : fcfs.dispatched s (.dispatch c) = some p) (q : Slot) (runnable : s.ptable.Runnable q) :
    seniority q past ≤ seniority p past := by
  have ordered : FCFS.Ordered past s := path.invariant .boot (fun _ held taken => held.step taken)
  obtain ⟨f, at_c, rfl⟩ := picked_of_dispatched dispatched
  have live : ∀ {k}, (s.ptable k).state = .runnable → (s.ptable k).state.Live := fun runnable => by
    rw [runnable]
    decide
  have chosen := (ordered.coherent.picked at_c).2
  refine not_lt.mp fun older => ordered.first c f at_c q runnable ?_
  exact ordered.older q f (live runnable) (live chosen) older

instance (s : State fcfs.Frame) (a : Action) : Decidable (FCFS.InOrder s a) :=
  match creates : s.creates a with
  | none => isTrue fun np here => by
    rw [creates] at here
    cases here
  | some np => decidable_of_iff (∀ k, (s.ptable k).state.Live →
      (s.ptable k).ctime.toInt < s.ticks.toInt ∨ (s.ptable k).ctime.toInt = s.ticks.toInt ∧ k < np)
    ⟨fun all np' here => Option.some.inj (creates.symm.trans here) ▸ all, fun inOrder => inOrder np creates⟩

/-- Init sleeps, is woken and goes before its child. -/
def inOrderRun : List Action :=
  [.start 0, .dispatch 0, .fork 0, .forkDone 0, .sleep 0 (.other 5), .resume 0, .wakeup 0 5, .start 0]

theorem fcfs_in_order_of_two : ∃ past s, Path (fcfs.Under FCFS.InOrder) fcfs.boot past s ∧
    fcfs.dispatched s (.dispatch 0) = some initproc ∧ s.ptable.Runnable firstChild ∧
      seniority firstChild past ≤ seniority initproc past := by
  obtain ⟨past, s, path, reached⟩ := replay_reaches fcfs.step fcfs.boot inOrderRun
    (fun past s => (∀ entry ∈ past, FCFS.InOrder entry.1 entry.2) ∧
      fcfs.dispatched s (.dispatch 0) = some initproc ∧ s.ptable.Runnable firstChild) (by decide +kernel)
  simp only [decide_eq_true_eq] at reached
  have inOrder : Path (fcfs.Under FCFS.InOrder) fcfs.boot past s := path.restrict reached.1
  exact ⟨past, s, inOrder, reached.2.1, reached.2.2, fcfs_in_order inOrder 0 initproc reached.2.1 firstChild reached.2.2⟩

/-- The first child exits and a younger process takes its slot in the same tick, before the second child, who is
    older, has run. -/
def reusedSlotRun : List Action :=
  [.start 0, .dispatch 0, .fork 0, .forkDone 0, .fork 0, .forkDone 0, .wait 0, .resume 0, .start 0, .dispatch 0,
    .exit 0, .resume 0, .start 0, .dispatch 0, .wait 0, .fork 0, .forkDone 0, .wait 0, .resume 0, .start 0]

theorem fcfs_younger_first : ¬ ∀ past s, Path fcfs.Takes fcfs.boot past s → ∀ c p,
    fcfs.dispatched s (.dispatch c) = some p → ∀ q, s.ptable.Runnable q → seniority q past ≤ seniority p past := by
  intro claim
  obtain ⟨past, s, path, reached⟩ := replay_reaches fcfs.step fcfs.boot reusedSlotRun
    (fun past s => fcfs.dispatched s (.dispatch 0) = some firstChild ∧ s.ptable.Runnable secondChild ∧
      seniority firstChild past < seniority secondChild past) (by decide +kernel)
  simp only [decide_eq_true_eq] at reached
  exact absurd (claim past s path 0 firstChild reached.1 secondChild reached.2.1) (not_le.mpr reached.2.2)

end Xv6.Sched
