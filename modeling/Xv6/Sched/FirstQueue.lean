import Mathlib.Data.Finset.Card
import Mathlib.Data.Fintype.Card
import Xv6.Sched.Demotion
import Xv6.Sched.Waiting

namespace Xv6.Sched

open Scheduler Transition Selection

namespace MLFQ

variable {s s' : State mlfq.Frame} {a : Action} {k j : Slot} {f : Frame}

def front (s : State mlfq.Frame) : Option Slot := (s.cpu 0).frame.map Frame.p

/-- `k` waits in the first queue. -/
structure Contends (s : State mlfq.Frame) (k : Slot) : Prop where
  runnable : s.ptable.Runnable k
  queue : (s.ptable k).queue = 0
  away : front s ≠ some k

/-- The processes that the scheduler prefers to `k` whenever they are RUNNABLE. -/
def ahead (s : State mlfq.Frame) (k : Slot) : Finset Slot :=
  Finset.univ.filter fun j =>
    (s.ptable j).state.Live ∧ (s.ptable j).queue = 0 ∧ front s ≠ some j ∧ s.ptable.Precedes j k

instance (p : Proc) (ticks : Word) : Decidable (Late p ticks) :=
  inferInstanceAs (Decidable (p.state = .runnable ∧ 0 < p.queue.toInt ∧ qMaxTime p.queue.toNat < ticks - p.lastWorkingticks))

/-- The processes that a step puts before `k`: older ones that aging promotes from the second queue, and a new one that
    counts as older. -/
def overtakers (s : State mlfq.Frame) (a : Action) (k : Slot) : Finset Slot :=
  Finset.univ.filter fun j =>
    (a = .start 0 ∧ Late (s.ptable j) s.ticks ∧ (s.ptable j).queue = 1 ∧ s.ptable.Precedes j k) ∨
      (s.creates a = some j ∧
        (s.ticks.toInt < (s.ptable k).ctime.toInt ∨ s.ticks.toInt = (s.ptable k).ctime.toInt ∧ j < k))

theorem mem_ahead : j ∈ ahead s k ↔
    (s.ptable j).state.Live ∧ (s.ptable j).queue = 0 ∧ front s ≠ some j ∧ s.ptable.Precedes j k := by
  simp [ahead]

theorem ahead_lt (s : State mlfq.Frame) (k : Slot) : (ahead s k).card < NPROC := by
  have less := Finset.card_lt_univ_of_notMem (s := ahead s k) (x := k) fun member =>
    Table.not_precedes_self (mem_ahead.mp member).2.2.2
  rwa [Fintype.card_fin] at less

theorem front_idle (idle : s.cpu 0 = .idle) : front s = none := by
  rw [front, idle]
  rfl

theorem front_of_frame (at_0 : (s.cpu 0).frame = some f) : front s = some f.p := by
  rw [front, at_0]
  rfl

theorem front_ne (away : front s ≠ some k) (f : Frame) (at_0 : (s.cpu 0).frame = some f) : f.p ≠ k := by
  rw [front_of_frame at_0] at away
  exact fun same => away (congrArg some same)

theorem completed (held : Coherent s) (taken : Step mlfq s a s') (embryo : (s.ptable k).state = .embryo)
    (runnable : s'.ptable.Runnable k) :
    ∃ c, a = .forkDone c ∧ ∃ (f : Frame) (i : Bool), s.cpu c = .running f i ∧ s.task f.p = .fork k ∧
      (s'.ptable k).lastWorkingticks = (s.ptable k).lastWorkingticks := by
  have move : Move mlfq s k a (s'.ptable k) := Move.of_step held taken
  have state : (s'.ptable k).state = .runnable := runnable
  have changed : s'.ptable k ≠ s.ptable k := fun same => by
    rw [same, embryo] at state
    cases state
  generalize at_k : s'.ptable k = p at move state
  cases move with
  | ready c parent before =>
    cases taken with
    | call a f i s' at_c awake killed called =>
      cases called with
      | forkDone c' np free forking =>
        have mine : k = np := by
          by_contra ne
          exact changed (s.ptable.modify_of_ne (·.ready (mlfq.proc f)) ne)
        subst mine
        exact ⟨c, rfl, f, i, at_c, forking, rfl⟩
  | quiet a p plain old kept woken =>
    rw [woken.eq (by rw [embryo]; decide), embryo] at state
    cases state
  | switch a p plain old clock kept before after =>
    rw [embryo] at before
    cases before
  | exit c p kept before after =>
    rw [embryo] at before
    cases before
  | start c free =>
    rw [(mlfq.start_books s.ticks s.ptable k).state, embryo] at state
    cases state
  | resume c f at_c =>
    rw [(mlfq.resume_books s.ticks f s.ptable k).state, embryo] at state
    cases state
  | run c f at_c same before =>
    rw [embryo] at before
    cases before
  | charge free counted =>
    rw [Proc.updateRunsandOthers_state, embryo] at state
    cases state
  | found => cases state
  | abandoned => cases state
  | reaped => cases state
  | reapedx => cases state

theorem start_first {ticks : Word} {t : Table} (runnable : (start ticks t).1.Runnable k)
    (queue : ((start ticks t).1 k).queue = 0) :
    ∃ f, (start ticks t).2 = some f ∧ f.i = 0 ∧ (f.p = k ∨ t.Precedes f.p k) := by
  have kept : (age t ticks).Runnable k ∧ (age t ticks k).queue.toNat = 0 := by
    have state := (aged_books (t k) ticks).state.trans (start_books ticks t k).state.symm
    refine ⟨state.trans runnable, ?_⟩
    rw [show (age t ticks k).queue = 0 from (start_aged ticks t k).1.symm.trans queue]
    rfl
  cases first : queues (age t ticks) 0 with
  | none => exact absurd kept (best_eq_none.mp first k (List.mem_finRange k))
  | some p =>
    have found : select (age t ticks) = some ⟨0, p⟩ := by simp [select, first]
    have picked : (start ticks t).2 = some ⟨0, p⟩ := by
      unfold start
      rw [found]
    refine ⟨⟨0, p⟩, picked, rfl, ?_⟩
    by_cases same : p = k
    · exact .inl same
    · have ctime : ∀ j, (age t ticks j).ctime = (t j).ctime := fun j => by
        rw [show age t ticks j = aged (t j) ticks from rfl, aged_books (t j) ticks]
      have precedes : (age t ticks).Precedes p k := Table.precedes_of_best first kept (Ne.symm same)
      exact .inr (precedes.of_ctime (ctime p) (ctime k))

/-- Apart from those that aging brings before `k`, one process fewer is ahead of it once the first of them is chosen. -/
theorem ahead_chosen (taken : mlfq.Under OneCpu s (.start 0) s') (picked : (MLFQ.start s.ticks s.ptable).2 = some f)
    (first : f.i = 0) (precedes : s.ptable.Precedes f.p k) :
    (ahead s' k).card + 1 ≤ (ahead s k).card + (overtakers s (.start 0) k).card := by
  have turn : Turn mlfq s 0 s' (.start 0) := Turn.of_step (step_cases taken.1) 0
  obtain ⟨idle, -, table, seat⟩ := turn.started
  rw [show (mlfq.start s.ticks s.ptable).2 = some f from picked] at seat
  have books := mlfq.start_books s.ticks s.ptable
  have nobody : ∀ j, front s ≠ some j := fun j => by simp [front_idle idle]
  have old : ∀ j, (s'.ptable j).state.Live → (s'.ptable j).queue = 0 → s.ptable.Precedes j k →
      j ∈ ahead s k ∪ overtakers s (.start 0) k := by
    intro j live zero older
    rw [table] at live zero
    rw [Finset.mem_union]
    rcases start_cases s.ticks s.ptable j with ⟨-, same, -⟩ | ⟨late, above, -⟩
    · rw [(books j).state] at live
      exact .inl (mem_ahead.mpr ⟨live, same.symm.trans zero, nobody j, older⟩)
    · have zero : (s.ptable j).queue - 1 = 0 := above.symm.trans zero
      have second : (s.ptable j).queue = 1 := by bv_omega
      exact .inr (Finset.mem_filter.mpr ⟨Finset.mem_univ j, .inl ⟨rfl, late, second, older⟩⟩)
  have member : f.p ∈ ahead s k ∪ overtakers s (.start 0) k := by
    have runs : (s'.ptable f.p).state = .runnable := by
      rw [table]
      exact mlfq.start_picks _ _ _ picked
    have zero : (s'.ptable f.p).queue = 0 := by
      have queued := (start_frame picked).1
      rw [table]
      rw [first] at queued
      exact BitVec.eq_of_toNat_eq queued
    exact old f.p (by rw [runs]; decide) zero precedes
  have fewer : ahead s' k ⊆ (ahead s k ∪ overtakers s (.start 0) k).erase f.p := by
    intro j inside
    obtain ⟨live, queue, away, older⟩ := mem_ahead.mp inside
    have older : s.ptable.Precedes j k := older.of_ctime (by rw [table, books j]) (by rw [table, books k])
    apply Finset.mem_erase.mpr ⟨_, old j live queue older⟩
    intro eq
    exact away (eq ▸ front_of_frame (by rw [seat]; rfl))
  have less := Finset.card_le_card fewer
  rw [Finset.card_erase_of_mem member] at less
  have some_one := Finset.card_pos.mpr ⟨f.p, member⟩
  have both := Finset.card_union_le (ahead s k) (overtakers s (.start 0) k)
  omega

/-- The scheduler starts: whoever still waits in the first queue has seen one process of it chosen before, or has just
    come there. -/
theorem starts (taken : mlfq.Under OneCpu s (.start 0) s') (contends : Contends s' k) :
    ∃ f : Frame, s'.cpu 0 = .picked f ∧ curr s'.ptable f = 0 ∧ allowed f = 1 ∧
      (wait s' k = 0 ∨ Contends s k ∧ wait s' k = wait s k ∧
        (ahead s' k).card + 1 ≤ (ahead s k).card + (overtakers s (.start 0) k).card) := by
  have stepped : Step mlfq s (.start 0) s' := step_cases taken.1
  have turn : Turn mlfq s 0 s' (.start 0) := Turn.of_step stepped 0
  have clock : Clock s s' (.start 0) := Clock.of_step stepped
  have ticks := (clock.stands (by simp) (by simp) (by simp)).2
  obtain ⟨idle, -, table, seat⟩ := turn.started
  have runnable : (MLFQ.start s.ticks s.ptable).1.Runnable k := table ▸ contends.runnable
  have queue : ((MLFQ.start s.ticks s.ptable).1 k).queue = 0 := table ▸ contends.queue
  obtain ⟨f, picked, first, order⟩ := start_first runnable queue
  rw [show (mlfq.start s.ticks s.ptable).2 = some f from picked] at seat
  have precedes : s.ptable.Precedes f.p k :=
    order.resolve_left fun eq => contends.away (eq ▸ front_of_frame (by rw [seat]; rfl))
  refine ⟨f, seat, by rw [table]; exact start_curr picked, by simp [allowed, first, maxTickOfQ], ?_⟩
  rcases start_cases s.ticks s.ptable k with ⟨-, same, last⟩ | ⟨-, -, last⟩
  · have waits : wait s' k = wait s k := by
      unfold wait
      rw [ticks, table]
      exact congrArg (fun last => (s.ticks - last).toNat) last
    have contended : Contends s k :=
      ⟨(mlfq.start_books s.ticks s.ptable k).state.symm.trans runnable, same.symm.trans queue, by simp [front_idle idle]⟩
    exact .inr ⟨contended, waits, ahead_chosen taken picked first precedes⟩
  · left
    unfold wait
    rw [ticks, table, show ((mlfq.start s.ticks s.ptable).1 k).lastWorkingticks = s.ticks from last, BitVec.sub_self]
    rfl

namespace OneFrame

/-- A process that goes on waiting has only those before it that the step has put there. -/
theorem ahead_later (held : OneFrame s) (taken : mlfq.Under OneCpu s a s') (start : a ≠ .start 0)
    (resume : a ≠ .resume 0) (same : front s' = front s) (ctime : (s'.ptable k).ctime = (s.ptable k).ctime) :
    ahead s' k ⊆ ahead s k ∪ overtakers s a k := by
  intro j member
  obtain ⟨live, queue, away, precedes⟩ := mem_ahead.mp member
  have coherent := held.resting.coherent
  have move : Move mlfq s j a (s'.ptable j) := Move.of_step coherent (step_cases taken.1)
  rw [Finset.mem_union]
  rcases move.live live with ⟨new, now⟩ | ⟨-, was, ctime'⟩
  · right
    unfold Table.Precedes at precedes
    rw [ctime, now] at precedes
    exact Finset.mem_filter.mpr ⟨Finset.mem_univ j, .inr ⟨new, precedes⟩⟩
  · have one : a.cpu = 0 := taken.2
    refine .inl (mem_ahead.mpr ⟨was, ?_, same ▸ away, precedes.of_ctime ctime' ctime⟩)
    rcases queue_cases coherent (step_cases taken.1) was.1 with eq | ⟨⟨c, eq⟩, -⟩ | ⟨c, f, eq, -⟩
    · exact eq.symm.trans queue
    · subst eq
      exact absurd (congrArg Action.start one) start
    · subst eq
      exact absurd (congrArg Action.resume one) resume

/-- A step that leaves CPU 0 with its process: whoever waits in the first queue waited there before, has just woken, or
    is a child that `fork` has completed. -/
theorem goes_on (held : OneFrame s) (taken : mlfq.Under OneCpu s a s') (start : a ≠ .start 0) (resume : a ≠ .resume 0)
    (same : front s' = front s) (contends : Contends s' k) :
    (Contends s k ∧ wait s' k ≤ wait s k + (if a = .tick then 1 else 0) ∧
      (ahead s' k).card ≤ (ahead s k).card + (overtakers s a k).card) ∨
    wait s' k = s'.timer.lag ∨
    ∃ (f : Frame) (i : Bool), a = .forkDone 0 ∧ s.cpu 0 = .running f i ∧ s.task f.p = .fork k ∧
      (s.ptable k).state = .embryo ∧ wait s' k ≤ wait s k := by
  have stepped : Step mlfq s a s' := step_cases taken.1
  by_cases was : s.ptable.Runnable k
  · have other := front_ne (same ▸ contends.away)
    obtain ⟨last, queue, ctime⟩ := held.waiting taken was other start
    have fewer := Finset.card_le_card (held.ahead_later taken start resume same ctime)
    exact .inl ⟨⟨was, queue ▸ contends.queue, same ▸ contends.away⟩, wait_le stepped last,
      fewer.trans (Finset.card_union_le _ _)⟩
  · by_cases embryo : (s.ptable k).state = .embryo
    · obtain ⟨c, rfl, f, i, at_c, forking, last⟩ := completed held.resting.coherent stepped embryo contends.runnable
      have zero : c = 0 := taken.2
      subst zero
      have later := wait_le stepped last
      rw [if_neg (by simp)] at later
      exact .inr (.inr ⟨f, i, rfl, at_c, forking, embryo, later⟩)
    · exact .inr (.inl (held.fresh taken was embryo (front_ne contends.away) contends.runnable))

/-- The scheduler lets go of a process: it takes its place in the first queue again only if it has not used up its time
    slice. -/
theorem lets_go (held : OneFrame s) (taken : mlfq.Under OneCpu s (.resume 0) s') (at_0 : s.cpu 0 = .back f) (idle : s'.cpu 0 = .idle)
    (contends : Contends s' k) :
    wait s' k = 0 ∨ Contends s k ∧ wait s' k = wait s k ∧
      (ahead s' k).card + curr s.ptable f ≤ (ahead s k).card + allowed f := by
  have stepped : Step mlfq s (.resume 0) s' := step_cases taken.1
  have clock : Clock s s' (.resume 0) := Clock.of_step stepped
  have ticks := (clock.stands (by simp) (by simp) (by simp)).2
  have here : front s = some f.p := front_of_frame (by rw [at_0]; rfl)
  have slice := held.sliced.slice
  rw [at_0] at slice
  have within : curr s.ptable f ≤ allowed f := slice
  have left : s'.ptable = s.ptable.modify f.p (leave f.i s.ticks) := by
    obtain ⟨g, before, ⟨-, seat, -⟩ | ⟨left, -⟩⟩ := resumed stepped
    · rw [idle] at seat
      cases seat
    · rw [at_0] at before
      cases before
      exact left
  have same : ∀ j, j ≠ f.p → s'.ptable j = s.ptable j := fun j ne => by rw [left, Table.modify_of_ne _ _ ne]
  by_cases mine : k = f.p
  · have last : (s'.ptable k).lastWorkingticks = s.ticks := by
      subst mine
      rw [left, leave_last]
    refine .inl ?_
    unfold wait
    rw [ticks, last, BitVec.sub_self]
    rfl
  · have ctime : ∀ j, (s'.ptable j).ctime = (s.ptable j).ctime := by
      intro j
      by_cases eq : j = f.p
      · subst eq
        rw [left, Table.modify_self]
        rfl
      · rw [same j eq]
    have contended : Contends s k := by
      refine ⟨?_, ?_, fun eq => mine (Option.some.inj (eq.symm.trans here))⟩
      · rw [Table.Runnable, ← same k mine]
        exact contends.runnable
      · rw [← same k mine]
        exact contends.queue
    have waits : wait s' k = wait s k := by
      unfold wait
      rw [ticks, same k mine]
    have others : ∀ j, j ≠ f.p → j ∈ ahead s' k → j ∈ ahead s k := by
      intro j ne member
      obtain ⟨live, queue, -, older⟩ := mem_ahead.mp member
      rw [same j ne] at live queue
      exact mem_ahead.mpr ⟨live, queue, fun eq => ne (Option.some.inj (eq.symm.trans here)),
        older.of_ctime (ctime j) (ctime k)⟩
    refine .inr ⟨contended, waits, ?_⟩
    by_cases spent : Spent f.i (s.ptable f.p)
    · -- the process has been demoted, or is in the last queue
      have off : f.p ∉ ahead s' k := by
        intro member
        have zero := (mem_ahead.mp member).2.1
        obtain ⟨queued, small⟩ := held.sliced.queued.frames 0 f (by rw [at_0]; rfl)
        rw [left, Table.modify_self] at zero
        have queue : (if Spent f.i (s.ptable f.p) ∧ f.i ≠ 4 then (s.ptable f.p).queue + 1 else (s.ptable f.p).queue) = 0 := zero
        by_cases last : f.i = 4
        · rw [if_neg fun exceeds => exceeds.2 last] at queue
          rw [queue, last] at queued
          cases queued
        · rw [if_pos ⟨spent, last⟩] at queue
          bv_omega
      have fewer : (ahead s' k).card ≤ (ahead s k).card :=
        Finset.card_le_card fun j member => others j (fun eq => off (eq ▸ member)) member
      omega
    · have room : curr s.ptable f ≠ allowed f := fun full => spent ((spent_iff within).mpr full)
      have more : (ahead s' k).card ≤ (ahead s k).card + 1 := by
        refine (Finset.card_le_card fun j member => ?_).trans (Finset.card_insert_le f.p (ahead s k))
        by_cases eq : j = f.p
        · exact eq ▸ Finset.mem_insert_self ..
        · exact Finset.mem_insert_of_mem (others j eq member)
      omega

end OneFrame

end MLFQ

end Xv6.Sched
