import Mathlib.Algebra.Ring.Nat
import Xv6.Sched.FirstQueue
import Xv6.Sched.Rotation

namespace Xv6.Sched

open Scheduler Transition Selection

namespace MLFQ

variable {s s' : State mlfq.Frame} {a : Action} {past : List (State mlfq.Frame × Action)} {k : Slot} {f : Frame}

instance (s : State mlfq.Frame) (k : Slot) : Decidable (Contends s k) :=
  decidable_of_iff (s.ptable.Runnable k ∧ (s.ptable k).queue = 0 ∧ front s ≠ some k)
    ⟨fun h => ⟨h.1, h.2.1, h.2.2⟩, fun h => ⟨h.runnable, h.queue, h.away⟩⟩

/-- What keeps a process of the first queue back: those that the step puts before it, and a tick in the idle loop. -/
def delays (s : State mlfq.Frame) (a : Action) (k : Slot) : Nat :=
  (overtakers s a k).card + if a = .tick ∧ s.cpu 0 = .idle then 1 else 0

/-- How often that has happened to `k` since it came to wait in the first queue. -/
def setbacks (k : Slot) : List (State mlfq.Frame × Action) → Nat
  | [] => 0
  | (s, a) :: past => if Contends s k then setbacks k past + delays s a k else 0

/-- No process is kept back more than NPROC times while it waits in the first queue, and `fork` completes its child
    within NPROC ticks. -/
structure Fair (past : List (State mlfq.Frame × Action)) (s : State mlfq.Frame) (a : Action) : Prop where
  overtaken : ∀ k, setbacks k ((s, a) :: past) ≤ NPROC
  completes : a = .forkDone 0 → ∀ (f : Frame) i np, s.cpu 0 = .running f i → s.task f.p = .fork np →
    (s.ticks - (s.ptable np).ctime).toNat ≤ NPROC

theorem setbacks_of_contends (contends : Contends s k) :
    setbacks k ((s, a) :: past) = setbacks k past + delays s a k := if_pos contends

/-- No time has passed in the life of a process under construction that its creation does not show. -/
theorem embryo_step (held : Coherent s) (taken : Step mlfq s a s')
    (young : ∀ k, (s.ptable k).state = .embryo → (s.ptable k).lastWorkingticks = (s.ptable k).ctime)
    (embryo : (s'.ptable k).state = .embryo) : (s'.ptable k).lastWorkingticks = (s'.ptable k).ctime := by
  have move : Move mlfq s k a (s'.ptable k) := Move.of_step held taken
  generalize s'.ptable k = p at move embryo
  cases move with
  | quiet a p plain old kept woken =>
    have before : (s.ptable k).state = .embryo := by
      rcases woken with same | ⟨-, awake⟩
      · exact same.symm.trans embryo
      · rw [awake] at embryo
        cases embryo
    rw [kept]
    exact young k before
  | start c free =>
    have books := mlfq.start_books s.ticks s.ptable k
    have before : (s.ptable k).state = .embryo := books.state.symm.trans embryo
    rw [mlfq.start_spares _ _ _ (by rw [Table.Runnable, before]; decide)]
    exact young k before
  | resume c f at_c =>
    have books := mlfq.resume_books s.ticks f s.ptable k
    have before : (s.ptable k).state = .embryo := books.state.symm.trans embryo
    have other : k ≠ mlfq.proc f := by
      intro same
      have switched := (held.back at_c).2
      rw [← same, before] at switched
      rcases switched with h | h | h <;> cases h
    rw [mlfq.resume_spares _ _ _ _ other (by rw [Table.Runnable, before]; decide)]
    exact young k before
  | charge free counted =>
    rw [Proc.updateRunsandOthers_state] at embryo
    simp only [Proc.updateRunsandOthers, embryo]
    exact young k embryo
  | found => rfl
  | switch a p plain old clock kept before after => rcases after with h | h <;> rw [h] at embryo <;> cases embryo
  | exit c p kept before after =>
    rw [after] at embryo
    cases embryo
  | run => cases embryo
  | abandoned => cases embryo
  | ready => cases embryo
  | reaped => cases embryo
  | reapedx => cases embryo

/-- The invariant of the first queue: how long a process has waited, and how many may still go before it. -/
structure Patient (past : List (State mlfq.Frame × Action)) (s : State mlfq.Frame) : Prop where
  one : OneFrame s
  young : ∀ k, (s.ptable k).state = .embryo → (s.ptable k).lastWorkingticks = (s.ptable k).ctime
  idle : s.cpu 0 = .idle → ∀ k, Contends s k → wait s k + (ahead s k).card ≤ 2 * NPROC + 16 + setbacks k past
  busy : ∀ f : Frame, (s.cpu 0).frame = some f → ∀ k, Contends s k →
    wait s k + (ahead s k).card + allowed f ≤ 2 * NPROC + 16 + setbacks k past + curr s.ptable f + s.timer.lag

namespace Patient

theorem start_step (held : Patient past s) (taken : mlfq.Under OneCpu s (.start 0) s') :
    Patient ((s, .start 0) :: past) s' := by
  have stepped : Step mlfq s (.start 0) s' := step_cases taken.1
  have turn : Turn mlfq s 0 s' (.start 0) := Turn.of_step stepped 0
  refine ⟨held.one.step taken, fun k => embryo_step held.one.resting.coherent stepped held.young,
    fun idle' k contends => ?_, fun g at_0' k contends => ?_⟩
  · obtain ⟨f, picked, -⟩ := starts taken contends
    rw [picked] at idle'
    cases idle'
  · obtain ⟨f, picked, curr_f, allowed_f, waits⟩ := starts taken contends
    rw [picked] at at_0'
    cases at_0'
    have few := ahead_lt s' k
    rcases waits with zero | ⟨contended, same, fewer⟩
    · omega
    · have old := held.idle turn.started.1 k contended
      rw [setbacks_of_contends contended, delays]
      omega

theorem resume_step (held : Patient past s) (taken : mlfq.Under OneCpu s (.resume 0) s') :
    Patient ((s, .resume 0) :: past) s' := by
  have stepped : Step mlfq s (.resume 0) s' := step_cases taken.1
  have clock : Clock s s' (.resume 0) := Clock.of_step stepped
  obtain ⟨timer, ticks⟩ := clock.stands (by simp) (by simp) (by simp)
  have young := fun k => embryo_step (k := k) held.one.resting.coherent stepped held.young
  obtain ⟨f, at_0, ⟨table, seat, -⟩ | ⟨-, seat, -⟩⟩ := resumed stepped
  · have frame : (s.cpu 0).frame = some f := by rw [at_0]; rfl
    have frame' : (s'.cpu 0).frame = some f := by rw [seat]; rfl
    have same : front s' = front s := (front_of_frame frame').trans (front_of_frame frame).symm
    refine ⟨held.one.step taken, young, fun idle k contends => ?_, fun g at_0' k contends => ?_⟩
    · rw [seat] at idle
      cases idle
    · cases at_0'.symm.trans frame'
      have contended : Contends s k := ⟨table ▸ contends.runnable, table ▸ contends.queue, same ▸ contends.away⟩
      have old := held.busy f frame k contended
      have places : ahead s' k = ahead s k := by
        unfold ahead
        rw [table, same]
      have waits : wait s' k = wait s k := by
        unfold wait
        rw [table, ticks]
      rw [setbacks_of_contends contended, places, waits, table, timer]
      omega
  · refine ⟨held.one.step taken, young, fun idle k contends => ?_, fun g at_0' k contends => ?_⟩
    · have few := ahead_lt s' k
      rcases held.one.lets_go taken at_0 idle contends with zero | ⟨contended, same, places⟩
      · omega
      · have old := held.busy f (by rw [at_0]; rfl) k contended
        rw [held.one.sliced.lag_eq_zero (.inr at_0)] at old
        have lag : Timer.ready.lag = 0 := rfl
        rw [setbacks_of_contends contended]
        omega
    · rw [seat] at at_0'
      cases at_0'

theorem later (held : Patient past s) (taken : mlfq.Under OneCpu s a s') (fair : Fair past s a) (start : a ≠ .start 0)
    (resume : a ≠ .resume 0) (same : front s' = front s) (contends : Contends s' k) :
    wait s' k ≤ NPROC ∨ Contends s k ∧ wait s' k ≤ wait s k + (if a = .tick then 1 else 0) ∧
      (ahead s' k).card ≤ (ahead s k).card + (overtakers s a k).card := by
  rcases held.one.goes_on taken start resume same contends with went | woken | ⟨f, i, eq, at_0, forking, embryo, more⟩
  · exact .inr went
  · have lag : s'.timer.lag ≤ 1 := by cases s'.timer <;> decide
    have large : NPROC = 64 := rfl
    exact .inl (by omega)
  · have short := fair.completes eq f i k at_0 forking
    rw [← held.young k embryo] at short
    exact .inl (more.trans short)

theorem step (held : Patient past s) (taken : mlfq.Under OneCpu s a s') (fair : Fair past s a) :
    Patient ((s, a) :: past) s' := by
  by_cases start : a = .start 0
  · subst start
    exact held.start_step taken
  by_cases resume : a = .resume 0
  · subst resume
    exact held.resume_step taken
  have turn : Turn mlfq s 0 s' a := Turn.of_step (step_cases taken.1) 0
  have frame := turn.frame_same start resume
  have same : front s' = front s := by rw [front, frame, front]
  refine ⟨held.one.step taken, fun k => embryo_step held.one.resting.coherent (step_cases taken.1) held.young,
    fun idle' k contends => ?_, fun f at_0' k contends => ?_⟩
  · have idle : s.cpu 0 = .idle := by
      rw [idle'] at frame
      cases at_0 : s.cpu 0 with
      | idle => rfl
      | picked g =>
        rw [at_0] at frame
        cases frame
      | running g i =>
        rw [at_0] at frame
        cases frame
      | back g =>
        rw [at_0] at frame
        cases frame
    have few := ahead_lt s' k
    rcases held.later taken fair start resume same contends with short | ⟨contended, more, places⟩
    · omega
    · have old := held.idle idle k contended
      rw [setbacks_of_contends contended, delays]
      by_cases tick : a = .tick
      · rw [if_pos tick] at more
        rw [if_pos ⟨tick, idle⟩]
        omega
      · rw [if_neg tick] at more
        omega
  · have at_0 := frame.symm.trans at_0'
    have few := ahead_lt s' k
    have slice := held.one.slice_later taken at_0 start resume
    have allowed := allowed_le f
    rcases held.later taken fair start resume same contends with short | ⟨contended, more, places⟩
    · omega
    · have old := held.busy f at_0 k contended
      rw [setbacks_of_contends contended, delays]
      omega

theorem boot : Patient [] mlfq.boot where
  one := .boot
  young k embryo := by
    by_cases eq : k = initproc
    · subst eq
      simp [Scheduler.boot] at embryo
    · simp [Scheduler.boot, eq] at embryo
  idle _ k _ := by
    have few := ahead_lt mlfq.boot k
    have zero : wait mlfq.boot k = 0 := by
      by_cases eq : k = initproc
      · subst eq
        rfl
      · simp [wait, Scheduler.boot, eq]
    omega
  busy _ at_0 := by cases at_0

end Patient

end MLFQ

/-- No starvation from the first queue of the MLFQ build on one CPU as long as no process that waits there is kept back
    more than NPROC times by older ones that aging or `fork` puts before it: at every dispatch every other RUNNABLE
    process of queue 0 has waited for at most the longest time slice and three ticks for each process of the table. -/
theorem mlfq_first_queue {past : List (State mlfq.Frame × Action)} {s : State mlfq.Frame}
    (path : Path (mlfq.Under OneCpu) mlfq.boot past s) (fair : Throughout MLFQ.Fair past) {p : Slot}
    (dispatched : mlfq.dispatched s (.dispatch 0) = some p) {k : Slot} (ne : k ≠ p)
    (runnable : (s.ptable k).state = .runnable) (queue : (s.ptable k).queue = 0) :
    (s.ticks - (s.ptable k).lastWorkingticks).toNat ≤ 3 * NPROC + (maxTickOfQ 4).toNat := by
  have patient : MLFQ.Patient past s :=
    path.invariant_throughout fair .boot fun held fair taken => held.step taken fair
  obtain ⟨f, at_0, rfl⟩ : ∃ f : MLFQ.Frame, s.cpu 0 = .picked f ∧ f.p = p := picked_of_dispatched dispatched
  have frame : (s.cpu 0).frame = some f := by rw [at_0]; rfl
  have contends : MLFQ.Contends s k :=
    ⟨runnable, queue, fun same => ne (Option.some.inj (same.symm.trans (MLFQ.front_of_frame frame)))⟩
  have waits := patient.busy f frame k contends
  have kept : MLFQ.setbacks k past ≤ NPROC := by
    cases past with
    | nil => exact Nat.zero_le _
    | cons entry past => exact fair.1.overtaken k
  have slice := patient.one.sliced.slice
  rw [at_0] at slice
  have less : MLFQ.curr s.ptable f < MLFQ.allowed f := slice
  rw [patient.one.sliced.lag_eq_zero (.inl at_0)] at waits
  have lag : Timer.ready.lag = 0 := rfl
  rw [show (maxTickOfQ 4).toNat = 16 from rfl]
  unfold MLFQ.wait at waits
  omega

namespace MLFQ

/-- How many processes a step can put before another. -/
def hurdles (s : State mlfq.Frame) : Action → Nat
  | .start _ => (Finset.univ.filter fun j => Late (s.ptable j) s.ticks).card
  | .fork _ => 1
  | .tick => if s.cpu 0 = .idle then 1 else 0
  | _ => 0

theorem delays_le (s : State mlfq.Frame) (a : Action) (k : Slot) : delays s a k ≤ hurdles s a := by
  have nobody : (∀ j, j ∉ overtakers s a k) → overtakers s a k = ∅ := Finset.eq_empty_of_forall_notMem
  cases a with
  | start c =>
    rw [delays, if_neg (by simp), Nat.add_zero]
    apply Finset.card_le_card
    intro j member
    rcases (Finset.mem_filter.mp member).2 with ⟨-, late, -⟩ | ⟨creates, -⟩
    · exact Finset.mem_filter.mpr ⟨Finset.mem_univ j, late⟩
    · cases creates
  | fork c =>
    rw [delays, if_neg (by simp), Nat.add_zero]
    apply Finset.card_le_one.mpr
    intro i first j second
    rcases (Finset.mem_filter.mp first).2 with ⟨eq, -⟩ | ⟨creates, -⟩
    · cases eq
    · rcases (Finset.mem_filter.mp second).2 with ⟨eq, -⟩ | ⟨creates', -⟩
      · cases eq
      · exact Option.some.inj (creates.symm.trans creates')
  | tick =>
    rw [delays, nobody fun j member => by simp [overtakers, State.creates] at member]
    simp [hurdles]
  | _ =>
    rw [delays, nobody fun j member => by simp [overtakers, State.creates] at member]
    simp [hurdles]

theorem setbacks_le (k : Slot) (past : List (State mlfq.Frame × Action)) :
    setbacks k past ≤ (past.map fun entry => hurdles entry.1 entry.2).sum := by
  induction past with
  | nil => exact Nat.le_refl 0
  | cons entry past ih =>
    obtain ⟨s, a⟩ := entry
    unfold setbacks
    have here := delays_le s a k
    split
    · simp only [List.map_cons, List.sum_cons]
      omega
    · exact Nat.zero_le _

/-- A run in which few processes are promoted or created, and no fork takes long, is fair. -/
theorem fair_of_few {past : List (State mlfq.Frame × Action)}
    (few : (past.map fun entry => hurdles entry.1 entry.2).sum ≤ NPROC)
    (quick : ∀ entry ∈ past, entry.2 = .forkDone 0 → ∀ np, (entry.1.ticks - (entry.1.ptable np).ctime).toNat ≤ NPROC) :
    Throughout Fair past := by
  induction past with
  | nil => trivial
  | cons entry past ih =>
    rw [List.map_cons, List.sum_cons] at few
    constructor
    · exact
        { overtaken := fun k => (setbacks_le k (entry :: past)).trans (by simpa using few)
          completes := fun done f i np _ _ => quick entry (.head _) done np }
    · exact ih (by omega) fun entry member => quick entry (.tail _ member)

/-- Seven children have each run for a tick, and the first is promoted again. -/
def secondRound : List Action :=
  Rotates.rotationRun ++
    (List.replicate 7 [.start 0, .dispatch 0, .tick, .charge, .wakeTicks, .yield 0, .resume 0]).flatten ++ [.start 0]

end MLFQ

/-- The eighth child is kept back once. -/
theorem mlfq_first_queue_of_eight : ∃ past s, Path (mlfq.Under OneCpu) mlfq.boot past s ∧ Throughout MLFQ.Fair past ∧
    MLFQ.setbacks MLFQ.youngest past = 1 ∧ mlfq.dispatched s (.dispatch 0) = some (MLFQ.elder 0) ∧
      (s.ticks - (s.ptable MLFQ.youngest).lastWorkingticks).toNat = 7 ∧
      (s.ticks - (s.ptable MLFQ.youngest).lastWorkingticks).toNat ≤ 3 * NPROC + (maxTickOfQ 4).toNat := by
  obtain ⟨past, s, path, reached⟩ := replay_reaches mlfq.step mlfq.boot MLFQ.secondRound
    (fun past s => (∀ entry ∈ past, OneCpu entry.1 entry.2) ∧
      (past.map fun entry => MLFQ.hurdles entry.1 entry.2).sum ≤ NPROC ∧
      (∀ entry ∈ past, entry.2 = .forkDone 0 → ∀ np, (entry.1.ticks - (entry.1.ptable np).ctime).toNat ≤ NPROC) ∧
      MLFQ.setbacks MLFQ.youngest past = 1 ∧ mlfq.dispatched s (.dispatch 0) = some (MLFQ.elder 0) ∧
      (s.ptable MLFQ.youngest).state = .runnable ∧ (s.ptable MLFQ.youngest).queue = 0 ∧
      (s.ticks - (s.ptable MLFQ.youngest).lastWorkingticks).toNat = 7) (by decide +kernel)
  simp only [decide_eq_true_eq] at reached
  obtain ⟨one, few, quick, kept, dispatched, runnable, queue, waits⟩ := reached
  have run : Path (mlfq.Under OneCpu) mlfq.boot past s := path.restrict one
  have fair := MLFQ.fair_of_few few quick
  exact ⟨past, s, run, fair, kept, dispatched, waits,
    mlfq_first_queue run fair dispatched (by decide) runnable queue⟩

/-- Seven processes that are demoted and promoted again and again keep an eighth one waiting in the first queue without
    limit, by the clock that the scheduler reads as well as by the ticks that were charged. -/
theorem mlfq_starvation :
    (¬ ∃ B < 2 ^ 32 - 1, ∀ past s, Path (mlfq.Under OneCpu) mlfq.boot past s → ∀ p,
      mlfq.dispatched s (.dispatch 0) = some p → ∀ k, k ≠ p → (s.ptable k).state = .runnable → (s.ptable k).queue = 0 →
        (s.ticks - (s.ptable k).lastWorkingticks).toNat ≤ B) ∧
    ¬ ∃ B, ∀ past s, Path (mlfq.Under OneCpu) mlfq.boot past s → ∀ p,
      mlfq.dispatched s (.dispatch 0) = some p → ∀ k, k ≠ p → (s.ptable k).state = .runnable → (s.ptable k).queue = 0 →
        waited k past ≤ B := by
  refine ⟨fun ⟨B, small, claim⟩ => ?_, fun ⟨B, claim⟩ => ?_⟩
  · obtain ⟨past, s, path, dispatched, runnable, queue, waits, -⟩ := MLFQ.Rotates.waits (B + 1)
    have bound := claim past s path _ dispatched MLFQ.youngest (MLFQ.elder_ne_youngest _) runnable queue
    rw [waits, BitVec.toNat_ofNat, Nat.mod_eq_of_lt (by omega)] at bound
    omega
  · obtain ⟨past, s, path, dispatched, runnable, queue, -, waits⟩ := MLFQ.Rotates.waits (B + 1)
    have bound := claim past s path _ dispatched MLFQ.youngest (MLFQ.elder_ne_youngest _) runnable queue
    omega

end Xv6.Sched
