import Xv6.Sched.Slices

namespace Xv6.Sched

open Scheduler Transition

namespace MLFQ

variable {s s' x y : State mlfq.Frame} {a : Action} {past new : List (State mlfq.Frame × Action)} {k : Slot} {f : Frame}

/-- The ticks charged to the process in slot `k` in a part of a run. -/
def ticksCharged (k : Slot) (new : List (State mlfq.Frame × Action)) : Nat :=
  new.countP (fun entry => entry.2 = .charge ∧ (entry.1.ptable k).state = .running)

theorem ticksCharged_other (plain : a ≠ .charge) : ticksCharged k ((s, a) :: new) = ticksCharged k new := by
  simp [ticksCharged, plain]

/-- Since its selection the process of frame `f` has been charged its time slice and no other has been dispatched;
    once the CPU has let go of it, it does not run. -/
structure Selected (f : Frame) (new : List (State mlfq.Frame × Action)) (s : State mlfq.Frame) : Prop where
  sliced : Sliced s
  place : (s.cpu 0).frame = some f ∧ ticksCharged f.p new = curr s.ptable f ∨
    s.cpu 0 = .idle ∧ (s.ptable f.p).state ≠ .running ∧ ticksCharged f.p new ≤ allowed f
  alone : ∀ entry ∈ new, ∀ q, mlfq.dispatched entry.1 entry.2 = some q → q = f.p

theorem not_running {p : Proc} (move : Move mlfq s k a p) (away : (s.ptable k).state ≠ .running)
    (off : ∀ c, ∀ f : Frame, s.cpu c = .picked f → a ≠ .dispatch c) : p.state ≠ .running := by
  intro running
  cases move with
  | quiet a p plain old kept woken =>
    rcases woken with same | ⟨-, awake⟩
    · exact away (same.symm.trans running)
    · rw [awake] at running
      cases running
  | switch a p plain old clock kept before after => exact away before
  | exit c p kept before after => exact away before
  | start c free => exact away ((mlfq.start_books _ _ k).state.symm.trans running)
  | resume c f at_c => exact away ((mlfq.resume_books _ _ _ k).state.symm.trans running)
  | run c f at_c same before => exact off c f at_c rfl
  | charge free counted => exact away ((s.ptable k).updateRunsandOthers_state.symm.trans running)
  | found => cases running
  | abandoned => cases running
  | ready => cases running
  | reaped => cases running
  | reapedx => cases running

namespace Selected

theorem counts (held : Selected f new s) (taken : mlfq.Under OneCpu s a s') (at_0 : (s.cpu 0).frame = some f)
    (count : ticksCharged f.p new = curr s.ptable f) (start : a ≠ .start 0) (resume : a ≠ .resume 0) :
    ticksCharged f.p ((s, a) :: new) = curr s'.ptable f := by
  have stepped : Step mlfq s a s' := step_cases taken.1
  by_cases charge : a = .charge
  · subst charge
    obtain ⟨running, -, next⟩ := held.sliced.charged stepped at_0
    rw [next, ← count]
    simp [ticksCharged, running]
  · have same := held_curr held.sliced.queued.coherent stepped at_0 start resume charge
    rw [ticksCharged_other charge, count]
    exact (congrArg BitVec.toNat same).symm

theorem step (held : Selected f new s) (taken : mlfq.Under OneCpu s a s') (more : a ≠ .start 0) :
    Selected f ((s, a) :: new) s' := by
  have stepped : Step mlfq s a s' := step_cases taken.1
  have turn : Turn mlfq s 0 s' a := Turn.of_step stepped 0
  have one : a.cpu = 0 := taken.2
  refine ⟨held.sliced.step taken, ?_, fun entry member q dispatched => ?_⟩
  · rcases held.place with ⟨at_0, count⟩ | ⟨idle, away, bound⟩
    · by_cases resume : a = .resume 0
      · subst resume
        rw [ticksCharged_other (by simp)]
        obtain ⟨g, before, ⟨table, seat, -⟩ | ⟨left, seat, -⟩⟩ := resumed stepped
        · rw [before] at at_0
          cases at_0
          exact .inl ⟨by rw [seat]; rfl, by rw [count, table]⟩
        · rw [before] at at_0
          cases at_0
          have switched := (held.sliced.queued.coherent.back before).2
          have slice := held.sliced.slice
          rw [before] at slice
          refine .inr ⟨seat, fun running => ?_, count.trans_le slice⟩
          rw [left, Table.modify_self] at running
          rw [show (s.ptable (mlfq.proc f)).state = .running from running] at switched
          rcases switched with h | h | h <;> cases h
      · exact .inl ⟨(turn.frame_same more resume).trans at_0, held.counts taken at_0 count more resume⟩
    · have off : ∀ c, ∀ g : Frame, s.cpu c = .picked g → a ≠ .dispatch c := by
        intro c g at_c eq
        subst eq
        rw [show c = 0 from one, idle] at at_c
        cases at_c
      refine .inr ⟨turn.idle_stays idle more, not_running (Move.of_step held.sliced.queued.coherent stepped) away off, ?_⟩
      have none : ticksCharged f.p ((s, a) :: new) = ticksCharged f.p new := by simp [ticksCharged, away]
      rwa [none]
  · rcases List.mem_cons.mp member with rfl | earlier
    · cases a with
      | dispatch c =>
        obtain rfl : c = 0 := one
        rcases held.place with ⟨at_0, -⟩ | ⟨idle, -⟩
        · obtain ⟨g, at_c, same⟩ := picked_of_dispatched dispatched
          rw [at_c] at at_0
          cases at_0
          exact same.symm
        · simp [Scheduler.dispatched, idle] at dispatched
      | _ => cases dispatched
    · exact held.alone entry earlier q dispatched

theorem bound (held : Selected f new s) : ticksCharged f.p new ≤ allowed f := by
  rcases held.place with ⟨at_0, count⟩ | ⟨-, -, bound⟩
  · rw [count]
    exact held.sliced.slice.bound at_0
  · exact bound

/-- The scheduler lets go of the process: it is demoted if it has used up its time slice. -/
theorem leaves (held : Selected f new s) (taken : mlfq.Takes s (.resume 0) s') (idle : s'.cpu 0 = .idle) :
    (s'.ptable f.p).queue.toNat = if ticksCharged f.p new = allowed f ∧ f.i < 4 then f.i + 1 else f.i := by
  obtain ⟨g, before, ⟨-, seat, -⟩ | ⟨left, -⟩⟩ := resumed (step_cases taken)
  · rw [idle] at seat
    cases seat
  · rcases held.place with ⟨at_0, count⟩ | ⟨off, -⟩
    · rw [before] at at_0
      cases at_0
      have slice := held.sliced.slice
      rw [before] at slice
      obtain ⟨queue, small⟩ := held.sliced.queued.frames 0 f (by rw [before]; rfl)
      have now : s'.ptable f.p = leave f.i s.ticks (s.ptable f.p) := by
        rw [left]
        exact Table.modify_self ..
      rw [now, count]
      have spent := spent_iff (f := f) (t := s.ptable) slice
      by_cases full : curr s.ptable f = allowed f ∧ f.i < 4
      · have demoted : ((s.ptable f.p).queue + 1).toNat = f.i + 1 := by bv_omega
        have exceeds : Spent f.i (s.ptable f.p) ∧ f.i ≠ 4 := ⟨spent.mpr full.1, by omega⟩
        rw [if_pos full]
        simp only [leave, if_pos exceeds]
        exact demoted
      · have stays : ¬ (Spent f.i (s.ptable f.p) ∧ f.i ≠ 4) := fun exceeds => full ⟨spent.mp exceeds.1, by omega⟩
        rw [if_neg full]
        simp only [leave, if_neg stays]
        exact queue
    · rw [off] at before
      cases before

end Selected

/-- The process in slot `k` moves up a queue because it has waited too long. -/
def Ages (s : State mlfq.Frame) (k : Slot) (p : Proc) : Prop :=
  (s.ptable k).state = .runnable ∧ qMaxTime (s.ptable k).queue.toNat < s.ticks - (s.ptable k).lastWorkingticks ∧
    p.queue = (s.ptable k).queue - 1

/-- Aging and the end of a time slice apart, an existing process keeps its queue. -/
theorem queue_cases (held : Coherent s) (taken : Step mlfq s a s') (exists_k : (s.ptable k).state ≠ .unused) :
    (s'.ptable k).queue = (s.ptable k).queue ∨ (∃ c, a = .start c) ∧ Ages s k (s'.ptable k) ∨
      ∃ c, ∃ f : Frame, a = .resume c ∧ s.cpu c = .back f ∧ f.p = k := by
  have move : Move mlfq s k a (s'.ptable k) := Move.of_step held taken
  generalize s'.ptable k = p at move
  cases move with
  | quiet a p plain old kept woken => exact .inl (by rw [kept])
  | switch a p plain old clock kept before after => exact .inl (by rw [kept])
  | exit c p kept before after => exact .inl (by rw [kept])
  | start c free =>
    rcases start_cases s.ticks s.ptable k with ⟨-, same, -⟩ | ⟨⟨runnable, -, exceeds⟩, queue, -⟩
    · exact .inl same
    · exact .inr (.inl ⟨⟨c, rfl⟩, runnable, exceeds, queue⟩)
  | resume c f at_c =>
    by_cases mine : k = f.p
    · exact .inr (.inr ⟨c, f, rfl, at_c, mine.symm⟩)
    · exact .inl (congrArg Proc.queue (resume_other s.ticks mine))
  | run => exact .inl rfl
  | charge free counted =>
    refine .inl ?_
    unfold Proc.updateRunsandOthers
    cases (s.ptable k).state <;> rfl
  | found c here before => exact absurd before exists_k
  | abandoned => exact .inl rfl
  | ready => exact .inl rfl
  | reaped => exact .inl rfl
  | reapedx => exact .inl rfl

end MLFQ

/-- Time slices and demotion in the MLFQ build on one CPU. A process that is selected from queue `i` is charged at most
    its time slice, and is the only one dispatched, before the scheduler selects again; when the scheduler lets go of
    it, it is demoted if it was charged exactly its time slice and is not in the last queue; and nothing else but
    aging changes the queue of an existing process. -/
theorem mlfq_slices :
    (∀ past new x y s (f : MLFQ.Frame), Path (mlfq.Under OneCpu) mlfq.boot past x → mlfq.Under OneCpu x (.start 0) y →
      y.cpu 0 = .picked f → Path (mlfq.Under OneCpu) y new s → (∀ entry ∈ new, entry.2 ≠ .start 0) →
      (y.ptable f.p).queue.toNat = f.i ∧
      MLFQ.ticksCharged f.p new ≤ (maxTickOfQ f.i).toNat ∧
      (∀ entry ∈ new, ∀ q, mlfq.dispatched entry.1 entry.2 = some q → q = f.p) ∧
      ∀ s', mlfq.Takes s (.resume 0) s' → s'.cpu 0 = .idle → (s'.ptable f.p).queue.toNat =
        if MLFQ.ticksCharged f.p new = (maxTickOfQ f.i).toNat ∧ f.i < 4 then f.i + 1 else f.i) ∧
    ∀ past s a s', Path (mlfq.Under OneCpu) mlfq.boot past s → mlfq.Under OneCpu s a s' → ∀ k,
      (s.ptable k).state ≠ .unused → (s'.ptable k).queue = (s.ptable k).queue ∨
        (∃ c, a = .start c) ∧ MLFQ.Ages s k (s'.ptable k) ∨
        ∃ c, ∃ f : MLFQ.Frame, a = .resume c ∧ s.cpu c = .back f ∧ f.p = k := by
  refine ⟨fun past new x y s f before started picked path more => ?_, fun past s a s' path taken k exists_k => ?_⟩
  · have sliced : MLFQ.Sliced y := (MLFQ.sliced before).step started
    have turn : Turn mlfq x 0 y (.start 0) := Turn.of_step (step_cases started.1) 0
    have fresh : MLFQ.curr y.ptable f = 0 := by
      obtain ⟨-, -, table, seat⟩ := turn.started
      cases chosen : (MLFQ.start x.ticks x.ptable).2 with
      | none =>
        rw [show (mlfq.start x.ticks x.ptable).2 = none from chosen, picked] at seat
        cases seat
      | some g =>
        rw [show (mlfq.start x.ticks x.ptable).2 = some g from chosen, picked] at seat
        cases seat
        rw [table]
        exact MLFQ.start_curr chosen
    have selected : MLFQ.Selected f [] y :=
      ⟨sliced, .inl ⟨by rw [picked]; rfl, fresh.symm⟩, fun _ member => by cases member⟩
    have all : Path (fun s a s' => mlfq.Under OneCpu s a s' ∧ a ≠ .start 0) y new s := path.restrict more
    have last : MLFQ.Selected f new s := all.invariant (I := MLFQ.Selected f) selected
      (fun _ held taken => held.step taken.1 taken.2)
    exact ⟨(sliced.queued.frames 0 f (by rw [picked]; rfl)).1, last.bound, last.alone, fun s' => last.leaves⟩
  · exact MLFQ.queue_cases (MLFQ.sliced path).queued.coherent (step_cases taken.1) exists_k

/-- Right after boot the scheduler has selected init from queue 0. -/
def initSelected : State mlfq.Frame := mlfq.settle mlfq.boot 0 (mlfq.start mlfq.boot.ticks mlfq.boot.ptable)

/-- Init computes for the one tick that queue 0 allows and the scheduler is about to let go of it. -/
theorem mlfq_slices_of_init : ∃ new s,
    Path (mlfq.Under OneCpu) initSelected new s ∧ MLFQ.ticksCharged initproc new = 1 ∧
      (∃ s', mlfq.Takes s (.resume 0) s' ∧ (s'.ptable initproc).queue.toNat = 1) ∧
      ((initSelected.ptable initproc).queue = (mlfq.boot.ptable initproc).queue ∨
        (∃ c, Action.start 0 = .start c) ∧ MLFQ.Ages mlfq.boot initproc (initSelected.ptable initproc) ∨
        ∃ c, ∃ f : MLFQ.Frame, Action.start 0 = .resume c ∧ mlfq.boot.cpu c = .back f ∧ f.p = initproc) := by
  have started : mlfq.Under OneCpu mlfq.boot (.start 0) initSelected := ⟨rfl, rfl⟩
  obtain ⟨new, s, path, reached⟩ := replay_reaches mlfq.step initSelected
    [.dispatch 0, .tick, .charge, .wakeTicks, .yield 0]
    (fun new s => (∀ entry ∈ new, OneCpu entry.1 entry.2) ∧ (∀ entry ∈ new, entry.2 ≠ .start 0) ∧
      MLFQ.ticksCharged initproc new = 1 ∧ (mlfq.step s (.resume 0)).any (fun s' => s'.cpu 0 = .idle)) (by decide +kernel)
  simp only [decide_eq_true_eq] at reached
  obtain ⟨one, more, charged, left⟩ := reached
  obtain ⟨s', resumed, idle⟩ := (Option.any_eq_true _ _).mp left
  simp only [decide_eq_true_eq] at idle
  have run : Path (mlfq.Under OneCpu) initSelected new s := path.restrict one
  have slices := mlfq_slices.1 [] new mlfq.boot initSelected s ⟨0, initproc⟩ .nil started rfl run more
  have queue := slices.2.2.2 s' resumed idle
  rw [charged] at queue
  exact ⟨new, s, run, charged, ⟨s', resumed, queue⟩,
    mlfq_slices.2 [] mlfq.boot (.start 0) initSelected .nil started initproc (by decide)⟩

end Xv6.Sched
