import Xv6.Sched.Dispatches

namespace Xv6.Sched

open Scheduler Transition

variable {S : Scheduler} {s s' x : State S.Frame} {a : Action} {past : List (State S.Frame × Action)} {c d : Nat} {k : Slot}

/-- `c->proc`, which `scheduler` sets before `swtch` and clears after it. -/
def Scheduler.cpuProc (S : Scheduler) (s : State S.Frame) (c : Nat) : Option Slot :=
  match s.cpu c with
  | .idle | .picked _ => none
  | .running f _ | .back f => some (S.proc f)

theorem cpuProc_running {f : S.Frame} {i : Bool} (at_c : s.cpu c = .running f i) : S.cpuProc s c = some (S.proc f) := by
  simp [cpuProc, at_c]

namespace Coherent

theorem cpuProc_some (held : Coherent s) (free : s.lock = none) (at_c : S.cpuProc s c = some k) :
    ∃ f i, s.cpu c = .running f i ∧ S.proc f = k := by
  unfold cpuProc at at_c
  cases at_cpu : s.cpu c with
  | idle => simp [at_cpu] at at_c
  | picked f => simp [at_cpu] at at_c
  | running f i =>
    simp only [at_cpu, Option.some.injEq] at at_c
    exact ⟨f, i, rfl, at_c⟩
  | back f =>
    have mine := (held.back at_cpu).1
    rw [free] at mine
    cases mine

theorem cpuProc_state (held : Coherent s) (free : s.lock = none) (at_c : S.cpuProc s c = some k) :
    (s.ptable k).state = .running := by
  obtain ⟨f, i, at_cpu, rfl⟩ := held.cpuProc_some free at_c
  exact held.running at_cpu

theorem cpuProc_alone (held : Coherent s) (free : s.lock = none) (at_c : S.cpuProc s c = some k)
    (at_d : S.cpuProc s d = some k) : c = d := by
  obtain ⟨f, i, at_cpu, same⟩ := held.cpuProc_some free at_c
  obtain ⟨g, j, at_cpu', same'⟩ := held.cpuProc_some free at_d
  exact held.alone c d f g i j at_cpu at_cpu' (same.trans same'.symm)

theorem dispatched_state (held : Coherent s) (dispatched : S.dispatched s a = some k) :
    (s.ptable k).state = .runnable := by
  cases a with
  | dispatch c =>
    obtain ⟨f, at_c, rfl⟩ := picked_of_dispatched dispatched
    exact (held.picked at_c).2
  | _ => cases dispatched

end Coherent

theorem Move.was_runnable {p : Proc} (move : Move S s k a p) (running : p.state = .running) :
    (s.ptable k).state = .running ∨ (s.ptable k).state = .runnable := by
  cases move with
  | quiet a p plain old kept woken =>
    rcases woken with same | ⟨-, awake⟩
    · exact .inl (same.symm.trans running)
    · rw [awake] at running
      cases running
  | switch a p plain old clock kept before after => exact .inl before
  | exit c p kept before after => exact .inl before
  | start c free => exact .inl ((S.start_books _ _ k).state.symm.trans running)
  | resume c f at_c => exact .inl ((S.resume_books _ _ _ k).state.symm.trans running)
  | run c f at_c same before => exact .inr before
  | charge free counted => exact .inl ((s.ptable k).updateRunsandOthers_state.symm.trans running)
  | found => cases running
  | abandoned => cases running
  | ready => cases running
  | reaped => cases running
  | reapedx => cases running

/-- A process that runs at the end of a run has run all the time or has been RUNNABLE in it. -/
theorem Coherent.passes (held : Coherent x) (path : Path S.Takes x past s) (running : (s.ptable k).state = .running) :
    (x.ptable k).state = .running ∨ ∃ entry ∈ past, (entry.1.ptable k).state = .runnable := by
  induction path with
  | nil => exact .inl running
  | @snoc past y s a before taken ih =>
    have held' : Coherent y := before.always held fun held taken => held.step (step_cases taken)
    rcases (Move.of_step held' (step_cases taken)).was_runnable running with same | runnable
    · rcases ih same with old | ⟨entry, member, waits⟩
      · exact .inl old
      · exact .inr ⟨entry, .tail _ member, waits⟩
    · exact .inr ⟨(y, a), .head _, runnable⟩

/-- A process that is free, under construction or dead. -/
def ProcState.Away (state : ProcState) : Prop := state = .unused ∨ state = .embryo ∨ state = .zombie

/-- In every build and on any number of CPUs a process runs on at most one CPU, and it gets there only by a
    dispatch from RUNNABLE. -/
theorem runs_on_one_cpu (policy : Policy) {past : List (State policy.scheduler.Frame × Action)}
    {s : State policy.scheduler.Frame} (path : Path policy.scheduler.Takes policy.scheduler.boot past s) :
    (s.lock = none → ∀ k, (s.ptable k).state = .running ↔ ∃! c, policy.scheduler.cpuProc s c = some k) ∧
      (s.lock = none → ∀ k c, policy.scheduler.cpuProc s c = some k → ∀ d, d ≠ c →
        policy.scheduler.cpuProc s d = none ∨
          ∃ j, j ≠ k ∧ policy.scheduler.cpuProc s d = some j ∧ (s.ptable j).state = .running) ∧
      (∀ a k, policy.scheduler.dispatched s a = some k → (s.ptable k).state = .runnable) ∧
      ∀ later x a before, past = later ++ (x, a) :: before → ∀ k, (x.ptable k).state.Away →
        (s.ptable k).state = .running → ∃ entry ∈ later, (entry.1.ptable k).state = .runnable := by
  have held : Coherent s := .reached path
  refine ⟨fun free k => ⟨fun running => ?_, fun ⟨c, at_c, _⟩ => held.cpuProc_state free at_c⟩, fun free k c at_c d ne => ?_,
    fun a k => held.dispatched_state, fun later x a before eq k away running => ?_⟩
  · have seated : Coherent s ∧ Seated s :=
      path.always (I := fun s => Coherent s ∧ Seated s) ⟨.boot, .boot⟩
        fun held taken => ⟨held.1.step (step_cases taken), held.2.step held.1 (step_cases taken)⟩
    obtain ⟨c, f, i, at_c, rfl⟩ := seated.2 k running
    exact ⟨c, cpuProc_running at_c, fun d at_d => held.cpuProc_alone free at_d (cpuProc_running at_c)⟩
  · cases at_d : policy.scheduler.cpuProc s d with
    | none => exact .inl rfl
    | some j =>
      refine .inr ⟨j, fun same => ?_, rfl, held.cpuProc_state free at_d⟩
      subst same
      exact ne (held.cpuProc_alone free at_d at_c)
  · subst eq
    obtain ⟨early, y, taken, rest⟩ := path.cut
    have held' : Coherent x := .reached early
    have stepped := step_cases taken
    rcases (held'.step stepped).passes rest running with old | found
    · rcases (Move.of_step held' stepped).was_runnable old with h | h <;>
        rcases away with g | g | g <;> rw [h] at g <;> cases g
    · exact found

/-- Init forks on CPU 0, its child is dispatched on CPU 1, and init comes back to CPU 0. -/
def twoCpusRun : List Action :=
  [.start 0, .dispatch 0, .fork 0, .forkDone 0, .start 1, .dispatch 1, .tick, .charge, .wakeTicks, .yield 0, .resume 0,
    .start 0, .dispatch 0]

theorem runs_on_one_cpu_of_two : ∃ past s, Path Policy.rr.scheduler.Takes Policy.rr.scheduler.boot past s ∧
    s.lock = none ∧ Policy.rr.scheduler.cpuProc s 0 = some initproc ∧ Policy.rr.scheduler.cpuProc s 1 = some firstChild ∧
    (∃! c, Policy.rr.scheduler.cpuProc s c = some initproc) ∧ ∃! c, Policy.rr.scheduler.cpuProc s c = some firstChild := by
  obtain ⟨past, s, path, reached⟩ := replay_reaches rr.step rr.boot twoCpusRun
    (fun _ s => s.lock = none ∧ rr.cpuProc s 0 = some initproc ∧ rr.cpuProc s 1 = some firstChild ∧
      (s.ptable initproc).state = .running ∧ (s.ptable firstChild).state = .running) (by decide +kernel)
  simp only [decide_eq_true_eq] at reached
  obtain ⟨free, first, second, running, running'⟩ := reached
  have unique := (runs_on_one_cpu .rr path).1 free
  exact ⟨past, s, path, free, first, second, (unique initproc).mp running, (unique firstChild).mp running'⟩

end Xv6.Sched
