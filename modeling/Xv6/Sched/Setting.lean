import Xv6.Sched.Identifiers

namespace Xv6.Sched

open Scheduler Transition

/-- The slot that `set_priority` has found and not yet set. -/
def Task.target : Task → Option Slot
  | .setPriority k _ => some k
  | _ => none

/-- Some call of `set_priority` is about to set the slot. -/
def State.Sought {Frame : Type} (s : State Frame) (k : Slot) : Prop := ∃ p, (s.task p).target = some k

instance {Frame : Type} (s : State Frame) (k : Slot) : Decidable (s.Sought k) :=
  inferInstanceAs (Decidable (∃ p, (s.task p).target = some k))

namespace Scheduler

variable (S : Scheduler)

/-- The pid in a call of `set_priority` by process `p`. -/
def asks (p : Slot) (entry : State S.Frame × Action) : Option Word :=
  match entry.2 with
  | .setPriority c _ pid => if S.caller entry.1 c = some p then some pid else none
  | _ => none

def asked (past : List (State S.Frame × Action)) (p : Slot) : Option Word := past.findSome? (S.asks p)

/-- The value that the critical section of `set_priority` on CPU `c` reads, to return it. -/
def setPriorityReturns (s : State S.Frame) (c : Nat) : Option Word :=
  (S.caller s c).bind fun p => (s.task p).target.map fun k => (s.ptable k).priority

end Scheduler

variable {S : Scheduler} {s s' : State S.Frame} {a : Action} {past : List (State S.Frame × Action)} {k p : Slot}

/-- The critical section of `set_priority` changes the priority of the process that the call has named, which
    has not been reaped, and nothing else; it returns the priority that this process had. -/
def SetsNamed (S : Scheduler) (past : List (State S.Frame × Action)) (s : State S.Frame) (a : Action)
    (s' : State S.Frame) : Prop :=
  ∀ c p k priority, a = .assign c → S.caller s c = some p → s.task p = .setPriority k priority →
    ∃ pid, S.asked past p = some pid ∧ (s.ptable k).state ≠ .unused ∧ (s.ptable k).pid = pid ∧
      s'.ptable = s.ptable.modify k (·.setPriority priority) ∧
      S.setPriorityReturns s c = some (s.ptable k).priority

/-- The search of `set_priority` does not stop at an UNUSED slot, and between search and critical section nobody
    reaps the slot or gives it up in a failing `fork`. -/
def Steady (S : Scheduler) (s : State S.Frame) : Action → Prop
  | .setPriority _ priority pid => ∀ k, s.ptable.setPriorityFinds priority pid = some k → (s.ptable k).state ≠ .unused
  | .wait c => ∀ p k, S.reaped s (.wait c) = some (p, k) → ¬s.Sought k
  | .waitx c => ∀ p k, S.reaped s (.waitx c) = some (p, k) → ¬s.Sought k
  | .forkFails c => ∀ k, S.forking s c = some k → ¬s.Sought k
  | _ => True

def steady (S : Scheduler) (s : State S.Frame) : Action → Bool
  | .setPriority _ priority pid =>
    decide (∀ k, s.ptable.setPriorityFinds priority pid = some k → (s.ptable k).state ≠ .unused)
  | .wait c => decide (∀ p k, S.reaped s (.wait c) = some (p, k) → ¬s.Sought k)
  | .waitx c => decide (∀ p k, S.reaped s (.waitx c) = some (p, k) → ¬s.Sought k)
  | .forkFails c => decide (∀ k, S.forking s c = some k → ¬s.Sought k)
  | _ => true

theorem steady_iff : steady S s a = true ↔ Steady S s a := by
  cases a <;> simp only [steady, Steady, decide_eq_true_eq]

instance (s : State S.Frame) (a : Action) : Decidable (Steady S s a) := decidable_of_iff _ steady_iff

theorem of_update {task : Slot → Task} {q : Slot} {other : Task} {priority : Word} (idle : other.target = none)
    (set : Function.update task q other p = .setPriority k priority) : task p = .setPriority k priority := by
  by_cases same : p = q
  · rw [same, Function.update_self] at set
    rw [set] at idle
    cases idle
  · rwa [Function.update_of_ne same] at set

theorem settle_task (s : State S.Frame) (c : Nat) (turn : Table × Option S.Frame) : (S.settle s c turn).task = s.task := by
  unfold settle
  cases turn.2 with
  | some f => rfl
  | none => rfl

theorem reap_task (s : State S.Frame) (c : Nat) (f : S.Frame) (clear : Proc → Proc) :
    (S.reap s c f clear).task = s.task := by
  rcases S.reap_cases s c f clear with ⟨j, -, reaped⟩ | same | ⟨-, slept⟩
  · rw [reaped]
  · rw [same]
  · rw [slept]
    rfl

/-- Where a task of `set_priority` comes from: it was there and its process has not asked again, or the search
    has just found the slot. -/
def Continues (S : Scheduler) (s : State S.Frame) (a : Action) (s' : State S.Frame) (p k : Slot) (priority : Word) :
    Prop :=
  s.task p = .setPriority k priority ∧ S.asks p (s, a) = none ∨
    ∃ c pid, a = .setPriority c priority pid ∧ S.caller s c = some p ∧
      s.ptable.setPriorityFinds priority pid = some k ∧ s'.ptable = s.ptable

theorem call_continues {f : S.Frame} {i : Bool} (at_c : s.cpu a.cpu = .running f i) (called : Call S s a.cpu f a s')
    {priority : Word} (set : s'.task p = .setPriority k priority) : Continues S s a s' p k priority := by
  have caller : S.caller s a.cpu = some (S.proc f) := by simp [Scheduler.caller, at_c]
  cases called with
  | sleep => exact .inl ⟨set, rfl⟩
  | exit => exact .inl ⟨set, rfl⟩
  | fork c np => exact .inl ⟨of_update rfl (of_update rfl set), rfl⟩
  | full => exact .inl ⟨set, rfl⟩
  | forkFails => exact .inl ⟨of_update rfl set, rfl⟩
  | forkDone => exact .inl ⟨of_update rfl set, rfl⟩
  | wait c =>
    rw [reap_task] at set
    exact .inl ⟨set, rfl⟩
  | waitx c =>
    rw [reap_task] at set
    exact .inl ⟨set, rfl⟩
  | kill => exact .inl ⟨set, rfl⟩
  | killNone => exact .inl ⟨set, rfl⟩
  | setPriority c priority' pid j resting found low high =>
    by_cases same : p = S.proc f
    · subst same
      dsimp only at set
      rw [Function.update_self] at set
      cases set
      refine .inr ⟨c, pid, rfl, caller, ?_, rfl⟩
      rw [Table.setPriorityFinds, if_neg (by omega), found]
    · dsimp only at set
      rw [Function.update_of_ne same] at set
      refine .inl ⟨set, if_neg fun calls => same ?_⟩
      exact Option.some.inj (calls.symm.trans caller)
  | refuse c priority' pid resting =>
    refine .inl ⟨set, if_neg fun calls => ?_⟩
    have own : p = S.proc f := Option.some.inj (calls.symm.trans caller)
    rw [own, resting] at set
    cases set
  | assign c j priority' free assigning =>
    refine .inl ⟨of_update ?_ set, rfl⟩
    split <;> rfl
  | fault => exact .inl ⟨set, rfl⟩

theorem step_continues (stepped : Step S s a s') {priority : Word} (set : s'.task p = .setPriority k priority) :
    Continues S s a s' p k priority := by
  cases stepped with
  | start c =>
    rw [settle_task] at set
    exact .inl ⟨set, rfl⟩
  | dispatch => exact .inl ⟨set, rfl⟩
  | resume c =>
    rw [settle_task] at set
    exact .inl ⟨set, rfl⟩
  | tick => exact .inl ⟨set, rfl⟩
  | charge => exact .inl ⟨set, rfl⟩
  | wakeTicks => exact .inl ⟨set, rfl⟩
  | interrupt => exact .inl ⟨set, rfl⟩
  | wakeup => exact .inl ⟨set, rfl⟩
  | yield c f interrupted =>
    refine .inl ⟨?_, rfl⟩
    cases interrupted with
    | true => exact set
    | false => exact of_update rfl set
  | call a f i s' at_c awake killed called => exact call_continues at_c called set

/-- What a pending call of `set_priority` has found is still the process that it has named. -/
structure Aimed (past : List (State S.Frame × Action)) (s : State S.Frame) : Prop where
  coherent : Coherent s
  found : ∀ p k priority, s.task p = .setPriority k priority →
    ∃ pid, S.asked past p = some pid ∧ (s.ptable k).state ≠ .unused ∧ (s.ptable k).pid = pid

namespace Aimed

theorem kept {q : Proc} (steady : Steady S s a) (sought : s.Sought k)
    (used : (s.ptable k).state ≠ .unused) (fate : Fate S s k a q) : q.state ≠ .unused ∧ q.pid = (s.ptable k).pid := by
  cases fate with
  | quiet a q same => exact ⟨fun unused => used (same.unused unused), same.pid⟩
  | left c e other exits mortal =>
    have same := s.ptable.left_same e initproc k
    exact ⟨fun unused => used (same.unused unused), same.pid⟩
  | exit c exits before mortal =>
    have same := s.ptable.left_same k initproc k
    refine ⟨?_, same.pid⟩
    intro unused
    cases unused
  | found c here before => exact absurd before used
  | abandoned c forking before => exact absurd sought (steady k forking)
  | reaped a parent returned before clear clears =>
    have spared : ¬s.Sought k := by
      cases a with
      | wait c => exact steady parent k returned
      | waitx c => exact steady parent k returned
      | _ => cases returned
    exact absurd sought spared
  | kill c pid here => exact ⟨fun unused => used (Proc.kill_unused unused), rfl⟩
  | fault c before => exact ⟨used, rfl⟩
  | run c before =>
    refine ⟨?_, rfl⟩
    intro unused
    cases unused
  | sleep =>
    refine ⟨?_, rfl⟩
    intro unused
    cases unused
  | ready =>
    refine ⟨?_, rfl⟩
    intro unused
    cases unused

theorem step (held : Aimed past s) (taken : S.Under (Steady S) s a s') : Aimed ((s, a) :: past) s' := by
  have stepped := step_cases taken.1
  refine ⟨held.coherent.step stepped, fun p k priority set => ?_⟩
  rcases step_continues stepped set with ⟨before, silent⟩ | ⟨c, pid, rfl, calls, found, same⟩
  · obtain ⟨pid, last, used, named⟩ := held.found p k priority before
    have sought : s.Sought k := ⟨p, by rw [before]; rfl⟩
    obtain ⟨used', named'⟩ := kept taken.2 sought used (.of_step held.coherent stepped)
    refine ⟨pid, ?_, used', named'.trans named⟩
    rw [Scheduler.asked, List.findSome?_cons, silent]
    exact last
  · refine ⟨pid, ?_, ?_, ?_⟩
    · rw [Scheduler.asked, List.findSome?_cons]
      simp [Scheduler.asks, calls]
    · rw [same]
      exact taken.2 k found
    · rw [same]
      exact Table.withPid_pid (Table.withPid_of_finds found)

theorem boot : Aimed (S := S) [] S.boot := ⟨.boot, fun p k priority set => by cases set⟩

end Aimed

/-- In every build and on any number of CPUs: as long as no slot that a call of `set_priority` has found is given
    up before the call has set it, the call changes the process that it has named. -/
theorem set_priority_sets_named (policy : Policy) {past : List (State policy.scheduler.Frame × Action)}
    {s s' : State policy.scheduler.Frame} {a : Action}
    (path : Path (policy.scheduler.Under (Steady policy.scheduler)) policy.scheduler.boot past s)
    (taken : policy.scheduler.Under (Steady policy.scheduler) s a s') : SetsNamed policy.scheduler past s a s' := by
  have held : Aimed past s := path.invariant .boot fun _ held taken => held.step taken
  intro c p k priority assigns calls task
  subst assigns
  obtain ⟨pid, asked, used, named⟩ := held.found p k priority task
  refine ⟨pid, asked, used, named, ?_, ?_⟩
  · cases step_cases taken.1 with
    | call a f i s' at_c awake killed called =>
      have own : policy.scheduler.proc f = p := by
        rw [caller, show s.cpu c = .running f i from at_c] at calls
        exact Option.some.inj calls
      cases called with
      | assign c j priority' free assigning =>
        rw [own, task] at assigning
        cases assigning
        rfl
  · rw [setPriorityReturns, calls, Option.bind_some, task]
    rfl

/-- Init looks for process 3 and finds it in its slot; the process exits, its parent reaps it and forks again, and
    the new process in the slot gets the priority. -/
def recycledRun : List Action :=
  [.start 0, .dispatch 0, .fork 0, .forkDone 0, .start 1, .dispatch 1, .fork 1, .forkDone 1, .start 2, .dispatch 2,
   .setPriority 0 50 3, .exit 2, .resume 2, .wait 1, .fork 1]

theorem recycled_slot_set : ¬ ∀ (policy : Policy) past s, Path policy.scheduler.Takes policy.scheduler.boot past s →
    ∀ a s', policy.scheduler.Takes s a s' → SetsNamed policy.scheduler past s a s' := by
  intro claim
  obtain ⟨past, s, path, reached⟩ := replay_reaches rr.step rr.boot recycledRun
    (fun past s => (rr.step s (.assign 0)).isSome ∧ rr.caller s 0 = some initproc ∧
      s.task initproc = .setPriority ⟨2, by decide⟩ 50 ∧ rr.asked past initproc = some 3 ∧
      (s.ptable ⟨2, by decide⟩).pid = 4) (by decide +kernel)
  simp only [decide_eq_true_eq] at reached
  obtain ⟨taken, calls, task, asked, named⟩ := reached
  obtain ⟨s', taken⟩ := Option.isSome_iff_exists.mp taken
  obtain ⟨pid, asked', -, named', -⟩ := claim .rr past s path _ s' taken 0 initproc _ 50 rfl calls task
  have asked_3 : pid = 3 := Option.some.inj (asked'.symm.trans asked)
  rw [asked_3] at named'
  exact absurd (named.symm.trans named') (by decide)

/-- Without the race the call reaches its process. -/
theorem set_priority_sets_named_of_steady : ∃ past s s',
    Path (Policy.rr.scheduler.Under (Steady _)) Policy.rr.scheduler.boot past s ∧
      SetsNamed Policy.rr.scheduler past s (.assign 0) s' ∧ Policy.rr.scheduler.caller s 0 = some initproc := by
  obtain ⟨past, s, path, reached⟩ := replay_reaches rr.step rr.boot [.start 0, .dispatch 0, .setPriority 0 50 1]
    (fun past s => (∀ entry ∈ past, Steady rr entry.1 entry.2) ∧ (rr.step s (.assign 0)).isSome ∧
      rr.caller s 0 = some initproc) (by decide +kernel)
  simp only [decide_eq_true_eq] at reached
  obtain ⟨steady, taken, calls⟩ := reached
  obtain ⟨s', taken⟩ := Option.isSome_iff_exists.mp taken
  have path' := path.restrict steady
  exact ⟨past, s, s', path', set_priority_sets_named .rr path' ⟨taken, trivial⟩, calls⟩

end Xv6.Sched
