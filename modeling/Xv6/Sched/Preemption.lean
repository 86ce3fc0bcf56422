import Xv6.Sched.Dispatches

namespace Xv6.Sched

open Scheduler Transition

namespace FCFS

variable {s s' : State fcfs.Frame} {a : Action} {past : List (State fcfs.Frame × Action)} {p : Slot} {c : Nat}

/-- `set_priority` does not raise the priority of a process, after which it would yield. -/
def Unyielding (s : State fcfs.Frame) : Action → Prop
  | .assign c =>
    match s.cpu c with
    | .running f _ =>
      match s.task (fcfs.proc f) with
      | .setPriority k priority => (s.ptable k).priority.toInt ≤ priority.toInt
      | _ => True
    | _ => True
  | _ => True

/-- Then nothing ever asks the running process to yield. -/
structure Steady (s : State fcfs.Frame) : Prop where
  calm : ∀ c f i, s.cpu c = .running f i → i = false
  tasks : ∀ p, s.task p ≠ .yielding

theorem Steady.step (held : Steady s) (taken : fcfs.Under Unyielding s a s') : Steady s' := by
  have stepped : Step fcfs s a s' := step_cases taken.1
  refine ⟨fun c f i at_c => ?_, fun p => ?_⟩
  · have turn : Turn fcfs s c s' a := Turn.of_step stepped c
    have seated : ∀ {x : Option fcfs.Frame}, Cpu.seat x ≠ .running f i := by
      intro x
      cases x <;> simp [Cpu.seat]
    cases turn with
    | still a same => exact held.calm c f i (same ▸ at_c)
    | start idle awake free table seat => exact absurd (seat.symm.trans at_c) seated
    | resume g before table seat => exact absurd (seat.symm.trans at_c) seated
    | dispatch g before table seat =>
      rw [seat] at at_c
      cases at_c
      rfl
    | wakeTicks g j zero before seat =>
      rw [seat] at at_c
      cases at_c
      rfl
    | interrupt g before ne yields => cases yields
    | yield g j before awake free due seat =>
      rw [seat] at at_c
      cases at_c
    | leave a g j before awake mine called gone seat =>
      rw [seat] at at_c
      cases at_c
  · have settled : ∀ c turn, (fcfs.settle s c turn).task = s.task := by
      intro c turn
      unfold settle
      cases turn.2 <;> rfl
    have reaped : ∀ c f clear, (fcfs.reap s c f clear).task = s.task := by
      intro c f clear
      rcases fcfs.reap_cases s c f clear with ⟨k, -, eq⟩ | eq | ⟨-, eq⟩
      · rw [eq]
      · rw [eq]
      · rw [eq, Scheduler.sched]
    have updated : ∀ {task : Slot → Task} {q : Slot} {new : Task}, (∀ p, task p ≠ .yielding) → new ≠ .yielding →
        Function.update task q new p ≠ .yielding := by
      intro task q new old ne
      by_cases same : p = q
      · subst same
        rwa [Function.update_self]
      · rw [Function.update_of_ne same]
        exact old p
    cases stepped with
    | start => rw [settled]; exact held.tasks p
    | resume => rw [settled]; exact held.tasks p
    | yield c f i at_c awake free due =>
      rcases due with interrupted | yielding
      · rw [held.calm c f i at_c] at interrupted
        cases interrupted
      · exact absurd yielding (held.tasks _)
    | call a f i s' at_c awake killed called =>
      cases called with
      | wait => rw [reaped]; exact held.tasks p
      | waitx => rw [reaped]; exact held.tasks p
      | fork d np => exact updated (fun q => by
          by_cases same : q = np
          · subst same
            simp
          · rw [Function.update_of_ne same]
            exact held.tasks q) (by simp)
      | forkFails => exact updated held.tasks (by simp)
      | forkDone => exact updated held.tasks (by simp)
      | setPriority => exact updated held.tasks (by simp)
      | assign d k priority free assigning =>
        have lower : (s.ptable k).priority.toInt ≤ priority.toInt := by
          have allowed := taken.2
          simpa only [Unyielding, show s.cpu d = .running f i from at_c, assigning] using allowed
        exact updated held.tasks (by simp [not_lt.mpr lower])
      | _ => exact held.tasks p
    | _ => exact held.tasks p

theorem Steady.boot : Steady fcfs.boot where
  calm _ _ _ at_c := by cases at_c
  tasks _ := by simp [Scheduler.boot]

/-- `p` has gone to sleep or exited. -/
def Gone (p : Slot) (s : State fcfs.Frame) : Prop := (s.ptable p).state = .sleeping ∨ (s.ptable p).state = .zombie

/-- CPU `c` is at `p` until `p` has gone. -/
def Keeps (c : Nat) (p : Slot) (past : List (State fcfs.Frame × Action)) (s : State fcfs.Frame) : Prop :=
  (∃ entry ∈ past, Gone p entry.1) ∨ (∃ i, s.cpu c = .running p i) ∨ s.cpu c = .back p ∧ Gone p s

theorem Keeps.step (keeps : Keeps c p past s) (held : Steady s) (taken : fcfs.Under Unyielding s a s') :
    Keeps c p ((s, a) :: past) s' := by
  rcases keeps with ⟨entry, member, gone⟩ | ⟨i, at_c⟩ | ⟨-, gone⟩
  · exact .inl ⟨entry, .tail _ member, gone⟩
  · have turn : Turn fcfs s c s' a := Turn.of_step (step_cases taken.1) c
    cases turn with
    | still a same => exact .inr (.inl ⟨i, same.trans at_c⟩)
    | start idle =>
      rw [at_c] at idle
      cases idle
    | dispatch g before =>
      rw [at_c] at before
      cases before
    | resume g before =>
      rw [at_c] at before
      cases before
    | wakeTicks g j zero before seat =>
      rw [at_c] at before
      cases before
      exact .inr (.inl ⟨_, seat⟩)
    | interrupt g before ne yields => cases yields
    | yield g j before awake free due =>
      rcases due with interrupted | yielding
      · rw [held.calm c g j before] at interrupted
        cases interrupted
      · exact absurd yielding (held.tasks _)
    | leave a g j before awake mine called gone seat =>
      rw [at_c] at before
      cases before
      exact .inr (.inr ⟨seat, gone⟩)
  · exact .inl ⟨(s, a), .head _, gone⟩

end FCFS

/-- In the FCFS build, as long as `set_priority` does not raise a priority, a CPU comes to its next dispatch only
    after the process it was running has gone to sleep or exited. -/
theorem fcfs_not_preemptive {past mid : List (State fcfs.Frame × Action)} {s₁ s₂ : State fcfs.Frame} {c : Nat} {p q : Slot}
    (path : Path (fcfs.Under FCFS.Unyielding) fcfs.boot (mid ++ (s₁, .dispatch c) :: past) s₂)
    (first : fcfs.dispatched s₁ (.dispatch c) = some p) (second : fcfs.dispatched s₂ (.dispatch c) = some q) :
    ∃ entry ∈ mid, (entry.1.ptable p).state = .sleeping ∨ (entry.1.ptable p).state = .zombie := by
  obtain ⟨early, y, taken, rest⟩ := path.cut
  have steady₁ : FCFS.Steady s₁ := early.always .boot (fun held taken => held.step taken)
  have start : FCFS.Steady y ∧ FCFS.Keeps c p [] y := by
    refine ⟨steady₁.step taken, .inr (.inl ⟨false, ?_⟩)⟩
    have turn : Turn fcfs s₁ c y (.dispatch c) := Turn.of_step (step_cases taken.1) c
    obtain ⟨g, before, seat⟩ := turn.dispatched
    simp only [Scheduler.dispatched, before, Option.some.injEq] at first
    rw [seat]
    exact congrArg (Cpu.running · false) first
  have last := rest.invariant (I := fun mid x => FCFS.Steady x ∧ FCFS.Keeps c p mid x) start
    (fun _ held taken => ⟨held.1.step taken, held.2.step held.1 taken⟩)
  rcases last.2 with found | ⟨i, at_c⟩ | ⟨at_c, -⟩
  · exact found
  · simp [Scheduler.dispatched, at_c] at second
  · simp [Scheduler.dispatched, at_c] at second

/-- The test of `FCFS.Unyielding`. -/
def FCFS.unyielding (s : State fcfs.Frame) : Action → Bool
  | .assign c =>
    match s.cpu c with
    | .running f _ =>
      match s.task (fcfs.proc f) with
      | .setPriority k priority => decide ((s.ptable k).priority.toInt ≤ priority.toInt)
      | _ => true
    | _ => true
  | _ => true

theorem FCFS.unyielding_iff : FCFS.unyielding s a = true ↔ FCFS.Unyielding s a := by
  cases a with
  | assign c =>
    unfold FCFS.unyielding FCFS.Unyielding
    dsimp only
    cases s.cpu c with
    | running f i =>
      dsimp only
      cases s.task (fcfs.proc f) <;> simp only [decide_eq_true_eq]
    | _ => simp only
  | _ => simp only [FCFS.unyielding, FCFS.Unyielding]

instance (s : State fcfs.Frame) (a : Action) : Decidable (FCFS.Unyielding s a) := decidable_of_iff _ FCFS.unyielding_iff

/-- Init waits for its child, which is then dispatched. -/
def waitsRun : List Action := [.start 0, .dispatch 0, .fork 0, .forkDone 0, .wait 0, .resume 0, .start 0]

/-- What the two runs below come to: `q` is about to be dispatched, as `p` was `n` steps ago. -/
def FCFS.Next (p q : Slot) (n : Nat) (past : List (State fcfs.Frame × Action)) (s : State fcfs.Frame) : Prop :=
  fcfs.dispatched s (.dispatch 0) = some q ∧
    ∃ entry ∈ past[n]?, entry.2 = .dispatch 0 ∧ fcfs.dispatched entry.1 (.dispatch 0) = some p

instance (p q : Slot) (n : Nat) (past : List (State fcfs.Frame × Action)) (s : State fcfs.Frame) :
    Decidable (FCFS.Next p q n past s) := inferInstanceAs (Decidable (_ ∧ _))

theorem fcfs_not_preemptive_of_wait : ∃ past mid s₁ s₂,
    Path (fcfs.Under FCFS.Unyielding) fcfs.boot (mid ++ (s₁, .dispatch 0) :: past) s₂ ∧
      fcfs.dispatched s₁ (.dispatch 0) = some initproc ∧ fcfs.dispatched s₂ (.dispatch 0) = some firstChild ∧
      ∃ entry ∈ mid, (entry.1.ptable initproc).state = .sleeping ∨ (entry.1.ptable initproc).state = .zombie := by
  obtain ⟨past, s₂, path, reached⟩ := replay_reaches fcfs.step fcfs.boot waitsRun
    (fun past s => (∀ entry ∈ past, FCFS.Unyielding entry.1 entry.2) ∧ FCFS.Next initproc firstChild 5 past s)
    (by decide +kernel)
  simp only [decide_eq_true_eq] at reached
  obtain ⟨unyielding, second, ⟨s₁, a⟩, here, rfl, first⟩ := reached
  have run : Path (fcfs.Under FCFS.Unyielding) fcfs.boot past s₂ := path.restrict unyielding
  have split := run.split here
  exact ⟨_, _, s₁, s₂, split, first, second, fcfs_not_preemptive split first second⟩

/-- The child raises its own priority while init, which is older, is RUNNABLE again. -/
def preemptedRun : List Action :=
  [.start 0, .dispatch 0, .fork 0, .forkDone 0, .sleep 0 (.other 5), .resume 0, .start 0, .dispatch 0, .wakeup 0 5,
    .setPriority 0 50 2, .assign 0, .yield 0, .resume 0, .start 0]

theorem fcfs_preempted : ¬ ∀ past mid s₁ s₂ c p q,
    Path fcfs.Takes fcfs.boot (mid ++ (s₁, .dispatch c) :: past) s₂ → q ≠ p →
    fcfs.dispatched s₁ (.dispatch c) = some p → fcfs.dispatched s₂ (.dispatch c) = some q →
    ∃ x, (x = s₂ ∨ ∃ entry ∈ mid, x = entry.1) ∧ ((x.ptable p).state = .sleeping ∨ (x.ptable p).state = .zombie) := by
  intro claim
  obtain ⟨past, s₂, path, reached⟩ := replay_reaches fcfs.step fcfs.boot preemptedRun
    (fun past s => FCFS.Next firstChild initproc 6 past s ∧
      (∀ entry ∈ past.take 6, (entry.1.ptable firstChild).state ≠ .sleeping ∧ (entry.1.ptable firstChild).state ≠ .zombie) ∧
      (s.ptable firstChild).state ≠ .sleeping ∧ (s.ptable firstChild).state ≠ .zombie) (by decide +kernel)
  simp only [decide_eq_true_eq] at reached
  obtain ⟨⟨second, ⟨s₁, a⟩, here, rfl, first⟩, awake, last⟩ := reached
  obtain ⟨x, place, gone⟩ := claim _ _ s₁ s₂ 0 firstChild initproc (path.split here) (by decide) first second
  have never : (x.ptable firstChild).state ≠ .sleeping ∧ (x.ptable firstChild).state ≠ .zombie := by
    rcases place with rfl | ⟨entry, member, rfl⟩
    · exact last
    · exact awake entry member
  rcases gone with h | h
  · exact never.1 h
  · exact never.2 h

end Xv6.Sched
