import Xv6.Sched.System

namespace Xv6.Sched

variable {S : Scheduler}

namespace Scheduler

/-- What the running process of frame `f` can do on CPU `c`. -/
inductive Call (S : Scheduler) (s : State S.Frame) (c : Nat) (f : S.Frame) : Action → State S.Frame → Prop
  | sleep (c' : Nat) (chan : Chan) (free : s.lock = none) (resting : s.task (S.proc f) = .free)
    (settled : chan = .ticks → s.timer = .ready) (other : ∀ p, chan ≠ .proc p) :
    Call S s c f (.sleep c' chan) (S.sched s c f (s.ptable.modify (S.proc f) (·.sleep chan)))
  | exit (c' : Nat) (free : s.lock = none) (resting : s.task (S.proc f) = .free) (ne : S.proc f ≠ initproc) :
    Call S s c f (.exit c') (S.sched s c f (s.ptable.exit (S.proc f) initproc s.ticks))
  | fork (c' : Nat) (np : Slot) (free : s.lock = none) (resting : s.task (S.proc f) = .free)
    (found : s.ptable.unused = some np) :
    Call S s c f (.fork c') { s with
      ptable := s.ptable.modify np (·.found s.nextpid s.ticks)
      nextpid := s.nextpid + 1
      task := Function.update (Function.update s.task np .free) (S.proc f) (.fork np) }
  | full (c' : Nat) (free : s.lock = none) (resting : s.task (S.proc f) = .free) (none : s.ptable.unused = none) :
    Call S s c f (.fork c') s
  | forkFails (c' : Nat) (np : Slot) (forking : s.task (S.proc f) = .fork np) :
    Call S s c f (.forkFails c') { s with
      ptable := s.ptable.modify np .abandoned
      task := Function.update s.task (S.proc f) .free }
  | forkDone (c' : Nat) (np : Slot) (free : s.lock = none) (forking : s.task (S.proc f) = .fork np) :
    Call S s c f (.forkDone c') { s with
      ptable := s.ptable.modify np (·.ready (S.proc f))
      task := Function.update s.task (S.proc f) .free }
  | wait (c' : Nat) (free : s.lock = none) (resting : s.task (S.proc f) = .free) :
    Call S s c f (.wait c') (S.reap s c f .reaped)
  | waitx (c' : Nat) (free : s.lock = none) (resting : s.task (S.proc f) = .free) :
    Call S s c f (.waitx c') (S.reap s c f .reapedx)
  | kill (c' : Nat) (pid : Word) (k : Slot) (free : s.lock = none) (resting : s.task (S.proc f) = .free)
    (found : s.ptable.withPid pid = some k) :
    Call S s c f (.kill c' pid) { s with ptable := s.ptable.modify k .kill }
  | killNone (c' : Nat) (pid : Word) (free : s.lock = none) (none : s.ptable.withPid pid = none) :
    Call S s c f (.kill c' pid) s
  | setPriority (c' : Nat) (priority pid : Word) (k : Slot) (resting : s.task (S.proc f) = .free)
    (found : s.ptable.withPid pid = some k) (low : -1 < priority.toInt) (high : priority.toInt ≤ 100) :
    Call S s c f (.setPriority c' priority pid)
      { s with task := Function.update s.task (S.proc f) (.setPriority k priority) }
  | refuse (c' : Nat) (priority pid : Word) (resting : s.task (S.proc f) = .free) :
    Call S s c f (.setPriority c' priority pid) s
  | assign (c' : Nat) (k : Slot) (priority : Word) (free : s.lock = none)
    (assigning : s.task (S.proc f) = .setPriority k priority) :
    Call S s c f (.assign c') { s with
      ptable := s.ptable.modify k (·.setPriority priority)
      task := Function.update s.task (S.proc f)
        (if priority.toInt < (s.ptable k).priority.toInt then .yielding else .free) }
  | fault (c' : Nat) :
    Call S s c f (.fault c') { s with ptable := s.ptable.modify (S.proc f) .fault }

inductive Step (S : Scheduler) (s : State S.Frame) : Action → State S.Frame → Prop
  | start (c : Nat) (idle : s.cpu c = .idle) (awake : s.Awake c) (free : s.lock = none) :
    Step S s (.start c) (S.settle s c (S.start s.ticks s.ptable))
  | dispatch (c : Nat) (f : S.Frame) (at_c : s.cpu c = .picked f) : Step S s (.dispatch c) (S.swtch s c f)
  | resume (c : Nat) (f : S.Frame) (at_c : s.cpu c = .back f) :
    Step S s (.resume c) (S.settle s c (S.resume s.ticks f s.ptable))
  | tick (at_0 : s.cpu 0 = .idle ∨ ∃ f, s.cpu 0 = .running f false) (ready : s.timer = .ready) :
    Step S s .tick { s with ticks := s.ticks + 1, timer := .counted }
  | charge (counted : s.timer = .counted) (free : s.lock = none) :
    Step S s .charge { s with ptable := s.ptable.updateRunsandOthers, timer := .charged }
  | wakeTicks (cpu : Nat → Cpu S.Frame) (charged : s.timer = .charged) (free : s.lock = none)
    (others : ∀ c, c ≠ 0 → cpu c = s.cpu c)
    (at_0 : cpu 0 = s.cpu 0 ∧ (∀ f i, s.cpu 0 ≠ .running f i) ∨
      ∃ f i, s.cpu 0 = .running f i ∧ cpu 0 = .running f S.timerYields) :
    Step S s .wakeTicks { s with ptable := s.ptable.wakeup1 .ticks, timer := .ready, cpu := cpu }
  | interrupt (c : Nat) (f : S.Frame) (at_c : s.cpu c = .running f false) (ne : c ≠ 0) (yields : S.timerYields = true) :
    Step S s (.interrupt c) { s with cpu := Function.update s.cpu c (.running f true) }
  | wakeup (c address : Nat) (awake : s.Awake c) (free : s.lock = none) :
    Step S s (.wakeup c address) { s with ptable := s.ptable.wakeup1 (.other address) }
  | yield (c : Nat) (f : S.Frame) (interrupted : Bool) (at_c : s.cpu c = .running f interrupted) (awake : s.Awake c)
    (free : s.lock = none) (due : interrupted = true ∨ s.task (S.proc f) = .yielding) :
    Step S s (.yield c) { S.sched s c f (s.ptable.modify (S.proc f) .yield) with
      task := if interrupted then s.task else Function.update s.task (S.proc f) .free }
  | call (a : Action) (f : S.Frame) (interrupted : Bool) (s' : State S.Frame)
    (at_c : s.cpu a.cpu = .running f interrupted) (awake : s.Awake a.cpu)
    (killed : interrupted = true → (s.ptable (S.proc f)).killed = true) (called : Call S s a.cpu f a s') :
    Step S s a s'

theorem call_cases {s s' : State S.Frame} {c : Nat} {f : S.Frame} {a : Action} (taken : S.call s c f a = some s') :
    Call S s c f a s' := by
  cases a with
  | sleep c' chan =>
    simp only [call, Option.ite_none_right_eq_some, Option.some.injEq] at taken
    obtain ⟨⟨free, resting, settled, other⟩, rfl⟩ := taken
    exact .sleep c' chan free resting settled other
  | exit c' =>
    simp only [call, Option.ite_none_right_eq_some, Option.some.injEq] at taken
    obtain ⟨⟨free, resting, ne⟩, rfl⟩ := taken
    exact .exit c' free resting ne
  | fork c' =>
    simp only [call, Option.ite_none_right_eq_some] at taken
    obtain ⟨⟨free, resting⟩, taken⟩ := taken
    cases found : s.ptable.unused with
    | some np =>
      simp only [found, Option.some.injEq] at taken
      subst taken
      exact .fork c' np free resting found
    | none =>
      simp only [found, Option.some.injEq] at taken
      subst taken
      exact .full c' free resting found
  | forkFails c' =>
    simp only [call] at taken
    cases forking : s.task (S.proc f) with
    | fork np =>
      simp only [forking, Option.some.injEq] at taken
      subst taken
      exact .forkFails c' np forking
    | _ => simp [forking] at taken
  | forkDone c' =>
    simp only [call] at taken
    cases forking : s.task (S.proc f) with
    | fork np =>
      simp only [forking, Option.ite_none_right_eq_some, Option.some.injEq] at taken
      obtain ⟨free, rfl⟩ := taken
      exact .forkDone c' np free forking
    | _ => simp [forking] at taken
  | wait c' =>
    simp only [call, Option.ite_none_right_eq_some, Option.some.injEq] at taken
    obtain ⟨⟨free, resting⟩, rfl⟩ := taken
    exact .wait c' free resting
  | waitx c' =>
    simp only [call, Option.ite_none_right_eq_some, Option.some.injEq] at taken
    obtain ⟨⟨free, resting⟩, rfl⟩ := taken
    exact .waitx c' free resting
  | kill c' pid =>
    simp only [call, Option.ite_none_right_eq_some] at taken
    obtain ⟨⟨free, resting⟩, taken⟩ := taken
    cases found : s.ptable.withPid pid with
    | some k =>
      simp only [found, Option.some.injEq] at taken
      subst taken
      exact .kill c' pid k free resting found
    | none =>
      simp only [found, Option.some.injEq] at taken
      subst taken
      exact .killNone c' pid free found
  | setPriority c' priority pid =>
    simp only [call, Option.ite_none_right_eq_some] at taken
    obtain ⟨resting, taken⟩ := taken
    cases found : s.ptable.withPid pid with
    | some k =>
      simp only [found] at taken
      by_cases refused : priority.toInt ≤ -1 ∨ 100 < priority.toInt
      · simp only [refused, if_true, Option.some.injEq] at taken
        subst taken
        exact .refuse c' priority pid resting
      · simp only [refused, if_false, Option.some.injEq] at taken
        subst taken
        exact .setPriority c' priority pid k resting found (by omega) (by omega)
    | none =>
      simp only [found, Option.some.injEq] at taken
      subst taken
      exact .refuse c' priority pid resting
  | assign c' =>
    simp only [call] at taken
    cases assigning : s.task (S.proc f) with
    | setPriority k priority =>
      simp only [assigning, Option.ite_none_right_eq_some, Option.some.injEq] at taken
      obtain ⟨free, rfl⟩ := taken
      exact .assign c' k priority free assigning
    | _ => simp [assigning] at taken
  | fault c' =>
    simp only [call, Option.some.injEq] at taken
    subst taken
    exact .fault c'
  | _ => simp [call] at taken

theorem step_call {s : State S.Frame} {a : Action} {f : S.Frame} {interrupted : Bool} (isCall : a.isCall = true)
    (at_c : s.cpu a.cpu = .running f interrupted) :
    S.step s a =
      if s.Awake a.cpu ∧ (interrupted → (s.ptable (S.proc f)).killed) then S.call s a.cpu f a else none := by
  cases a <;> first | exact absurd isCall Bool.false_ne_true | simp only [step, at_c]

theorem step_away {s : State S.Frame} {a : Action} (isCall : a.isCall = true)
    (away : ∀ f i, s.cpu a.cpu ≠ .running f i) : S.step s a = none := by
  cases at_c : s.cpu a.cpu with
  | running f i => exact absurd at_c (away f i)
  | _ => cases a <;> first | exact absurd isCall Bool.false_ne_true | simp only [step, at_c]

theorem step_cases {s s' : State S.Frame} {a : Action} (taken : S.step s a = some s') : Step S s a s' := by
  have called : a.isCall = true → Step S s a s' := by
    intro isCall
    by_cases away : ∀ f i, s.cpu a.cpu ≠ .running f i
    · rw [step_away isCall away] at taken
      cases taken
    · obtain ⟨f, interrupted, at_c⟩ : ∃ f i, s.cpu a.cpu = .running f i := by
        simpa only [ne_eq, not_forall, not_not] using away
      rw [step_call isCall at_c, Option.ite_none_right_eq_some] at taken
      obtain ⟨⟨awake, killed⟩, taken⟩ := taken
      exact .call a f interrupted s' at_c awake killed (call_cases taken)
  cases a with
  | start c =>
    simp only [step] at taken
    cases at_c : s.cpu c with
    | idle =>
      simp only [at_c, Option.ite_none_right_eq_some, Option.some.injEq] at taken
      obtain ⟨⟨awake, free⟩, rfl⟩ := taken
      exact .start c at_c awake free
    | _ => simp [at_c] at taken
  | dispatch c =>
    simp only [step] at taken
    cases at_c : s.cpu c with
    | picked f =>
      simp only [at_c, Option.some.injEq] at taken
      subst taken
      exact .dispatch c f at_c
    | _ => simp [at_c] at taken
  | resume c =>
    simp only [step] at taken
    cases at_c : s.cpu c with
    | back f =>
      simp only [at_c, Option.some.injEq] at taken
      subst taken
      exact .resume c f at_c
    | _ => simp [at_c] at taken
  | tick =>
    simp only [step] at taken
    cases at_0 : s.cpu 0 with
    | idle =>
      simp only [at_0, Option.ite_none_right_eq_some, Option.some.injEq] at taken
      obtain ⟨ready, rfl⟩ := taken
      exact .tick (.inl at_0) ready
    | running f interrupted =>
      cases interrupted with
      | false =>
        simp only [at_0, Option.ite_none_right_eq_some, Option.some.injEq] at taken
        obtain ⟨ready, rfl⟩ := taken
        exact .tick (.inr ⟨f, at_0⟩) ready
      | true => simp [at_0] at taken
    | _ => simp [at_0] at taken
  | charge =>
    simp only [step, Option.ite_none_right_eq_some, Option.some.injEq] at taken
    obtain ⟨⟨counted, free⟩, rfl⟩ := taken
    exact .charge counted free
  | wakeTicks =>
    simp only [step, Option.ite_none_right_eq_some, Option.some.injEq] at taken
    obtain ⟨⟨charged, free⟩, rfl⟩ := taken
    cases at_0 : s.cpu 0 with
    | running f interrupted =>
      exact .wakeTicks _ charged free (fun c ne => by simp [ne]) (.inr ⟨f, interrupted, at_0, by simp⟩)
    | idle => exact .wakeTicks _ charged free (fun _ _ => rfl) (.inl ⟨rfl, by simp [at_0]⟩)
    | picked f => exact .wakeTicks _ charged free (fun _ _ => rfl) (.inl ⟨rfl, by simp [at_0]⟩)
    | back f => exact .wakeTicks _ charged free (fun _ _ => rfl) (.inl ⟨rfl, by simp [at_0]⟩)
  | interrupt c =>
    simp only [step] at taken
    cases at_c : s.cpu c with
    | running f interrupted =>
      cases interrupted with
      | false =>
        simp only [at_c, Option.ite_none_right_eq_some, Option.some.injEq] at taken
        obtain ⟨⟨ne, yields⟩, rfl⟩ := taken
        exact .interrupt c f at_c ne yields
      | true => simp [at_c] at taken
    | _ => simp [at_c] at taken
  | wakeup c address =>
    simp only [step] at taken
    cases at_c : s.cpu c with
    | idle =>
      simp only [at_c, Option.ite_none_right_eq_some, Option.some.injEq] at taken
      obtain ⟨⟨awake, free⟩, rfl⟩ := taken
      exact .wakeup c address awake free
    | running f interrupted =>
      simp only [at_c, Option.ite_none_right_eq_some, Option.some.injEq] at taken
      obtain ⟨⟨awake, free⟩, rfl⟩ := taken
      exact .wakeup c address awake free
    | _ => simp [at_c] at taken
  | yield c =>
    simp only [step] at taken
    cases at_c : s.cpu c with
    | running f interrupted =>
      simp only [at_c, Option.ite_none_right_eq_some, Option.some.injEq] at taken
      obtain ⟨⟨awake, free, due⟩, rfl⟩ := taken
      exact .yield c f interrupted at_c awake free due
    | _ => simp [at_c] at taken
  | _ => exact called rfl

end Scheduler

end Xv6.Sched
