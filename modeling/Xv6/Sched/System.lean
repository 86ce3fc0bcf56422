import Xv6.Library.Transition
import Xv6.Sched.Policies

namespace Xv6.Sched

/-- Where a CPU is. `ptable.lock` is held in `picked` and `back`; `running` remembers a timer
    interrupt whose `yield` is still to come. -/
inductive Cpu (Frame : Type) where
  | idle
  | picked (f : Frame)
  | running (f : Frame) (interrupted : Bool)
  | back (f : Frame)
  deriving DecidableEq

/-- How far CPU 0 is in the timer interrupt. -/
inductive Timer where
  | ready
  | counted
  | charged
  deriving DecidableEq

/-- What the kernel thread of a process is in the middle of. -/
inductive Task where
  | free
  | fork (np : Slot)
  | setPriority (p : Slot) (priority : Word)
  | yielding
  deriving DecidableEq

structure State (Frame : Type) where
  ptable : Table
  ticks : Word
  nextpid : Word
  cpu : Nat → Cpu Frame
  lock : Option Nat
  timer : Timer
  task : Slot → Task

/-- `userinit` gets the first slot of the empty table. -/
def initproc : Slot := ⟨0, nproc_pos⟩

/-- The steps of the CPUs. The first three belong to `scheduler`, the next four to the timer
    interrupt, `wakeup` to any other interrupt or system call, the rest to the running process. -/
inductive Action where
  | start (c : Nat)
  | dispatch (c : Nat)
  | resume (c : Nat)
  | tick
  | charge
  | wakeTicks
  | interrupt (c : Nat)
  | wakeup (c : Nat) (address : Nat)
  | yield (c : Nat)
  | sleep (c : Nat) (chan : Chan)
  | exit (c : Nat)
  | fork (c : Nat)
  | forkFails (c : Nat)
  | forkDone (c : Nat)
  | wait (c : Nat)
  | waitx (c : Nat)
  | kill (c : Nat) (pid : Word)
  | setPriority (c : Nat) (priority pid : Word)
  | assign (c : Nat)
  | fault (c : Nat)
  deriving DecidableEq

def Action.cpu : Action → Nat
  | .start c | .dispatch c | .resume c | .interrupt c | .wakeup c _ | .yield c | .sleep c _ | .exit c
  | .fork c | .forkFails c | .forkDone c | .wait c | .waitx c | .kill c _ | .setPriority c _ _
  | .assign c | .fault c => c
  | .tick | .charge | .wakeTicks => 0

/-- The steps that only the running process takes, `yield` apart. -/
def Action.isCall : Action → Bool
  | .start _ | .dispatch _ | .resume _ | .tick | .charge | .wakeTicks | .interrupt _ | .wakeup _ _ | .yield _ => false
  | _ => true

def Cpu.frame {Frame : Type} : Cpu Frame → Option Frame
  | .idle => none
  | .picked f | .running f _ | .back f => some f

/-- CPU 0 does nothing else while it is in the timer interrupt. -/
def State.Awake {Frame : Type} (s : State Frame) (c : Nat) : Prop := c = 0 → s.timer = .ready

instance {Frame : Type} (s : State Frame) (c : Nat) : Decidable (s.Awake c) :=
  inferInstanceAs (Decidable (c = 0 → s.timer = .ready))

namespace Scheduler

variable (S : Scheduler)

/-- What the scheduler of CPU `c` has come to. -/
def settle (s : State S.Frame) (c : Nat) (turn : Table × Option S.Frame) : State S.Frame :=
  match turn.2 with
  | some f => { s with ptable := turn.1, cpu := Function.update s.cpu c (.picked f), lock := some c }
  | none => { s with ptable := turn.1, cpu := Function.update s.cpu c .idle, lock := none }

/-- The process of frame `f` gives up CPU `c` with the table `t`, holding the lock. -/
def sched (s : State S.Frame) (c : Nat) (f : S.Frame) (t : Table) : State S.Frame :=
  { s with ptable := t, cpu := Function.update s.cpu c (.back f), lock := some c }

/-- The scheduler goes to the process of frame `f`, which releases the lock. A sleeper that was woken
    clears `chan` first. -/
def swtch (s : State S.Frame) (c : Nat) (f : S.Frame) : State S.Frame :=
  { s with
    ptable := s.ptable.modify (S.proc f) (·.run s.ticks)
    cpu := Function.update s.cpu c (.running f false)
    lock := none }

/-- The critical section of `wait` and `waitx`, which clear a reaped slot differently. -/
def reap (s : State S.Frame) (c : Nat) (f : S.Frame) (clear : Proc → Proc) : State S.Frame :=
  match s.ptable.zombieOf (S.proc f) with
  | some k => { s with ptable := s.ptable.modify k clear }
  | none =>
    if ¬ s.ptable.haveKids (S.proc f) ∨ (s.ptable (S.proc f)).killed then s
    else S.sched s c f (s.ptable.modify (S.proc f) (·.sleep (.proc (S.proc f))))

/-- A step of the process that executes on CPU `c` with frame `f`. -/
def call (s : State S.Frame) (c : Nat) (f : S.Frame) : Action → Option (State S.Frame)
  | .sleep _ chan =>
    if s.lock = none ∧ s.task (S.proc f) = .free ∧ (chan = .ticks → s.timer = .ready) ∧ ∀ p, chan ≠ .proc p then
      some (S.sched s c f (s.ptable.modify (S.proc f) (·.sleep chan)))
    else none
  | .exit _ =>
    if s.lock = none ∧ s.task (S.proc f) = .free ∧ S.proc f ≠ initproc then
      some (S.sched s c f (s.ptable.exit (S.proc f) initproc s.ticks))
    else none
  | .fork _ =>
    if s.lock = none ∧ s.task (S.proc f) = .free then
      match s.ptable.unused with
      | some np =>
        some { s with
          ptable := s.ptable.modify np (·.found s.nextpid s.ticks)
          nextpid := s.nextpid + 1
          task := Function.update (Function.update s.task np .free) (S.proc f) (.fork np) }
      | none => some s
    else none
  | .forkFails _ =>
    match s.task (S.proc f) with
    | .fork np =>
      some { s with
        ptable := s.ptable.modify np .abandoned
        task := Function.update s.task (S.proc f) .free }
    | _ => none
  | .forkDone _ =>
    match s.task (S.proc f) with
    | .fork np =>
      if s.lock = none then
        some { s with
          ptable := s.ptable.modify np (·.ready (S.proc f))
          task := Function.update s.task (S.proc f) .free }
      else none
    | _ => none
  | .wait _ => if s.lock = none ∧ s.task (S.proc f) = .free then some (S.reap s c f .reaped) else none
  | .waitx _ => if s.lock = none ∧ s.task (S.proc f) = .free then some (S.reap s c f .reapedx) else none
  | .kill _ pid =>
    if s.lock = none ∧ s.task (S.proc f) = .free then
      match s.ptable.withPid pid with
      | some k => some { s with ptable := s.ptable.modify k .kill }
      | none => some s
    else none
  | .setPriority _ priority pid =>
    if s.task (S.proc f) = .free then
      match s.ptable.withPid pid with
      | some k =>
        if priority.toInt ≤ -1 ∨ 100 < priority.toInt then some s
        else some { s with task := Function.update s.task (S.proc f) (.setPriority k priority) }
      | none => some s
    else none
  | .assign _ =>
    match s.task (S.proc f) with
    | .setPriority k priority =>
      if s.lock = none then
        some { s with
          ptable := s.ptable.modify k (·.setPriority priority)
          task := Function.update s.task (S.proc f)
            (if priority.toInt < (s.ptable k).priority.toInt then .yielding else .free) }
      else none
    | _ => none
  | .fault _ => some { s with ptable := s.ptable.modify (S.proc f) .fault }
  | _ => none

def step (s : State S.Frame) : Action → Option (State S.Frame)
  | .start c =>
    match s.cpu c with
    | .idle => if s.Awake c ∧ s.lock = none then some (S.settle s c (S.start s.ticks s.ptable)) else none
    | _ => none
  | .dispatch c =>
    match s.cpu c with
    | .picked f => some (S.swtch s c f)
    | _ => none
  | .resume c =>
    match s.cpu c with
    | .back f => some (S.settle s c (S.resume s.ticks f s.ptable))
    | _ => none
  | .tick =>
    match s.cpu 0 with
    | .idle | .running _ false =>
      if s.timer = .ready then some { s with ticks := s.ticks + 1, timer := .counted } else none
    | _ => none
  | .charge =>
    if s.timer = .counted ∧ s.lock = none then
      some { s with ptable := s.ptable.updateRunsandOthers, timer := .charged }
    else none
  | .wakeTicks =>
    if s.timer = .charged ∧ s.lock = none then
      some { s with
        ptable := s.ptable.wakeup1 .ticks
        timer := .ready
        cpu := match s.cpu 0 with
          | .running f _ => Function.update s.cpu 0 (.running f S.timerYields)
          | _ => s.cpu }
    else none
  | .interrupt c =>
    match s.cpu c with
    | .running f false =>
      if c ≠ 0 ∧ S.timerYields then some { s with cpu := Function.update s.cpu c (.running f true) } else none
    | _ => none
  | .wakeup c address =>
    match s.cpu c with
    | .idle | .running _ _ =>
      if s.Awake c ∧ s.lock = none then some { s with ptable := s.ptable.wakeup1 (.other address) } else none
    | _ => none
  | .yield c =>
    match s.cpu c with
    | .running f interrupted =>
      if s.Awake c ∧ s.lock = none ∧ (interrupted ∨ s.task (S.proc f) = .yielding) then
        some { S.sched s c f (s.ptable.modify (S.proc f) .yield) with
          task := if interrupted then s.task else Function.update s.task (S.proc f) .free }
      else none
    | _ => none
  | a =>
    match s.cpu a.cpu with
    | .running f interrupted =>
      if s.Awake a.cpu ∧ (interrupted → (s.ptable (S.proc f)).killed) then S.call s a.cpu f a else none
    | _ => none

def Takes (s : State S.Frame) (a : Action) (s' : State S.Frame) : Prop := S.step s a = some s'

/-- The steps that meet a condition on the state before them. -/
def Under (allowed : State S.Frame → Action → Prop) (s : State S.Frame) (a : Action) (s' : State S.Frame) : Prop :=
  S.Takes s a s' ∧ allowed s a

/-- The child that `waitx` reaps if CPU `c` executes it next. -/
def reapsx (s : State S.Frame) (c : Nat) : Option Slot :=
  match s.cpu c with
  | .running f _ => if (S.step s (.waitx c)).isSome then s.ptable.zombieOf (S.proc f) else none
  | _ => none

/-- What `userinit` leaves: its process is in the slot that `allocproc` finds in the empty table. -/
def boot : State S.Frame where
  ptable := Table.modify (fun _ => ⟨.unused, 0, none, none, false, 0, 0, 0, 0, 0, 0, fun _ => 0, 0, 0, 0⟩)
    initproc (fun p => { p.found 1 0 with state := .runnable })
  ticks := 0
  nextpid := 2
  cpu _ := .idle
  lock := none
  timer := .ready
  task _ := .free

end Scheduler

def OneCpu {Frame : Type} (_ : State Frame) (a : Action) : Prop := a.cpu = 0

instance {Frame : Type} (s : State Frame) (a : Action) : Decidable (OneCpu s a) :=
  inferInstanceAs (Decidable (a.cpu = 0))

end Xv6.Sched
