import Xv6.Library.Transition
import Xv6.Sched.Table

namespace Xv6.Sleep

open Sched Function Transition

/-- `ptable.lock` and another spinlock. -/
inductive Lock where
  | ptable
  | other
  deriving DecidableEq

/-- The kernel thread of a process, or the interrupt handler of a CPU. -/
inductive Thread where
  | proc (p : Slot)
  | handler (c : Nat)
  deriving DecidableEq

/-- Where a thread is: from `tested` to `reacquire` in `sleep`, from `made` to `woke` in `wakeup`. -/
inductive Pc where
  | out
  | inside
  | tested
  | locked
  | committed
  | slept
  | reacquire
  | made
  | waking
  | woke
  | yielded (back : Pc)
  | elsewhere
  deriving DecidableEq

inductive Cpu where
  | idle
  | scheduling
  | running (p : Slot)
  | handling (under : Option Slot)
  deriving DecidableEq

/-- A spinlock records the CPU that holds it. -/
structure State where
  ptable : Table
  lock : Lock → Option Nat
  cpu : Nat → Cpu
  pc : Thread → Pc
  condition : Bool

/-- The lock that protects the condition and the channel that its sleepers use. -/
structure Meeting where
  lk : Lock
  chan : Chan

inductive Move where
  | acquire
  | release
  | makeFalse
  | makeTrue
  | wakeupAcquire
  | wakeup1
  | wakeupRelease
  deriving DecidableEq

inductive Nap where
  | test
  | giveUp
  | lockTable
  | releaseLk
  | sched
  | tidy
  | acquireLk
  | yield
  | endYield
  | sleepElsewhere (chan : Chan)
  | wakeElsewhere
  deriving DecidableEq

inductive Action where
  | enter (c : Nat)
  | leave (c : Nat)
  | dispatch (c : Nat) (p : Slot)
  | interrupt (c : Nat)
  | iret (c : Nat)
  | thread (c : Nat) (move : Move)
  | proc (c : Nat) (nap : Nap)
  | wakeupOther (chan : Chan)
  | kill (pid : Word)
  deriving DecidableEq

namespace State

variable (s : State)

/-- The thread that executes on CPU `c`. -/
def thread (c : Nat) : Option Thread :=
  match s.cpu c with
  | .running p => some (.proc p)
  | .handling _ => some (.handler c)
  | _ => none

def move (t : Thread) (pc : Pc) : State := { s with pc := update s.pc t pc }

def acquire (l : Lock) (c : Nat) : Option State :=
  if s.lock l = none then some { s with lock := update s.lock l (some c) } else none

def release (l : Lock) : State := { s with lock := update s.lock l none }

def retable (t : Table) : State := { s with ptable := t }

def seat (c : Nat) (cpu : Cpu) : State := { s with cpu := update s.cpu c cpu }

/-- The process holds no lock, so interrupts are on. -/
def Open (p : Slot) : Prop := s.pc (.proc p) = .out ∨ s.pc (.proc p) = .reacquire

instance (p : Slot) : Decidable (s.Open p) :=
  inferInstanceAs (Decidable (s.pc (.proc p) = .out ∨ s.pc (.proc p) = .reacquire))

end State

namespace Meeting

variable (m : Meeting) (s : State) (c : Nat)

/-- With `ptable.lock` for `lk` it is `wakeup1` that is called, under the lock that is held already. -/
def threadStep (t : Thread) : Move → Pc → Option State
  | .acquire, .out => (s.acquire m.lk c).map (·.move t .inside)
  | .release, .inside => some ((s.release m.lk).move t .out)
  | .makeFalse, .inside => some { s with condition := false }
  | .makeTrue, .inside => some { s.move t .made with condition := true }
  | .wakeupAcquire, .made =>
    if m.lk = .ptable then some (s.move t .waking) else (s.acquire .ptable c).map (·.move t .waking)
  | .wakeup1, .waking => some ((s.retable (s.ptable.wakeup1 m.chan)).move t .woke)
  | .wakeupRelease, .woke => some (if m.lk = .ptable then s.move t .inside else (s.release .ptable).move t .inside)
  | _, _ => none

/-- `sleep` is cut at the two locks and at `swtch`. After `swtch` the process is in `slept` until it is
    dispatched again. -/
def procStep (p : Slot) : Nap → Pc → Option State
  | .test, .inside => some (if s.condition then s else s.move (.proc p) .tested)
  | .giveUp, .tested => some (s.move (.proc p) .inside)
  | .lockTable, .tested =>
    if m.lk = .ptable then some (s.move (.proc p) .committed)
    else (s.acquire .ptable c).map (·.move (.proc p) .locked)
  | .releaseLk, .locked => some ((s.release m.lk).move (.proc p) .committed)
  | .sched, .committed =>
    some (((s.retable (s.ptable.modify p (·.sleep m.chan))).move (.proc p) .slept).seat c .scheduling)
  | .tidy, .slept =>
    let tidy := s.retable (s.ptable.modify p fun q => { q with chan := none })
    some (if m.lk = .ptable then tidy.move (.proc p) .inside else (tidy.release .ptable).move (.proc p) .reacquire)
  | .acquireLk, .reacquire => (s.acquire m.lk c).map (·.move (.proc p) .inside)
  | .yield, pc =>
    if s.Open p then
      (s.acquire .ptable c).map fun s =>
        ((s.retable (s.ptable.modify p .yield)).move (.proc p) (.yielded pc)).seat c .scheduling
    else none
  | .endYield, .yielded back => some ((s.release .ptable).move (.proc p) back)
  | .sleepElsewhere chan, .out =>
    if chan = m.chan then none
    else (s.acquire .ptable c).map fun s =>
      ((s.retable (s.ptable.modify p (·.sleep chan))).move (.proc p) .elsewhere).seat c .scheduling
  | .wakeElsewhere, .elsewhere =>
    some (((s.retable (s.ptable.modify p fun q => { q with chan := none })).release .ptable).move (.proc p) .out)
  | _, _ => none

def step : Action → Option State
  | .enter c => if s.cpu c = .idle then (s.acquire .ptable c).map (·.seat c .scheduling) else none
  | .leave c => if s.cpu c = .scheduling then some ((s.release .ptable).seat c .idle) else none
  | .dispatch c p =>
    if s.cpu c = .scheduling ∧ s.ptable.Runnable p then
      some ((s.retable (s.ptable.modify p fun q => { q with state := .running })).seat c (.running p))
    else none
  | .interrupt c =>
    match s.cpu c with
    | .idle => some (s.seat c (.handling none))
    | .running p => if s.Open p then some (s.seat c (.handling (some p))) else none
    | _ => none
  | .iret c =>
    match s.cpu c with
    | .handling under =>
      if s.pc (.handler c) = .out then some (s.seat c (under.elim .idle .running)) else none
    | _ => none
  | .thread c move => (s.thread c).bind fun t => m.threadStep s c t move (s.pc t)
  | .proc c nap =>
    match s.cpu c with
    | .running p => m.procStep s c p nap (s.pc (.proc p))
    | _ => none
  | .wakeupOther chan => if s.lock .ptable = none then some (s.retable (s.ptable.wakeup1 chan)) else none
  | .kill pid =>
    if s.lock .ptable = none then
      match s.ptable.withPid pid with
      | some k => some (s.retable (s.ptable.modify k .kill))
      | none => some s
    else none

def Takes (s : State) (a : Action) (s' : State) : Prop := m.step s a = some s'

/-- Any processes are RUNNABLE; the first dispatch ends in `forkret`, which releases `ptable.lock` as `yield` does. -/
def start (live : Slot → Bool) (condition : Bool) : State where
  ptable k := ⟨if live k then .runnable else .unused, 0, none, none, false, 0, 0, 0, 0, 0, 0, fun _ => 0, 0, 0, 0⟩
  lock _ := none
  cpu _ := .idle
  pc
    | .proc _ => .yielded .out
    | .handler _ => .out
  condition := condition

/-- The process that tests the condition in a step. -/
def tests : Action → Option Slot
  | .proc c .test =>
    match s.cpu c with
    | .running p => some p
    | _ => none
  | _ => none

def makes : Action → Option Thread
  | .thread c .makeTrue => s.thread c
  | _ => none

/-- The thread whose `wakeup` returns. -/
def wakes : Action → Option Thread
  | .thread c .wakeupRelease => s.thread c
  | _ => none

/-- The process whose `sleep` on the channel returns. -/
def returns : Action → Option Slot
  | .proc c .tidy =>
    match s.cpu c with
    | .running p => if m.lk = .ptable then some p else none
    | _ => none
  | .proc c .acquireLk =>
    match s.cpu c with
    | .running p => some p
    | _ => none
  | _ => none

end Meeting

end Xv6.Sleep
