import Mathlib.Algebra.Group.Nat.Defs
import Mathlib.Logic.Function.Basic
import Xv6.Library.Selection

open Selection

namespace Xv6.Sched

/-- `int` and `uint` of the 32-bit machine. -/
abbrev Word := BitVec 32

def NPROC : Nat := 64

theorem nproc_pos : 0 < NPROC := by decide

/-- An index of `ptable.proc`. -/
abbrev Slot := Fin NPROC

inductive ProcState where
  | unused | embryo | sleeping | runnable | running | zombie
  deriving DecidableEq, Repr

/-- Addresses that processes sleep on: `&ticks`, a `struct proc` in `wait`, anything else. -/
inductive Chan where
  | ticks
  | proc (p : Slot)
  | other (address : Nat)
  deriving DecidableEq

structure Proc where
  state : ProcState
  pid : Word
  parent : Option Slot
  chan : Option Chan
  killed : Bool
  ctime : Word
  rtime : Word
  etime : Word
  iotime : Word
  priority : Word
  queue : Word
  qTicks : Fin 5 → Word
  currQTicks : Word
  nRun : Word
  lastWorkingticks : Word

abbrev Table := Slot → Proc

def maxTickOfQ (queue : Nat) : Word := [1, 2, 4, 8, 16].getD queue 0

def qMaxTime (queue : Nat) : Word := [1, 5, 10, 15, 20].getD queue 0

def defaultPriorityPbs : Word := 60

/-- `struct Info_req`, what `ps` shows of a process. -/
structure InfoReq where
  pid : Word
  state : ProcState
  rtime : Word
  priority : Word
  curq : Word
  nRun : Word
  wtime : Word
  ticks : Fin 5 → Word

namespace Proc

/-- One pass of the loop of `updateRunsandOthers`. -/
def updateRunsandOthers (p : Proc) : Proc :=
  match p.state with
  | .running =>
    { p with
      rtime := p.rtime + 1
      qTicks := fun i => if i.val = p.queue.toNat then p.qTicks i + 1 else p.qTicks i
      currQTicks := p.currQTicks + 1 }
  | .sleeping => { p with iotime := p.iotime + 1, lastWorkingticks := p.lastWorkingticks + 1 }
  | _ => p

/-- What `allocproc` writes under the lock; `parent`, `chan` and `killed` stay as they are. -/
def found (p : Proc) (pid ticks : Word) : Proc :=
  { p with
    state := .embryo
    pid := pid
    ctime := ticks
    rtime := 0
    etime := 0
    iotime := 0
    priority := defaultPriorityPbs
    nRun := 0
    queue := 0
    currQTicks := 0
    lastWorkingticks := ticks
    qTicks := fun _ => 0 }

/-- The child is complete: `fork` makes it RUNNABLE. -/
def ready (p : Proc) (parent : Slot) : Proc := { p with parent := some parent, state := .runnable }

/-- `kalloc` or `copyuvm` has failed in `fork`. -/
def abandoned (p : Proc) : Proc := { p with state := .unused }

/-- `p` goes to the CPU; a sleeper that was woken clears `chan` before it releases the lock. -/
def run (p : Proc) (ticks : Word) : Proc := { p with state := .running, lastWorkingticks := ticks, chan := none }

def yield (p : Proc) : Proc := { p with state := .runnable }

def sleep (p : Proc) (chan : Chan) : Proc := { p with chan := some chan, state := .sleeping }

def setPriority (p : Proc) (priority : Word) : Proc := { p with priority := priority }

def fault (p : Proc) : Proc := { p with killed := true }

def wakeup (p : Proc) (chan : Chan) : Proc :=
  if p.state = .sleeping ∧ p.chan = some chan then { p with state := .runnable } else p

def kill (p : Proc) : Proc :=
  { p with killed := true, state := if p.state = .sleeping then .runnable else p.state }

def exit (p : Proc) (ticks : Word) : Proc := { p with etime := ticks, state := .zombie }

/-- What `wait` leaves of a child it has reaped. -/
def reaped (p : Proc) : Proc :=
  { p with pid := 0, parent := none, killed := false, state := .unused }

/-- `waitx` also clears the counters, but not `queue`. -/
def reapedx (p : Proc) : Proc :=
  { p.reaped with
    etime := 0
    ctime := 0
    rtime := 0
    iotime := 0
    lastWorkingticks := 0
    nRun := 0
    priority := 0
    qTicks := fun _ => 0
    currQTicks := 0 }

/-- One pass of the loop of `getprocstable`. -/
def info (p : Proc) (ticks : Word) : InfoReq where
  pid := p.pid
  state := p.state
  rtime := p.rtime
  priority := p.priority
  curq := p.queue
  nRun := p.nRun
  wtime := ticks - p.lastWorkingticks
  ticks := p.qTicks

/-- The `*rtime` and `*wtime` of `waitx`. -/
def times (p : Proc) : Word × Word := (p.rtime, p.etime - (p.ctime + p.rtime + p.iotime))

end Proc

namespace Table

def updateRunsandOthers (t : Table) : Table := fun k => (t k).updateRunsandOthers

def wakeup1 (t : Table) (chan : Chan) : Table := fun k => (t k).wakeup chan

/-- The slot at which the loop of `allocproc` stops. -/
def unused (t : Table) : Option Slot := firstFrom 0 (fun k => (t k).state = .unused)

/-- The slot at which the loops of `kill` and `set_priority` stop. -/
def withPid (t : Table) (pid : Word) : Option Slot := firstFrom 0 (fun k => (t k).pid = pid)

/-- The slot at which the loops of `wait` and `waitx` stop. -/
def zombieOf (t : Table) (parent : Slot) : Option Slot :=
  firstFrom 0 (fun k => (t k).parent = some parent ∧ (t k).state = .zombie)

def haveKids (t : Table) (parent : Slot) : Prop := ∃ k, (t k).parent = some parent

instance (t : Table) (parent : Slot) : Decidable (t.haveKids parent) :=
  inferInstanceAs (Decidable (∃ k, (t k).parent = some parent))

/-- `wakeup1(curproc->parent)` -/
def wakeParent (t : Table) (p : Slot) : Table :=
  match (t p).parent with
  | some parent => t.wakeup1 (.proc parent)
  | none => t

/-- Pass abandoned children to init; `initproc` is woken if one of them is a zombie. -/
def abandon (t : Table) (p initproc : Slot) : Table := fun k =>
  let woken := if ∃ k, (t k).parent = some p ∧ (t k).state = .zombie then (t k).wakeup (.proc initproc) else t k
  if (t k).parent = some p then { woken with parent := some initproc } else woken

def modify (t : Table) (p : Slot) (change : Proc → Proc) : Table := Function.update t p (change (t p))

/-- The critical section of `exit` up to `sched`. -/
def exit (t : Table) (p initproc : Slot) (ticks : Word) : Table :=
  ((t.wakeParent p).abandon p initproc).modify p (·.exit ticks)

/-- The `InfoTable` that `getprocstable` fills. -/
def getprocstable (t : Table) (ticks : Word) : List InfoReq :=
  ((List.finRange NPROC).filter (fun k => (t k).state ≠ .unused)).map (fun k => (t k).info ticks)

def Runnable (t : Table) (p : Slot) : Prop := (t p).state = .runnable

instance (t : Table) : DecidablePred t.Runnable := fun p => inferInstanceAs (Decidable ((t p).state = .runnable))

@[simp] theorem modify_self (t : Table) (p : Slot) (change : Proc → Proc) : t.modify p change p = change (t p) := by
  simp [modify]

@[simp] theorem modify_of_ne (t : Table) {p k : Slot} (change : Proc → Proc) (ne : k ≠ p) :
    t.modify p change k = t k := by
  simp [modify, ne]

end Table

end Xv6.Sched
