import Xv6.Library.Transition
import Mathlib.Logic.Function.Basic

namespace Xv6.Locks

open Function Transition

inductive Lock where
  | ptable
  | other (n : Nat)
  deriving DecidableEq

/-- The scheduler of a CPU, or the kernel thread of a process. -/
inductive Thread where
  | scheduler (c : Nat)
  | proc (p : Nat)
  deriving DecidableEq

/-- What the code does to a CPU or a lock in one go. -/
inductive Op where
  | readeflags
  | push
  | pop
  | readProc
  | readLocked (l : Lock)
  | readCpu (l : Lock)
  | failIf (held : Bool)
  | xchg (l : Lock)
  | setCpu (l : Lock)
  | clearCpu (l : Lock)
  | unlock (l : Lock)
  | checkNcli
  | checkIf
  | swtch
  | restore
  deriving DecidableEq

/-- `eflags` is read with interrupts on or off; once they are off the rest is one step. -/
def pushcli : List Op := [.readeflags, .push]

def popcli : List Op := [.pop]

def holding (l : Lock) : List Op := pushcli ++ [.readLocked l, .readCpu l] ++ popcli

def acquire (l : Lock) : List Op := pushcli ++ holding l ++ [.failIf true, .xchg l, .setCpu l]

def release (l : Lock) : List Op := holding l ++ [.failIf false, .clearCpu l, .unlock l] ++ popcli

def myproc : List Op := pushcli ++ [.readProc] ++ popcli

/-- The check of `p->state` is left out; `swtch` is with the assignment of `intena` in front of it. -/
def sched : List Op :=
  myproc ++ holding .ptable ++ [.failIf false, .checkNcli, .checkIf, .swtch, .restore]

inductive Call where
  | acquire (l : Lock)
  | release (l : Lock)
  | myproc
  | sched
  deriving DecidableEq

def Call.code : Call → List Op
  | acquire l => Locks.acquire l
  | release l => Locks.release l
  | myproc => Locks.myproc
  | sched => Locks.sched

/-- What is left to do of a call, with its local variables. `proper` is history: the call was in order. -/
structure Frame where
  todo : List Op
  eflags : Bool
  r : Bool
  proper : Bool

/-- A thread: what it does, what interrupts have cut off, and `intena` of `sched`. `nest` is history: how interrupts were
    when the thread began its outermost `pushcli`. -/
structure Context where
  frame : Frame
  saved : List Frame
  intena : Bool
  nest : Option Bool

/-- `held` is history: the locks that the CPU has exchanged for and not given up, the last first. -/
structure Cpu where
  interrupts : Bool
  ncli : Int
  intena : Bool
  proc : Option Nat
  thread : Thread
  held : List Lock

/-- `locked` and `cpu` of each lock. -/
structure State where
  cpu : Nat → Cpu
  locked : Lock → Bool
  holder : Lock → Option Nat
  context : Thread → Context
  parked : Nat → Bool

def State.running (s : State) (c : Nat) : Context := s.context (s.cpu c).thread

/-- The call in order: `acquire` of a lock that the CPU has not got, `release` of one that it has, `sched` with
    `ptable.lock` alone. -/
def Call.Proper (held : List Lock) : Call → Prop
  | acquire l => l ∉ held
  | release l => l ∈ held
  | myproc => True
  | sched => held = [.ptable]

instance (held : List Lock) : (call : Call) → Decidable (call.Proper held)
  | .acquire l => inferInstanceAs (Decidable (l ∉ held))
  | .release l => inferInstanceAs (Decidable (l ∈ held))
  | .myproc => inferInstanceAs (Decidable True)
  | .sched => inferInstanceAs (Decidable (held = [.ptable]))

/-- A check of the code fails, or `mycpu` is called with interrupts on. -/
def Op.panics (cpu : Cpu) (r : Bool) : Op → Bool
  | pop => cpu.interrupts || decide (cpu.ncli < 1)
  | failIf b => r == b
  | checkNcli => cpu.interrupts || decide (cpu.ncli ≠ 1)
  | readProc | readCpu _ | setCpu _ | checkIf | swtch | restore => cpu.interrupts
  | _ => false

/-- What a step of the thread that runs on CPU `c` works on. -/
structure View where
  cpu : Cpu
  context : Context
  locked : Lock → Bool
  holder : Lock → Option Nat

def View.setFrame (v : View) (f : Frame → Frame) : View :=
  { v with context := { v.context with frame := f v.context.frame } }

/-- All but `swtch`. The `xchg` of a lock that is locked goes round in its loop. -/
def Op.run (c : Nat) (v : View) : Op → Option View
  | readeflags => some (v.setFrame fun f => { f with eflags := v.cpu.interrupts })
  | push => some { v with
      cpu := { v.cpu with
        interrupts := false
        intena := if v.cpu.ncli = 0 then v.context.frame.eflags else v.cpu.intena
        ncli := v.cpu.ncli + 1 }
      context := { v.context with nest := if v.cpu.ncli = 0 then some v.cpu.interrupts else v.context.nest } }
  | pop => some { v with
      cpu := { v.cpu with
        ncli := v.cpu.ncli - 1
        interrupts := if v.cpu.ncli - 1 = 0 ∧ v.cpu.intena = true then true else v.cpu.interrupts }
      context := { v.context with nest := if v.cpu.ncli - 1 = 0 then none else v.context.nest } }
  | readLocked l => some (v.setFrame fun f => { f with r := v.locked l })
  | readCpu l => some (v.setFrame fun f => { f with r := f.r && v.holder l = some c })
  | xchg l =>
    if v.locked l = true then none
    else some { v with locked := update v.locked l true, cpu := { v.cpu with held := l :: v.cpu.held } }
  | setCpu l => some { v with holder := update v.holder l (some c) }
  | clearCpu l => some { v with holder := update v.holder l none }
  | unlock l => some { v with locked := update v.locked l false, cpu := { v.cpu with held := v.cpu.held.erase l } }
  | restore => some { v with cpu := { v.cpu with intena := v.context.intena } }
  | _ => some v

/-- `swtch` to the scheduler of the CPU, which sets `c->proc` to 0. -/
def State.park (s : State) (c p : Nat) (x : Context) : State :=
  { s with
    cpu := update s.cpu c { s.cpu c with thread := .scheduler c, proc := none }
    context := update s.context (.proc p) { x with intena := (s.cpu c).intena }
    parked := update s.parked p true }

/-- The next step of the thread that runs on CPU `c`. -/
def State.exec (s : State) (c : Nat) : Option State :=
  let x := s.running c
  match x.frame.todo with
  | [] => none
  | op :: rest =>
    let x := { x with frame := { x.frame with todo := rest } }
    if op.panics (s.cpu c) x.frame.r then none
    else if op = .swtch then
      match (s.cpu c).thread with
      | .scheduler _ => none
      | .proc p => some (s.park c p x)
    else
      (op.run c ⟨s.cpu c, x, s.locked, s.holder⟩).map fun v =>
        { s with
          cpu := update s.cpu c v.cpu
          context := update s.context (s.cpu c).thread v.context
          locked := v.locked
          holder := v.holder }

inductive Action where
  | exec (c : Nat)
  | call (c : Nat) (f : Call)
  | dispatch (c p : Nat)
  | alloc (p : Nat)
  | interrupt (c : Nat)
  | iret (c : Nat)
  | sti (c : Nat)
  deriving DecidableEq

def Frame.idle : Frame := ⟨[], false, false, true⟩

namespace State

variable (s : State) (c : Nat)

def setRunning (x : Context) : State := { s with context := update s.context (s.cpu c).thread x }

def Ready : Prop := (s.running c).frame.todo = []

instance : Decidable (s.Ready c) := inferInstanceAs (Decidable ((s.running c).frame.todo = []))

/-- A handler begins with interrupts off, and gives back no CPU with a lock. The scheduler picks under `ptable.lock` any
    process that is not running, and a slot may get a new process. Only a process calls `sched`. -/
def step : Action → Option State
  | .exec c => s.exec c
  | .call c f =>
    let x := s.running c
    if s.Ready c ∧ (f = .sched → (s.cpu c).thread ≠ .scheduler c) then
      some (s.setRunning c { x with frame := ⟨f.code, false, false, decide (f.Proper (s.cpu c).held)⟩ })
    else none
  | .dispatch c p =>
    if s.Ready c ∧ (s.cpu c).thread = .scheduler c ∧ (s.running c).saved = [] ∧ (s.cpu c).held = [.ptable] ∧
        s.parked p = true then
      some { s with
        cpu := update s.cpu c { s.cpu c with thread := .proc p, proc := some p }
        parked := update s.parked p false }
    else none
  | .alloc p =>
    if s.parked p = true then some { s with context := update s.context (.proc p) ⟨.idle, [], false, none⟩ } else none
  | .interrupt c =>
    let x := s.running c
    if (s.cpu c).interrupts = true then
      some { s.setRunning c { x with frame := .idle, saved := x.frame :: x.saved } with
        cpu := update s.cpu c { s.cpu c with interrupts := false } }
    else none
  | .iret c =>
    let x := s.running c
    match x.saved with
    | [] => none
    | frame :: saved =>
      if s.Ready c ∧ (s.cpu c).held = [] then
        some { s.setRunning c { x with frame := frame, saved := saved } with
          cpu := update s.cpu c { s.cpu c with interrupts := true } }
      else none
  | .sti c =>
    if s.Ready c ∧ (s.cpu c).thread = .scheduler c ∧ (s.running c).saved = [] ∧ (s.cpu c).held = [] then
      some { s with cpu := update s.cpu c { s.cpu c with interrupts := true } }
    else none

def Takes (s : State) (a : Action) (s' : State) : Prop := s.step a = some s'

/-- The next step of CPU `c` is a panic. -/
def Panics : Prop :=
  ∃ op ∈ (s.running c).frame.todo.head?, op.panics (s.cpu c) (s.running c).frame.r = true

/-- Each CPU comes to its scheduler with interrupts off and no lock; every process is to be dispatched first. -/
def start : State where
  cpu c := ⟨false, 0, false, none, .scheduler c, []⟩
  locked _ := false
  holder _ := none
  context _ := ⟨.idle, [], false, none⟩
  parked _ := true

end State

end Xv6.Locks
