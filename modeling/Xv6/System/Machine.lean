import Xv6.Tables.Boot

namespace Xv6

open CommandProgram Function

/-- The states of a slot of the process table between two operations. -/
inductive SlotState where
  | unused
  | live
  | zombie
  deriving DecidableEq

/-- The machine between two operations of its processes. -/
structure System (ι : Type) where
  shared : Shared
  proc : ι → Proc
  state : ι → SlotState
  parent : ι → Option ι
  initproc : ι

inductive Action (ι : Type) where
  | fork (t u : ι)
  | sbrk (t : ι) (n : Int)
  | read (t : ι) (va : Nat)
  | write (t : ι) (va : Nat) (byte : UInt8)
  | exec (t : ι) (ip : Option Inode) (argv : List (List UInt8))
  | exit (t : ι)
  | wait (t u : ι)

inductive Outcome where
  | forked (child : Option (Nat × Nat))
  | flag (success : Bool)
  | touch (t : Touch)
  | done

/-- What the processes themselves can tell of an outcome. -/
inductive Answer where
  | flag (success : Bool)
  | touch (t : Touch)
  | done
  deriving DecidableEq

def Outcome.answer : Outcome → Answer
  | forked child => .flag child.isSome
  | flag success => .flag success
  | touch t => .touch t
  | done => .done

variable {ι : Type} [DecidableEq ι]

namespace Action

/-- The process whose page tables the action works on. -/
def subject : Action ι → ι
  | fork t _ => t
  | sbrk t _ => t
  | read t _ => t
  | write t _ _ => t
  | exec t _ _ => t
  | exit t => t
  | wait _ u => u

/-- The program of the action, run on the subject's part of the machine `c`. -/
def program [KernelImage] (κ : Kernel) (c : System ι) (a : Action ι) : Vm Outcome :=
  let p := c.proc a.subject
  match a with
  | fork _ _ => do
    let child ← Xv6.fork κ p.pgdir p.sz
    return .forked child
  | sbrk _ n => do
    let grown ← growproc p.pgdir p.sz n
    return .flag grown
  | read _ va => do
    let touch ← touchRead κ p.pgdir va
    return .touch touch
  | write _ va byte => do
    let touch ← touchWrite κ p.pgdir va byte
    return .touch touch
  | exec _ ip argv => do
    let replaced ← Xv6.exec p.pgdir ip argv
    return .flag replaced
  | exit t => if t = c.initproc then panic "init exiting" else return .done
  | wait _ _ => do
    Xv6.wait p.kstack p.pgdir
    return .done

/-- A process that runs may do anything for itself, fork into a free slot and wait for a zombie child. -/
def Legal (c : System ι) : Action ι → Prop
  | fork t u => c.state t = .live ∧ c.state u = .unused
  | sbrk t n => c.state t = .live ∧ -2 ^ 31 ≤ n ∧ n < 2 ^ 31
  | read t va => c.state t = .live ∧ va < 2 ^ 32
  | write t va _ => c.state t = .live ∧ va < 2 ^ 32
  | exec t _ _ => c.state t = .live
  | exit t => c.state t = .live
  | wait t u => c.state t = .live ∧ c.state u = .zombie ∧ c.parent u = some t

end Action

namespace System

/-- The child gets its kernel stack and page table, which `fork` built on behalf of the parent. -/
def adopt (c : System ι) (t u : ι) (kstack d : Nat) : System ι :=
  let parent := c.proc t
  { c with
    proc := update (update c.proc t { parent.dropDir d with kpages := parent.kpages.erase kstack }) u
      { kstack := kstack
        pgdir := d
        sz := parent.sz
        killed := false
        dirs := update (fun _ => none) d (parent.dirs d)
        kpages := [kstack] }
    state := update c.state u .live
    parent := update c.parent u (some t) }

/-- `exit`: the children go to the first process. -/
def exit (c : System ι) (t : ι) : System ι :=
  { c with
    state := update c.state t .zombie
    parent := fun v => if c.parent v = some t then some c.initproc else c.parent v }

def reap (c : System ι) (u : ι) : System ι :=
  { c with
    proc := update c.proc u { c.proc u with kstack := 0, killed := false }
    state := update c.state u .unused
    parent := update c.parent u none }

def settle (c : System ι) (a : Action ι) (outcome : Outcome) (s : Shared) (p : Proc) : System ι :=
  let c' := { c with shared := s, proc := update c.proc a.subject p }
  match a, outcome with
  | .fork t u, .forked (some (kstack, d)) => c'.adopt t u kstack d
  | .read t _, .touch .exits => c'.exit t
  | .write t _ _, .touch .exits => c'.exit t
  | .exit t, _ => c'.exit t
  | .wait _ u, _ => c'.reap u
  | _, _ => c'

def act [KernelImage] (κ : Kernel) (c : System ι) (a : Action ι) : Except Halt (Answer × System ι) :=
  match Program.run (execute κ) (a.program κ c) (c.shared, c.proc a.subject) with
  | (.ok outcome, (s, p)) => .ok (outcome.answer, c.settle a outcome s p)
  | (.error halt, _) => .error halt

end System

/-- What the kernel reaches from boot when one action follows the other; `rule` says which are taken. -/
inductive Reach [KernelImage] (κ : Kernel) (rule : System ι → Action ι → Prop) : System ι → Prop where
  | boot {ram : Nat → Page} {t : ι} {init : List UInt8} {kstack : Nat} {s : Shared} {p : Proc}
      (done : Program.run (execute κ) (userinit init) (booted κ ram, .unused) = (.ok kstack, (s, p))) :
      Reach κ rule
        { shared := s
          proc := update (fun _ => .unused) t { p with kstack := kstack }
          state := update (fun _ => .unused) t .live
          parent := fun _ => none
          initproc := t }
  | act {c c' : System ι} {a : Action ι} {answer : Answer} (reach : Reach κ rule c) (legal : a.Legal c)
      (allowed : rule c a) (done : c.act κ a = .ok (answer, c')) : Reach κ rule c'

end Xv6
