import Xv6.Memory.Process

namespace Xv6.Fork

open CommandProgram

variable [KernelImage]

/-- Of the states of `enum procstate`, those that `fork` gives to the child. -/
inductive Stage where
  | unused
  | embryo
  | runnable
  deriving DecidableEq

/-- The slot of the process table that the child gets; 0 is the null pointer. -/
structure Child where
  state : Stage
  pid : Nat
  kstack : Nat
  pgdir : Nat
  sz : Nat
  deriving DecidableEq

/-- `slot` is what the loop over the process table finds. The trap frame and the context go on the kernel stack. -/
def allocproc (nextpid : Nat) (slot : Option Child) : Vm (Option Child × Bool) := do
  match slot with
  | none => return (none, false)
  | some p =>
    let p := { p with state := .embryo, pid := nextpid }
    let page ← kalloc
    match page with
    | none => return (some { p with kstack := 0, state := .unused }, false)
    | some kstack =>
      ask (.keep kstack)
      return (some { p with kstack := kstack }, true)

/-- The files, the working directory, the name and the trap frame of the child come after all that can fail. -/
def fork (nextpid : Nat) (slot : Option Child) (pgdir sz : Nat) : Vm (Int × Option Child) := do
  let found ← allocproc nextpid slot
  match found with
  | (some np, true) =>
    let new ← copyuvm .cow pgdir sz
    match new with
    | none =>
      ask (.unkeep np.kstack)
      kfree np.kstack
      return (-1, some { np with pgdir := 0, kstack := 0, state := .unused })
    | some d => return (np.pid, some { np with pgdir := d, sz := sz, state := .runnable })
  | (slot, _) => return (-1, slot)

/-- What `fork` makes for the child. -/
def made : Int × Option Child → Option (Nat × Nat)
  | (_, some np) => if np.state = .runnable then some (np.kstack, np.pgdir) else none
  | (_, none) => none

/-- With a slot for the child this is `fork` as the other operations of a process see it. -/
theorem fork_memory (nextpid : Nat) (slot : Child) (pgdir sz : Nat) :
    (fork nextpid (some slot) pgdir sz >>= fun result => pure (made result)) = Xv6.fork .cow pgdir sz := by
  unfold fork allocproc Xv6.fork
  simp only [bind_assoc]
  apply bind_congr
  rintro (_ | kstack)
  · rfl
  · simp only [bind_assoc, pure_bind]
    apply bind_congr
    intro _
    apply bind_congr
    rintro (_ | d)
    · simp only [bind_assoc, pure_bind, made, reduceCtorEq, if_false]
    · rfl

theorem run_memory (nextpid : Nat) (slot : Child) (pgdir sz : Nat) (state : Shared × Proc) :
    Program.run (execute .cow) (Xv6.fork .cow pgdir sz) state =
      ((Program.run (execute .cow) (fork nextpid (some slot) pgdir sz) state).1.map made,
        (Program.run (execute .cow) (fork nextpid (some slot) pgdir sz) state).2) := by
  rw [← fork_memory nextpid slot]
  exact Program.run_map _ made state

end Xv6.Fork
