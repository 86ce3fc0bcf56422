import Xv6.Memory.Process

namespace Xv6.Exec

open CommandProgram

variable [KernelImage]

/-- What `exec` holds of the file system, and what it sets of the process beside its memory. -/
structure Task where
  outstanding : Nat
  refs : Nat
  locked : Bool
  name : List UInt8
  eip : Nat
  esp : Nat

namespace Task

def begin_op (task : Task) : Task := { task with outstanding := task.outstanding + 1 }

def end_op (task : Task) : Task := { task with outstanding := task.outstanding - 1 }

/-- `namei` has found the file. -/
def namei (task : Task) : Task := { task with refs := task.refs + 1 }

def ilock (task : Task) : Task := { task with locked := true }

def iunlockput (task : Task) : Task := { task with refs := task.refs - 1, locked := false }

end Task

/-- A file with the field of its header that goes to the trap frame. -/
structure Binary extends Inode where
  entry : Nat

/-- The loop that looks for the last slash; `last` is what it has found so far. -/
def lastElement (last : List UInt8) : List UInt8 → List UInt8
  | [] => last
  | c :: s => if c = 47 then lastElement s s else lastElement last s

/-- `safestrcpy` into an array of `n` bytes. -/
def safestrcpy (s : List UInt8) (n : Nat) : List UInt8 := s.take (n - 1)

/-- The code behind the label `bad`; `ip` says whether the pointer is set. -/
def bad (task : Task) (pgdir : Option Nat) (ip : Bool) : Vm (Bool × Task) := do
  match pgdir with
  | none => pure ()
  | some d => freevm d
  return (false, if ip then task.iunlockput.end_op else task)

/-- The pages for the stack, and the arguments on it: the size and the stack pointer. `none` is `goto bad`. -/
def stack (pgdir size : Nat) (argv : List (List UInt8)) : Vm (Option (Nat × Nat)) := do
  let bottom := pgRoundUp size * pgSize
  let sz ← allocuvm pgdir bottom (bottom + 2 * pgSize)
  if sz = 0 then return none
  else
    clearpteu pgdir (sz - 2 * pgSize)
    let pushed ← pushArgs pgdir argv sz []
    match pushed with
    | none => return none
    | some (sp, pointers) =>
      let bytes := ustack sp pointers
      let sp := (sp + 2 ^ 32 - bytes.length) % 2 ^ 32
      let copied ← copyout pgdir 3 sp bytes
      if copied then return some (sz, sp) else return none

/-- `file` is what `namei` finds at `path`. The result says whether `exec` returns 0. -/
def exec (task : Task) (path : List UInt8) (oldpgdir : Nat) (file : Option Binary) (argv : List (List UInt8)) :
    Vm (Bool × Task) :=
  let task := task.begin_op
  match file with
  | none => return (false, task.end_op)
  | some ip =>
    let task := task.namei.ilock
    match ip.elf with
    | none => bad task none true
    | some elf =>
      if elf.magic ≠ elfMagic then bad task none true
      else do
        let new ← setupkvm
        match new with
        | none => bad task none true
        | some pgdir =>
          let loaded ← segments pgdir ip.toInode elf.phnum 0 0
          match loaded with
          | none => bad task (some pgdir) true
          | some size =>
            let task := task.iunlockput.end_op
            let stacked ← stack pgdir size argv
            match stacked with
            | none => bad task (some pgdir) false
            | some (sz, sp) =>
              let task := { task with name := safestrcpy (lastElement path path) 16 }
              ask (.commit pgdir sz)
              let task := { task with eip := ip.entry, esp := sp }
              freevm oldpgdir
              return (true, task)

/-- Apart from the file system and the registers this is `exec` as the other operations of a process see it. -/
theorem exec_memory (task : Task) (path : List UInt8) (oldpgdir : Nat) (file : Option Binary) (argv : List (List UInt8)) :
    (exec task path oldpgdir file argv >>= fun result => pure result.1) =
      Xv6.exec oldpgdir (file.map Binary.toInode) argv := by
  unfold exec Xv6.exec
  cases file with
  | none => rfl
  | some ip =>
    dsimp only [Option.map_some, Option.bind_some]
    cases ip.elf with
    | none => rfl
    | some elf =>
      dsimp only [Option.map_some]
      by_cases foreign : elf.magic ≠ elfMagic
      · rw [if_pos foreign, if_pos foreign]
        rfl
      · rw [if_neg foreign, if_neg foreign, bind_assoc]
        apply bind_congr
        rintro (_ | pgdir)
        · rfl
        · unfold image stack bad
          simp only [bind_assoc]
          apply bind_congr
          rintro (_ | size)
          · simp only [pure_bind, bind_assoc]
          · simp only [bind_assoc]
            apply bind_congr
            intro sz
            by_cases failed : sz = 0
            · simp only [if_pos failed, pure_bind, bind_assoc]
            · simp only [if_neg failed, bind_assoc]
              apply bind_congr
              intro _
              apply bind_congr
              rintro (_ | ⟨sp, pointers⟩)
              · simp only [pure_bind, bind_assoc]
              · simp only [bind_assoc]
                apply bind_congr
                rintro (_ | _)
                · simp only [Bool.false_eq_true, if_false, pure_bind, bind_assoc]
                · simp only [if_true, pure_bind, bind_assoc]

end Xv6.Exec
