import Xv6.Fs.Cache
import Xv6.Stream.Pipe

namespace Xv6.Fs

open Function

def NFILE : Nat := 100
def NOFILE : Nat := 16
def NPROC : Nat := 64

inductive FileType where
  | FD_NONE
  | FD_PIPE
  | FD_INODE
  deriving DecidableEq

/-- `struct file`. A pipe is named by its page. -/
structure File where
  type : FileType
  ref : Nat
  readable : Bool
  writable : Bool
  pipe : Nat
  ip : Fin NINODE
  off : Uint

/-- What a process has of the file system. -/
structure Process where
  ofile : Fin NOFILE → Option (Fin NFILE)
  cwd : Fin NINODE

/-- The state between system calls. A page of the allocator may be a pipe; `outstanding` counts the operations of the log. -/
structure Kernel where
  fs : State
  outstanding : Int
  file : Fin NFILE → File
  pipe : Nat → Option Stream.Pipe
  freelist : List Nat
  proc : Fin NPROC → Option Process

/-- How a call can end beside returning. In `stray` a page is used that is no pipe any more. -/
inductive Halt where
  | fs (message : String)
  | panic (message : String)
  | stray
  deriving DecidableEq

abbrev Sys := StateT Kernel (Except Halt)

def fs {α : Type} (x : Op α) : Sys α := fun s =>
  match x s.fs with
  | .ok (a, t) => .ok (a, { s with fs := t })
  | .error message => .error (.fs message)

def begin_op : Sys Unit := modify fun s => { s with outstanding := s.outstanding + 1 }

def end_op : Sys Unit := modify fun s => { s with outstanding := s.outstanding - 1 }

def Kernel.setFile (s : Kernel) (f : Fin NFILE) (file : File) : Kernel := { s with file := update s.file f file }

def Kernel.setPipe (s : Kernel) (page : Nat) (p : Option Stream.Pipe) : Kernel := { s with pipe := update s.pipe page p }

def Kernel.setProc (s : Kernel) (p : Fin NPROC) (proc : Option Process) : Kernel := { s with proc := update s.proc p proc }

def modifyFile (f : Fin NFILE) (g : File → File) : Sys Unit := modify fun s => s.setFile f (g (s.file f))

def Process.setFd (proc : Process) (fd : Fin NOFILE) (f : Option (Fin NFILE)) : Process :=
  { proc with ofile := update proc.ofile fd f }

def setFd (p : Fin NPROC) (fd : Fin NOFILE) (f : Option (Fin NFILE)) : Sys Unit :=
  modify fun s => s.setProc p ((s.proc p).map fun proc => proc.setFd fd f)

variable (sb : Superblock)

def filealloc : Sys (Option (Fin NFILE)) := do
  let s ← get
  match (List.finRange NFILE).find? fun f => decide ((s.file f).ref = 0) with
  | some f =>
    modifyFile f fun file => { file with ref := 1 }
    return some f
  | none => return none

def filedup (f : Fin NFILE) : Sys Unit := do
  if ((← get).file f).ref < 1 then throw (.panic "filedup")
  modifyFile f fun file => { file with ref := file.ref + 1 }

def kalloc : Sys (Option Nat) := do
  let s ← get
  match s.freelist with
  | [] => return none
  | page :: next =>
    set { s with freelist := next }
    return some page

/-- `kfree` of a pipe. -/
def kfree (page : Nat) : Sys Unit := modify fun s => { s.setPipe page none with freelist := page :: s.freelist }

def pipeclose (page : Nat) (writable : Bool) : Sys Unit := do
  match (← get).pipe page with
  | none => throw .stray
  | some p =>
    let p := Stream.pipeclose p writable
    modify fun s => s.setPipe page (some p)
    if p.readopen = false ∧ p.writeopen = false then kfree page

/-- Close file f: decrement ref count, close when it reaches 0. -/
def fileclose (f : Fin NFILE) : Sys Unit := do
  let ff := (← get).file f
  if ff.ref < 1 then throw (.panic "fileclose")
  modifyFile f fun file => { file with ref := file.ref - 1 }
  if ff.ref = 1 then
    modifyFile f fun file => { file with type := .FD_NONE }
    match ff.type with
    | .FD_PIPE => pipeclose ff.pipe ff.writable
    | .FD_INODE =>
      begin_op
      fs (iput sb ff.ip)
      end_op
    | .FD_NONE => return ()

/-- The page of a pipe holds what `kfree` left in it. -/
def pipealloc : Sys (Option (Fin NFILE × Fin NFILE)) := do
  match ← filealloc with
  | none => return none
  | some f0 =>
    match ← filealloc with
    | none =>
      fileclose sb f0
      return none
    | some f1 =>
      match ← kalloc with
      | none =>
        fileclose sb f0
        fileclose sb f1
        return none
      | some page =>
        modify fun s => s.setPipe page (some (Stream.pipealloc fun _ => 1))
        modifyFile f0 fun file => { file with type := .FD_PIPE, readable := true, writable := false, pipe := page }
        modifyFile f1 fun file => { file with type := .FD_PIPE, readable := false, writable := true, pipe := page }
        return some (f0, f1)

def fdalloc (p : Fin NPROC) (f : Fin NFILE) : Sys (Option (Fin NOFILE)) := do
  let s ← get
  match (List.finRange NOFILE).find? fun fd => ((s.proc p).bind fun curproc => curproc.ofile fd).isNone with
  | some fd =>
    setFd p fd (some f)
    return some fd
  | none => return none

end Xv6.Fs
