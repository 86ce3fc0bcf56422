import Xv6.Calls.Files
import Xv6.Fs.Names

namespace Xv6.Fs

def O_WRONLY : BitVec 32 := 0x001
def O_RDWR : BitVec 32 := 0x002
def O_CREATE : BitVec 32 := 0x200

variable (sb : Superblock) (devsw : Devsw)

def updateInode (k : Fin NINODE) (f : Dinode → Dinode) : Op Unit := do
  modifyInode k fun ip => { ip with dinode := f ip.dinode }
  iupdate sb k

def isdirempty (dp : Fin NINODE) : Op Bool := do
  let size := ((← get).inode dp).dinode.size.toNat
  let (_, found) ← scan sb devsw "isdirempty: readi" (fun de => de.inum ≠ 0) dp size 32
  return found.isNone

/-- `bad` in `sys_link`: the link that was counted is not made. -/
def unlinkBack (ip : Fin NINODE) : Op Int := do
  ilock sb ip
  updateInode sb ip fun d => { d with nlink := d.nlink - 1 }
  iunlockput sb ip
  return -1

/-- Create the path new as a link to the same inode as old, between `begin_op` and `end_op`. There is one device. -/
def link (cwd : Fin NINODE) (old new : Chars) : Op Int := do
  match ← namei sb devsw cwd old with
  | none => return -1
  | some ip =>
    ilock sb ip
    if ((← get).inode ip).dinode.type = T_DIR then
      iunlockput sb ip
      return -1
    updateInode sb ip fun d => { d with nlink := d.nlink + 1 }
    iunlock ip
    match ← nameiparent sb devsw cwd new with
    | none => unlinkBack sb ip
    | some (dp, name) =>
      ilock sb dp
      if (← dirlink sb devsw dp name ((← get).inode ip).inum) < 0 then
        iunlockput sb dp
        unlinkBack sb ip
      else
        iunlockput sb dp
        iput sb ip
        return 0

def busy (ip : Fin NINODE) : Op Bool := do
  if ((← get).inode ip).dinode.type = T_DIR then return !(← isdirempty sb devsw ip)
  return false

/-- `sys_unlink` between `begin_op` and `end_op` -/
def unlink (cwd : Fin NINODE) (path : Chars) : Op Int := do
  match ← nameiparent sb devsw cwd path with
  | none => return -1
  | some (dp, name) =>
    ilock sb dp
    if name = dot ∨ name = dotdot then
      iunlockput sb dp
      return -1
    match ← dirlookup sb devsw dp name with
    | none =>
      iunlockput sb dp
      return -1
    | some (ip, off) =>
      ilock sb ip
      if ((← get).inode ip).dinode.nlink.toInt < 1 then throw "unlink: nlink < 1"
      if ← busy sb devsw ip then
        iunlockput sb ip
        iunlockput sb dp
        return -1
      if (← writei sb devsw dp Dirent.empty.bytes (BitVec.ofNat 32 off) 16) ≠ 16 then throw "unlink: writei"
      if ((← get).inode ip).dinode.type = T_DIR then updateInode sb dp fun d => { d with nlink := d.nlink - 1 }
      iunlockput sb dp
      updateInode sb ip fun d => { d with nlink := d.nlink - 1 }
      iunlockput sb ip
      return 0

def createDots (dp ip : Fin NINODE) : Op Unit := do
  updateInode sb dp fun d => { d with nlink := d.nlink + 1 }
  if (← dirlink sb devsw ip dot ((← get).inode ip).inum) < 0 then throw "create dots"
  if (← dirlink sb devsw ip dotdot ((← get).inode dp).inum) < 0 then throw "create dots"

/-- The inode of a new path, locked, or of a file that is there. -/
def create (cwd : Fin NINODE) (path : Chars) (type major minor : Short) : Op (Option (Fin NINODE)) := do
  match ← nameiparent sb devsw cwd path with
  | none => return none
  | some (dp, name) =>
    ilock sb dp
    match ← dirlookup sb devsw dp name with
    | some (ip, _) =>
      iunlockput sb dp
      ilock sb ip
      if type = T_FILE ∧ ((← get).inode ip).dinode.type = T_FILE then return some ip
      iunlockput sb ip
      return none
    | none =>
      let ip ← ialloc sb type
      ilock sb ip
      updateInode sb ip fun d => { d with major := major, minor := minor, nlink := 1 }
      if type = T_DIR then createDots sb devsw dp ip
      if (← dirlink sb devsw dp name ((← get).inode ip).inum) < 0 then throw "create: dirlink"
      iunlockput sb dp
      return some ip

/-- The inode that `sys_open` opens, locked. -/
def openInode (cwd : Fin NINODE) (path : Chars) (omode : BitVec 32) : Op (Option (Fin NINODE)) := do
  if omode &&& O_CREATE ≠ 0 then create sb devsw cwd path T_FILE 0 0
  else
    match ← namei sb devsw cwd path with
    | none => return none
    | some ip =>
      ilock sb ip
      if ((← get).inode ip).dinode.type = T_DIR ∧ omode ≠ 0 then
        iunlockput sb ip
        return none
      return some ip

/-- The directory that `sys_chdir` goes to. -/
def chdirInode (cwd : Fin NINODE) (path : Chars) : Op (Option (Fin NINODE)) := do
  match ← namei sb devsw cwd path with
  | none => return none
  | some ip =>
    ilock sb ip
    if ((← get).inode ip).dinode.type ≠ T_DIR then
      iunlockput sb ip
      return none
    iunlock ip
    iput sb cwd
    return some ip

/-- A string argument, up to its zero; `none` where it is not in the memory of the process. -/
def argstr (arg : Option Chars) : Option Chars := arg.map fun s => s.takeWhile (· ≠ 0)

/-- An operation of the file system between `begin_op` and `end_op`. -/
def logged {α : Type} (x : Op α) : Sys α := do
  begin_op
  let r ← fs x
  end_op
  return r

def initproc : Fin NPROC := ⟨0, by decide⟩

namespace Process

def sys_link (curproc : Process) (old new : Option Chars) : Sys Int := do
  match argstr old, argstr new with
  | some old, some new => logged (link sb devsw curproc.cwd old new)
  | _, _ => return -1

def sys_unlink (curproc : Process) (path : Option Chars) : Sys Int := do
  match argstr path with
  | some path => logged (unlink sb devsw curproc.cwd path)
  | none => return -1

def sys_open (p : Fin NPROC) (curproc : Process) (path : Option Chars) (omode : BitVec 32) : Sys Int := do
  match argstr path with
  | none => return -1
  | some path =>
    begin_op
    match ← fs (openInode sb devsw curproc.cwd path omode) with
    | none =>
      end_op
      return -1
    | some ip =>
      match ← filealloc with
      | none =>
        fs (iunlockput sb ip)
        end_op
        return -1
      | some f =>
        match ← fdalloc p f with
        | none =>
          fileclose sb f
          fs (iunlockput sb ip)
          end_op
          return -1
        | some fd =>
          fs (iunlock ip)
          end_op
          modifyFile f fun file =>
            { file with
              type := .FD_INODE, ip := ip, off := 0, readable := decide (omode &&& O_WRONLY = 0),
              writable := decide (omode &&& O_WRONLY ≠ 0 ∨ omode &&& O_RDWR ≠ 0) }
          return (fd.val : Int)

/-- `begin_op` comes before `argstr`. -/
def sys_mkdir (curproc : Process) (path : Option Chars) : Sys Int :=
  logged do
    match argstr path with
    | none => return -1
    | some path =>
      match ← create sb devsw curproc.cwd path T_DIR 0 0 with
      | none => return -1
      | some ip =>
        iunlockput sb ip
        return 0

def sys_mknod (curproc : Process) (path : Option Chars) (device : Option (Short × Short)) : Sys Int :=
  logged do
    match argstr path, device with
    | some path, some (major, minor) =>
      match ← create sb devsw curproc.cwd path T_DEV major minor with
      | none => return -1
      | some ip =>
        iunlockput sb ip
        return 0
    | _, _ => return -1

def sys_chdir (p : Fin NPROC) (curproc : Process) (path : Option Chars) : Sys Int := do
  match ← logged (match argstr path with
    | none => return none
    | some path => chdirInode sb devsw curproc.cwd path) with
  | none => return -1
  | some ip =>
    modify fun s => s.setProc p ((s.proc p).map fun proc => { proc with cwd := ip })
    return 0

/-- What `exec` does with the inode: some reads, and then memory for the image is had (`loaded`) or not. With the inode
put back it still may fail. -/
def exec (curproc : Process) (path : Option Chars) (reads : List (Uint × Uint)) (loaded built : Bool) : Sys Int := do
  match argstr path with
  | none => return -1
  | some path =>
    begin_op
    match ← fs (namei sb devsw curproc.cwd path) with
    | none =>
      end_op
      return -1
    | some ip =>
      fs (ilock sb ip)
      fs (reads.forM fun (off, n) => do let _ ← readi sb devsw ip off n)
      fs (iunlockput sb ip)
      end_op
      return if loaded ∧ built then 0 else -1

def argfd (curproc : Process) (fd : Option (Fin NOFILE)) : Option (Fin NOFILE × Fin NFILE) :=
  fd.bind fun fd => (curproc.ofile fd).map fun f => (fd, f)

def sys_dup (p : Fin NPROC) (curproc : Process) (fd : Option (Fin NOFILE)) : Sys Int := do
  match curproc.argfd fd with
  | none => return -1
  | some (_, f) =>
    match ← fdalloc p f with
    | none => return -1
    | some fd =>
      filedup f
      return (fd.val : Int)

def sys_close (p : Fin NPROC) (curproc : Process) (fd : Option (Fin NOFILE)) : Sys Int := do
  match curproc.argfd fd with
  | none => return -1
  | some (fd, f) =>
    Fs.setFd p fd none
    fileclose sb f
    return 0

/-- `valid` if the argument is in the memory of the process. -/
def sys_pipe (p : Fin NPROC) (valid : Bool) : Sys Int := do
  if !valid then return -1
  match ← pipealloc sb with
  | none => return -1
  | some (rf, wf) =>
    match ← fdalloc p rf with
    | none =>
      fileclose sb rf
      fileclose sb wf
      return -1
    | some fd0 =>
      match ← fdalloc p wf with
      | none =>
        Fs.setFd p fd0 none
        fileclose sb rf
        fileclose sb wf
        return -1
      | some _ => return 0

/-- `fork` with the slot and the pid that `allocproc` and `copyuvm` have made ready, if they have. -/
def fork (curproc : Process) (child : Option (Fin NPROC × Int)) : Sys Int := do
  match child with
  | none => return -1
  | some (np, pid) =>
    (List.finRange NOFILE).forM fun i =>
      match curproc.ofile i with
      | some f => filedup f
      | none => return ()
    let cwd ← fs (idup curproc.cwd)
    modify fun s => s.setProc np (some { curproc with cwd := cwd })
    return pid

def exit (p : Fin NPROC) (curproc : Process) : Sys Int := do
  if p = initproc then throw (.panic "init exiting")
  (List.finRange NOFILE).forM fun fd =>
    match curproc.ofile fd with
    | some f => do
      fileclose sb f
      Fs.setFd p fd none
    | none => return ()
  begin_op
  fs (iput sb curproc.cwd)
  end_op
  modify fun s => s.setProc p none
  return 0

end Process

/-- The system calls that change directories, or references to files or inodes. -/
inductive Call where
  | mkdir (path : Option Chars)
  | mknod (path : Option Chars) (device : Option (Short × Short))
  | open (path : Option Chars) (omode : BitVec 32)
  | link (old new : Option Chars)
  | unlink (path : Option Chars)
  | chdir (path : Option Chars)
  | exec (path : Option Chars) (reads : List (Uint × Uint)) (loaded built : Bool)
  | dup (fd : Option (Fin NOFILE))
  | pipe (valid : Bool)
  | close (fd : Option (Fin NOFILE))
  | fork (child : Option (Fin NPROC × Int))
  | exit

namespace Call

/-- A system call of process `p`. -/
def run (p : Fin NPROC) (curproc : Process) : Call → Sys Int
  | mkdir path => curproc.sys_mkdir sb devsw path
  | mknod path device => curproc.sys_mknod sb devsw path device
  | .open path omode => curproc.sys_open sb devsw p path omode
  | link old new => curproc.sys_link sb devsw old new
  | unlink path => curproc.sys_unlink sb devsw path
  | chdir path => curproc.sys_chdir sb devsw p path
  | exec path reads loaded built => curproc.exec sb devsw path reads loaded built
  | dup fd => curproc.sys_dup p fd
  | pipe valid => Process.sys_pipe sb p valid
  | close fd => curproc.sys_close sb p fd
  | fork child => curproc.fork child
  | exit => curproc.exit sb p

def Allowed (s : Kernel) : Call → Bool
  | fork (some (np, _)) => (s.proc np).isNone
  | _ => true

end Call

/-- A system call of a process, or other parts of the kernel take pages from the free list and give some back. -/
inductive Event where
  | call (p : Fin NPROC) (call : Call)
  | pages (freelist : List Nat)

/-- The rest of the kernel frees no pipe and no page twice. -/
def Event.next (s : Kernel) : Event → Option Kernel
  | .call p c =>
    if c.Allowed s then (s.proc p).bind fun curproc => ((c.run sb devsw p curproc) s).toOption.map Prod.snd else none
  | .pages freelist =>
    if freelist.Nodup ∧ ∀ page ∈ freelist, (s.pipe page).isNone then some { s with freelist := freelist } else none

def Event.step (s : Kernel) (a : Event) (s' : Kernel) : Prop := a.next sb devsw s = some s'

/-- `struct inode` in an entry of the cache that was never used -/
def noInode : Inode := ⟨0, 0, none, false, ⟨0, 0, 0, 0, 0, fun _ => 0⟩⟩

def noFile : File := ⟨.FD_NONE, 0, false, false, 0, ⟨0, ninode_pos⟩, 0⟩

/-- The kernel with its first process, whose current directory is the root. -/
def booted (d : Disk) (freelist : List Nat) : Kernel where
  fs := { disk := d, inode := Function.update (fun _ => noInode) ⟨0, ninode_pos⟩ { noInode with inum := ROOTINO, ref := 1 } }
  outstanding := 0
  file _ := noFile
  pipe _ := none
  freelist := freelist
  proc := Function.update (fun _ => none) initproc (some ⟨fun _ => none, ⟨0, ninode_pos⟩⟩)

end Xv6.Fs
