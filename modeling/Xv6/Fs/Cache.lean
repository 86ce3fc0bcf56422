import Xv6.Fs.Inode

namespace Xv6.Fs

open Function

def NINODE : Nat := 50

theorem ninode_pos : 0 < NINODE := by decide

/-- Who holds a sleep lock: the process whose operations these are, or another one. -/
inductive Holder where
  | caller
  | other
  deriving DecidableEq

/-- `struct inode`: an entry of the inode cache, with its copy of the disk inode. -/
structure Inode where
  inum : Nat
  ref : Nat
  lock : Option Holder
  valid : Bool
  dinode : Dinode

/-- `holdingsleep` -/
def Inode.locked (ip : Inode) : Bool := ip.lock = some .caller

structure State where
  disk : Disk
  inode : Fin NINODE → Inode

/-- The operations of the file system. An error is a panic, or a process that sleeps on a lock of its own. -/
abbrev Op := StateT State (Except String)

def State.setInode (s : State) (k : Fin NINODE) (ip : Inode) : State := { s with inode := update s.inode k ip }

def modifyInode (k : Fin NINODE) (f : Inode → Inode) : Op Unit := modify fun s => s.setInode k (f (s.inode k))

/-- What an operation on the copy of the disk inode does to the state. -/
def State.setDinode (s : State) (k : Fin NINODE) (d : Disk) (ip : Dinode) : State :=
  { disk := d, inode := update s.inode k { s.inode k with dinode := ip } }

/-- A lock that another process holds is taken when that process has released it. -/
def acquiresleep (k : Fin NINODE) : Op Unit := do
  if ((← get).inode k).locked then throw "acquiresleep: held by the caller"
  modifyInode k fun ip => { ip with lock := some .caller }

def releasesleep (k : Fin NINODE) : Op Unit := modifyInode k fun ip => { ip with lock := none }

variable (sb : Superblock) (devsw : Devsw)

/-- The cache entry of inode `inum`, with one more reference. -/
def iget (inum : Nat) : Op (Fin NINODE) := do
  let s ← get
  match (List.finRange NINODE).find? fun k => decide (0 < (s.inode k).ref ∧ (s.inode k).inum = inum) with
  | some k =>
    modifyInode k fun ip => { ip with ref := ip.ref + 1 }
    return k
  | none =>
    match (List.finRange NINODE).find? fun k => decide ((s.inode k).ref = 0) with
    | some k =>
      modifyInode k fun ip => { ip with inum := inum, ref := 1, valid := false }
      return k
    | none => throw "iget: no inodes"

def idup (k : Fin NINODE) : Op (Fin NINODE) := do
  modifyInode k fun ip => { ip with ref := ip.ref + 1 }
  return k

def iupdate (k : Fin NINODE) : Op Unit :=
  modify fun s => { s with disk := sb.putDinode s.disk (s.inode k).inum (s.inode k).dinode }

/-- Allocate an inode of type `type`. -/
def ialloc (type : Short) : Op (Fin NINODE) := do
  let s ← get
  match (List.range sb.ninodes).find? fun inum => decide (1 ≤ inum ∧ (sb.dinode s.disk inum).type = 0) with
  | some inum =>
    set { s with disk := sb.putDinode s.disk inum ⟨type, 0, 0, 0, 0, fun _ => 0⟩ }
    iget inum
  | none => throw "ialloc: no inodes"

/-- Lock an inode, and read it from disk if necessary. -/
def ilock (k : Fin NINODE) : Op Unit := do
  if ((← get).inode k).ref < 1 then throw "ilock"
  acquiresleep k
  let s ← get
  if !(s.inode k).valid then
    modifyInode k fun ip => { ip with dinode := sb.dinode s.disk ip.inum, valid := true }
    if (sb.dinode s.disk (s.inode k).inum).type = 0 then throw "ilock: no type"

def iunlock (k : Fin NINODE) : Op Unit := do
  let s ← get
  if !(s.inode k).locked || (s.inode k).ref < 1 then throw "iunlock"
  releasesleep k

def itrunc (k : Fin NINODE) : Op Unit := do
  let s ← get
  let (d, ip) ← sb.itrunc s.disk (s.inode k).inum (s.inode k).dinode
  set (s.setDinode k d ip)

/-- Drop a reference. An inode without links is freed with the last one. -/
def iput (k : Fin NINODE) : Op Unit := do
  acquiresleep k
  let s ← get
  if (s.inode k).valid && (s.inode k).dinode.nlink == 0 then
    if (s.inode k).ref = 1 then
      itrunc sb k
      modifyInode k fun ip => { ip with dinode := { ip.dinode with type := 0 } }
      iupdate sb k
      modifyInode k fun ip => { ip with valid := false }
  releasesleep k
  modifyInode k fun ip => { ip with ref := ip.ref - 1 }

def iunlockput (k : Fin NINODE) : Op Unit := do
  iunlock k
  iput sb k

def readi (k : Fin NINODE) (off n : Uint) : Op (Int × List UInt8) := do
  let s ← get
  let (answer, d, ip) ← sb.readi devsw s.disk (s.inode k).dinode off n
  set (s.setDinode k d ip)
  return answer

def writei (k : Fin NINODE) (src : Nat → UInt8) (off n : Uint) : Op Int := do
  let s ← get
  let (answer, d, ip) ← sb.writei devsw s.disk (s.inode k).inum (s.inode k).dinode src off n
  set (s.setDinode k d ip)
  return answer

end Xv6.Fs
