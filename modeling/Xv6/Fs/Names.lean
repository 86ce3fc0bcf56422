import Xv6.Fs.Cache

namespace Xv6.Fs

open Bytes

def DIRSIZ : Nat := 14
def ROOTINO : Nat := 1

abbrev Chars := List UInt8

def slash : UInt8 := 47

/-- The names of the two entries that every directory has. -/
def dot : Chars := [46]

def dotdot : Chars := [46, 46]

/-- `struct dirent`, with the string in its `name` -/
structure Dirent where
  inum : Short
  name : Chars
  deriving DecidableEq

/-- The 16 bytes of an entry. Behind the string `name` holds zeros. -/
def Dirent.bytes (de : Dirent) (i : Nat) : UInt8 :=
  if i < 2 then store 2 (fun _ => 0) 0 de.inum.toNat i else de.name.getD (i - 2) 0

def Dirent.ofBytes (bytes : Chars) : Dirent where
  inum := BitVec.ofNat 16 (load 2 (fun i => bytes.getD i 0) 0)
  name := ((List.range DIRSIZ).map fun i => bytes.getD (2 + i) 0).takeWhile (· ≠ 0)

def Dirent.empty : Dirent := ⟨0, []⟩

/-- The sign is that of the first difference among the first `n` bytes. -/
def strncmp : Chars → Chars → Nat → Int
  | _, _, 0 => 0
  | p, q, n + 1 =>
    if p.headD 0 ≠ 0 ∧ p.headD 0 = q.headD 0 then strncmp p.tail q.tail n
    else (p.headD 0).toNat - (q.headD 0).toNat

/-- The `n` bytes that are written: the string, cut off or filled up with zeros. -/
def strncpy : Chars → Nat → Chars
  | _, 0 => []
  | t, n + 1 => t.headD 0 :: if t.headD 0 = 0 then List.replicate n 0 else strncpy t.tail n

def namecmp (s t : Chars) : Int := strncmp s t DIRSIZ

/-- Copy the next path element from path into name, and return what follows it. -/
def skipelem (path : Chars) : Option (Chars × Chars) :=
  let path := path.dropWhile (· = slash)
  if path = [] then none
  else some ((path.takeWhile (· ≠ slash)).take DIRSIZ, (path.dropWhile (· ≠ slash)).dropWhile (· = slash))

variable (sb : Superblock) (devsw : Devsw)

/-- The loop over the entries from `off` on, up to one that passes a test. -/
def scan (message : String) (test : Dirent → Bool) (dp : Fin NINODE) : Nat → Nat → Op (Nat × Option Dirent)
  | 0, off => return (off, none)
  | fuel + 1, off => do
    if off < ((← get).inode dp).dinode.size.toNat then
      let (r, bytes) ← readi sb devsw dp (BitVec.ofNat 32 off) 16
      if r ≠ 16 then throw message
      if test (.ofBytes bytes) then return (off, some (.ofBytes bytes))
      scan message test dp fuel (off + 16)
    else return (off, none)

/-- Look for a directory entry in a directory: its inode and its offset. -/
def dirlookup (dp : Fin NINODE) (name : Chars) : Op (Option (Fin NINODE × Nat)) := do
  let dinode := ((← get).inode dp).dinode
  if dinode.type ≠ T_DIR then throw "dirlookup not DIR"
  let (off, found) ← scan sb devsw "dirlookup read" (fun de => de.inum ≠ 0 && namecmp name de.name = 0) dp dinode.size.toNat 0
  match found with
  | some de =>
    let ip ← iget de.inum.toNat
    return some (ip, off)
  | none => return none

/-- Write a new directory entry (name, inum) into a directory. -/
def dirlink (dp : Fin NINODE) (name : Chars) (inum : Nat) : Op Int := do
  match ← dirlookup sb devsw dp name with
  | some (ip, _) =>
    iput sb ip
    return -1
  | none =>
    let size := ((← get).inode dp).dinode.size.toNat
    let (off, _) ← scan sb devsw "dirlink read" (fun de => de.inum = 0) dp size 0
    let r ← writei sb devsw dp (Dirent.mk (BitVec.ofNat 16 inum) (strncpy name DIRSIZ)).bytes (BitVec.ofNat 32 off) 16
    if r ≠ 16 then throw "dirlink"
    return 0

/-- The loop of `namex`. Each pass takes an element off the path. -/
def namexLoop (nameiparent : Bool) : Nat → Chars → Fin NINODE → Chars → Op (Option (Fin NINODE × Chars))
  | 0, _, _, _ => return none
  | fuel + 1, path, ip, name => do
    match skipelem path with
    | none =>
      if nameiparent then
        iput sb ip
        return none
      return some (ip, name)
    | some (name, path) =>
      ilock sb ip
      if ((← get).inode ip).dinode.type ≠ T_DIR then
        iunlockput sb ip
        return none
      if nameiparent && path.isEmpty then
        iunlock ip
        return some (ip, name)
      match ← dirlookup sb devsw ip name with
      | none =>
        iunlockput sb ip
        return none
      | some (next, _) =>
        iunlockput sb ip
        namexLoop nameiparent fuel path next name

/-- Look up the inode for a path name, or that of its parent and the final path element. -/
def namex (cwd : Fin NINODE) (path : Chars) (nameiparent : Bool) : Op (Option (Fin NINODE × Chars)) := do
  let ip ← if path.head? = some slash then iget ROOTINO else idup cwd
  namexLoop sb devsw nameiparent (path.length + 1) path ip []

def namei (cwd : Fin NINODE) (path : Chars) : Op (Option (Fin NINODE)) := do
  return (← namex sb devsw cwd path false).map Prod.fst

def nameiparent (cwd : Fin NINODE) (path : Chars) : Op (Option (Fin NINODE × Chars)) := namex sb devsw cwd path true

end Xv6.Fs
