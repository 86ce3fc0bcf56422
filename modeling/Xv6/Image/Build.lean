import Xv6.Fs.Mkfs
import Xv6.Fs.Names

namespace Xv6.Fs.Mkfs

open Function Bytes

/-- A file on the command line: its name there, and what each `read` of it returns. -/
structure Input where
  name : Chars
  chunks : List Chars
  string : 0 ∉ name
  nonempty : ∀ chunk ∈ chunks, chunk ≠ []

/-- How `mkfs` ends when its exit status is not 0: by `exit(1)` or by an assertion. -/
inductive Failure where
  | exit
  | assert
  deriving DecidableEq

structure Image where
  disk : Disk
  freeinode : Nat
  freeblock : Nat

abbrev Result := Except Failure

/-- A sector that can be read. Those behind the end of the file cannot, and `wsect` only writes to those that were read. -/
def rsect (sec : Nat) : Result Unit := if sec < sb.size then .ok () else .error .exit

def winode (d : Disk) (inum : Nat) (ip : Dinode) : Result Disk := do
  rsect (sb.iblock inum)
  .ok (sb.putDinode d inum ip)

def rinode (d : Disk) (inum : Nat) : Result Dinode := do
  rsect (sb.iblock inum)
  .ok (sb.dinode d inum)

def ialloc (s : Image) (type : Short) : Result (Nat × Image) := do
  let d ← winode s.disk s.freeinode ⟨type, 0, 0, 1, 0, fun _ => 0⟩
  .ok (s.freeinode, { s with disk := d, freeinode := s.freeinode + 1 })

/-- The entry of the indirect block, with that block read. -/
def blockEntry (d : Disk) (fb : Nat) (din : Dinode) (table j : Nat) : Result (Nat × Disk × Nat × Dinode) := do
  rsect table
  if load 4 (d table) (4 * j) = 0 then .ok (fb, update d table (store 4 (d table) (4 * j) fb), fb + 1, din)
  else .ok (load 4 (d table) (4 * j), d, fb, din)

/-- The block for `fbn` in `iappend`, the next free one if there is none. -/
def blockOf (d : Disk) (fb : Nat) (din : Dinode) (fbn : Nat) : Result (Nat × Disk × Nat × Dinode) :=
  if h : fbn < NDIRECT then
    let i : Fin (NDIRECT + 1) := ⟨fbn, Nat.lt_succ_of_lt h⟩
    if din.addrs i = 0 then .ok (fb, d, fb + 1, din.setAddr i fb) else .ok ((din.addrs i).toNat, d, fb, din)
  else if din.addrs indirect = 0 then blockEntry d (fb + 1) (din.setAddr indirect fb) fb (fbn - NDIRECT)
  else blockEntry d fb din (din.addrs indirect).toNat (fbn - NDIRECT)

/-- The loop of `iappend`. -/
def appendLoop : Nat → Disk → Nat → Dinode → Nat → Nat → (Nat → UInt8) → Result (Disk × Nat × Dinode)
  | 0, d, fb, din, _, _, _ => .ok (d, fb, din)
  | fuel + 1, d, fb, din, off, n, p =>
    if n = 0 then .ok (d, fb, din)
    else if MAXFILE ≤ off / BSIZE then .error .assert
    else do
      let (x, d, fb, din) ← blockOf d fb din (off / BSIZE)
      let n1 := min n ((off / BSIZE + 1) * BSIZE - off)
      rsect x
      let d := update d x (copy n1 (d x) (off - off / BSIZE * BSIZE) p)
      appendLoop fuel d fb din (off + n1) (n - n1) fun i => p (n1 + i)

def iappend (s : Image) (inum : Nat) (p : Nat → UInt8) (n : Nat) : Result Image := do
  let din ← rinode s.disk inum
  let (d, fb, din) ← appendLoop n s.disk s.freeblock din din.size.toNat n p
  let d ← winode d inum { din with size := BitVec.ofNat 32 (din.size.toNat + n) }
  .ok { s with disk := d, freeblock := fb }

def buffer (bytes : Chars) (i : Nat) : UInt8 := bytes.getD i 0

def Input.bytes (file : Input) : Chars := file.chunks.flatten

def Input.target (file : Input) : Chars :=
  (if file.name.head? = some 95 then file.name.tail else file.name).take DIRSIZ

def addFile (s : Image) (file : Input) : Result Image := do
  if slash ∈ file.name then .error .assert
  else
    let (inum, s) ← ialloc s T_FILE
    let s ← iappend s ROOTINO (Dirent.mk (BitVec.ofNat 16 inum) file.target).bytes 16
    file.chunks.foldlM (fun s chunk => iappend s inum (buffer chunk) chunk.length) s

def start : Result Image := do
  let (rootino, s) ← ialloc ⟨fun _ _ => 0, 1, sb.datastart⟩ T_DIR
  let s ← iappend s rootino (Dirent.mk (BitVec.ofNat 16 rootino) dot).bytes 16
  iappend s rootino (Dirent.mk (BitVec.ofNat 16 rootino) dotdot).bytes 16

def fixRoot (d : Disk) : Result Disk := do
  let din ← rinode d ROOTINO
  winode d ROOTINO { din with size := BitVec.ofNat 32 ((din.size.toNat / BSIZE + 1) * BSIZE) }

/-- `main`: the image, if the exit status is 0. -/
def mkfs (files : List Input) : Result Image := do
  let s ← start
  let s ← files.foldlM addFile s
  let d ← fixRoot s.disk
  if s.freeblock < BSIZE * 8 then .ok { s with disk := balloc d s.freeblock } else .error .assert

end Xv6.Fs.Mkfs
