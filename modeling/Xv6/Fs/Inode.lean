import Xv6.Fs.Layout

namespace Xv6.Fs

open Function Bytes

def NDEV : Nat := 10

structure Devsw where
  read : Nat → Option (Uint → Int × List UInt8)
  write : Nat → Option ((Nat → UInt8) → Uint → Int)

def noDevice : Devsw := ⟨fun _ => none, fun _ => none⟩

def Dinode.setAddr (ip : Dinode) (i : Fin (NDIRECT + 1)) (addr : Nat) : Dinode :=
  { ip with addrs := update ip.addrs i (BitVec.ofNat 32 addr) }

/-- `NDIRECT`, as an index of `addrs`. -/
def indirect : Fin (NDIRECT + 1) := Fin.last NDIRECT

namespace Superblock

variable (sb : Superblock) (devsw : Devsw)

def bzero (d : Disk) (b : Nat) : Disk := update d b fun _ => 0

/-- The first free block in the order of the two loops of `balloc`. -/
def firstFree (d : Disk) : Option Nat :=
  (List.range ((sb.size + BPB - 1) / BPB)).findSome? fun group =>
    ((List.range BPB).find? fun bi =>
      decide (group * BPB + bi < sb.size) && !testBit (d (sb.bblock (group * BPB))) bi).map (group * BPB + ·)

def balloc (d : Disk) : Except String (Nat × Disk) :=
  match sb.firstFree d with
  | some b => .ok (b, bzero (update d (sb.bblock b) (setBit (d (sb.bblock b)) (b % BPB))) b)
  | none => .error "balloc: out of blocks"

def bfree (d : Disk) (b : Nat) : Except String Disk :=
  if testBit (d (sb.bblock b)) (b % BPB) then .ok (update d (sb.bblock b) (clearBit (d (sb.bblock b)) (b % BPB)))
  else .error "freeing free block"

/-- `bmap` with the indirect block `table` loaded. -/
def bmapEntry (d : Disk) (ip : Dinode) (table bn : Nat) : Except String (Nat × Disk × Dinode) :=
  if load 4 (d table) (4 * bn) = 0 then do
    let (addr, d) ← sb.balloc d
    .ok (addr, update d table (store 4 (d table) (4 * bn) addr), ip)
  else .ok (load 4 (d table) (4 * bn), d, ip)

/-- The disk block address of the nth block in an inode; a block that is not there is allocated. -/
def bmap (d : Disk) (ip : Dinode) (bn : Nat) : Except String (Nat × Disk × Dinode) :=
  if h : bn < NDIRECT then
    let i : Fin (NDIRECT + 1) := ⟨bn, Nat.lt_succ_of_lt h⟩
    if ip.addrs i = 0 then do
      let (addr, d) ← sb.balloc d
      .ok (addr, d, ip.setAddr i addr)
    else .ok ((ip.addrs i).toNat, d, ip)
  else if bn - NDIRECT < NINDIRECT then
    if ip.addrs indirect = 0 then do
      let (table, d) ← sb.balloc d
      sb.bmapEntry d (ip.setAddr indirect table) table (bn - NDIRECT)
    else sb.bmapEntry d ip (ip.addrs indirect).toNat (bn - NDIRECT)
  else .error "bmap: out of range"

/-- One direct block of `itrunc`. -/
def truncDirect (d : Disk) (ip : Dinode) (i : Fin (NDIRECT + 1)) : Except String (Disk × Dinode) :=
  if ip.addrs i = 0 then .ok (d, ip)
  else do
    let d ← sb.bfree d (ip.addrs i).toNat
    .ok (d, ip.setAddr i 0)

/-- Free the block of one entry of the indirect block. -/
def truncEntry (table : Nat) (d : Disk) (j : Nat) : Except String Disk :=
  if load 4 (d table) (4 * j) = 0 then .ok d else sb.bfree d (load 4 (d table) (4 * j))

def truncIndirect (d : Disk) (ip : Dinode) : Except String (Disk × Dinode) :=
  if ip.addrs indirect = 0 then .ok (d, ip)
  else do
    let table := (ip.addrs indirect).toNat
    let d ← (List.range NINDIRECT).foldlM (sb.truncEntry table) d
    let d ← sb.bfree d table
    .ok (d, ip.setAddr indirect 0)

def itrunc (d : Disk) (inum : Nat) (ip : Dinode) : Except String (Disk × Dinode) := do
  let (d, ip) ← (List.finRange NDIRECT).foldlM (fun (d, ip) i => sb.truncDirect d ip i.castSucc) (d, ip)
  let (d, ip) ← sb.truncIndirect d ip
  let ip := { ip with size := 0 }
  .ok (sb.putDinode d inum ip, ip)

/-- The loop of `readi`. Each pass reads at least one byte, so `n` passes are enough. -/
def readLoop : Nat → Disk → Dinode → Nat → Nat → List UInt8 → Except String (List UInt8 × Disk × Dinode)
  | 0, d, ip, _, _, dst => .ok (dst, d, ip)
  | fuel + 1, d, ip, off, n, dst =>
    if n = 0 then .ok (dst, d, ip)
    else do
      let (b, d, ip) ← sb.bmap d ip (off / BSIZE)
      let m := min n (BSIZE - off % BSIZE)
      readLoop fuel d ip (off + m) (n - m) (dst ++ (List.range m).map fun i => d b (off % BSIZE + i))

/-- Read data from inode: the return value and the bytes. -/
def readi (d : Disk) (ip : Dinode) (off n : Uint) : Except String ((Int × List UInt8) × Disk × Dinode) :=
  if ip.type = T_DEV then
    if ip.major.toInt < 0 ∨ ip.major.toInt ≥ NDEV then .ok ((-1, []), d, ip)
    else
      match devsw.read ip.major.toNat with
      | none => .ok ((-1, []), d, ip)
      | some read => .ok (read n, d, ip)
  else if off > ip.size ∨ off + n < off then .ok ((-1, []), d, ip)
  else do
    let n := if off + n > ip.size then ip.size - off else n
    let (dst, d, ip) ← sb.readLoop n.toNat d ip off.toNat n.toNat []
    .ok ((n.toNat, dst), d, ip)

/-- The loop of `writei`. -/
def writeLoop : Nat → Disk → Dinode → Nat → Nat → (Nat → UInt8) → Except String (Disk × Dinode)
  | 0, d, ip, _, _, _ => .ok (d, ip)
  | fuel + 1, d, ip, off, n, src =>
    if n = 0 then .ok (d, ip)
    else do
      let (b, d, ip) ← sb.bmap d ip (off / BSIZE)
      let m := min n (BSIZE - off % BSIZE)
      writeLoop fuel (update d b (copy m (d b) (off % BSIZE) src)) ip (off + m) (n - m) fun i => src (m + i)

def writei (d : Disk) (inum : Nat) (ip : Dinode) (src : Nat → UInt8) (off n : Uint) :
    Except String (Int × Disk × Dinode) :=
  if ip.type = T_DEV then
    if ip.major.toInt < 0 ∨ ip.major.toInt ≥ NDEV then .ok (-1, d, ip)
    else
      match devsw.write ip.major.toNat with
      | none => .ok (-1, d, ip)
      | some write => .ok (write src n, d, ip)
  else if off > ip.size ∨ off + n < off then .ok (-1, d, ip)
  else if off + n > BitVec.ofNat 32 (MAXFILE * BSIZE) then .ok (-1, d, ip)
  else do
    let (d, ip) ← sb.writeLoop n.toNat d ip off.toNat n.toNat src
    if n > 0 ∧ off + n > ip.size then
      let ip := { ip with size := off + n }
      .ok (n.toNat, sb.putDinode d inum ip, ip)
    else .ok (n.toNat, d, ip)

end Superblock

end Xv6.Fs
