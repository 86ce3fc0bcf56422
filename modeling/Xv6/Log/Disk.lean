import Xv6.Library.Bytes
import Xv6.Library.Writes

namespace Xv6

abbrev Data := Nat → UInt8

abbrev Disk := Nat → Data

namespace Log

open Function Bytes

/-- What `initlog` takes from the super block. -/
structure Layout where
  start : Nat
  size : Nat
  int_size : start + size < 2147483648

/-- `struct logheader` -/
structure Header where
  n : Nat
  block : Nat → Nat

/-- The disk, the contents of the buffers with B_DIRTY and the writes made so far, the latest first. -/
structure Machine where
  lh : Header
  disk : Disk
  dirty : Nat → Option Data
  written : List (Nat × Data)

/-- The header block as `write_head` fills it. -/
def Header.fill (lh : Header) (buf : Data) : Data := storeWords lh.n (store 4 buf 0 lh.n) 4 lh.block

namespace Machine

def boot (disk : Disk) : Machine := ⟨⟨0, fun _ => 0⟩, disk, fun _ => none, []⟩

def bread (m : Machine) (blockno : Nat) : Data := (m.dirty blockno).getD (m.disk blockno)

def bwrite (m : Machine) (blockno : Nat) (data : Data) : Machine :=
  { m with
    disk := update m.disk blockno data
    dirty := update m.dirty blockno none
    written := (blockno, data) :: m.written }

end Machine

namespace Layout

variable (l : Layout)

/-- Copy committed blocks from log to their home location. -/
def installTrans (m : Machine) : Machine :=
  (List.range m.lh.n).foldl (fun now tail => now.bwrite (m.lh.block tail) (now.bread (l.start + tail + 1))) m

/-- The loops run for no negative `n`. -/
def readHead (m : Machine) : Machine :=
  let buf := m.bread l.start
  let n := if load 4 buf 0 < 2147483648 then load 4 buf 0 else 0
  { m with lh := ⟨n, fun i => if i < n then load 4 buf (4 + 4 * i) else m.lh.block i⟩ }

def writeHead (m : Machine) : Machine := m.bwrite l.start (m.lh.fill (m.bread l.start))

def clear (m : Machine) : Machine := { m with lh := { m.lh with n := 0 } }

def recoverFromLog (m : Machine) : Machine := l.writeHead (clear (l.installTrans (l.readHead m)))

def writeLog (m : Machine) : Machine :=
  (List.range m.lh.n).foldl (fun now tail => now.bwrite (l.start + tail + 1) (now.bread (m.lh.block tail))) m

def commit (m : Machine) : Machine :=
  if 0 < m.lh.n then l.writeHead (clear (l.installTrans (l.writeHead (l.writeLog m)))) else m

end Layout

/-- The writes of a piece of code, the earliest first. -/
def writes (code : Machine → Machine) (m : Machine) : List (Nat × Data) := (code { m with written := [] }).written.reverse

/-- The disk when the machine crashes after `k` writes of the code. -/
def crash (code : Machine → Machine) (m : Machine) (k : Nat) : Disk := Writes.apply ((writes code m).take k) m.disk

/-- The first `write_head` of `commit` is among the writes before the crash. -/
def Layout.HeadWritten (l : Layout) (m : Machine) (k : Nat) : Prop := ∃ w ∈ (writes l.commit m).take k, w.1 = l.start

instance (l : Layout) (m : Machine) (k : Nat) : Decidable (l.HeadWritten m k) :=
  inferInstanceAs (Decidable (∃ w ∈ (writes l.commit m).take k, w.1 = l.start))

/-- A boot that crashes in `recover_from_log`. -/
def Layout.Reboots (l : Layout) (disk disk' : Disk) : Prop := ∃ k, disk' = crash l.recoverFromLog (.boot disk) k

/-- The `n` of the header on disk. -/
def Layout.count (l : Layout) (disk : Disk) : Nat := load 4 (disk l.start) 0

def Layout.Inside (l : Layout) (blockno : Nat) : Prop := l.start ≤ blockno ∧ blockno < l.start + l.size

instance (l : Layout) (blockno : Nat) : Decidable (l.Inside blockno) :=
  inferInstanceAs (Decidable (l.start ≤ blockno ∧ blockno < l.start + l.size))

end Log

end Xv6
