import Xv6.Log.Disk

namespace Xv6.Fs

open Function Bytes

abbrev Short := BitVec 16

abbrev Uint := BitVec 32

def BSIZE : Nat := 512
def NDIRECT : Nat := 12
def NINDIRECT : Nat := BSIZE / 4
def MAXFILE : Nat := NDIRECT + NINDIRECT
def IPB : Nat := BSIZE / 64
def BPB : Nat := BSIZE * 8

def T_DIR : Short := 1
def T_FILE : Short := 2
def T_DEV : Short := 3

/-- The super block, with the order of the regions that `mkfs` lays out. -/
structure Superblock where
  size : Nat
  nblocks : Nat
  ninodes : Nat
  inodestart : Nat
  bmapstart : Nat
  inodes_fit : inodestart + ninodes / IPB + 1 ≤ bmapstart
  bitmap_fits : bmapstart + size / BPB + 1 + nblocks ≤ size
  int_size : size < 2147483648

/-- `struct dinode` -/
structure Dinode where
  type : Short
  major : Short
  minor : Short
  nlink : Short
  size : Uint
  addrs : Fin (NDIRECT + 1) → Uint

/-- The 64 bytes of a `struct dinode`. -/
def Dinode.bytes (dip : Dinode) : Data :=
  storeWords (NDIRECT + 1)
    (store 4 (store 2 (store 2 (store 2 (store 2 (fun _ => 0) 0 dip.type.toNat) 2 dip.major.toNat) 4 dip.minor.toNat)
      6 dip.nlink.toNat) 8 dip.size.toNat)
    12 fun i => if h : i < NDIRECT + 1 then (dip.addrs ⟨i, h⟩).toNat else 0

/-- The `struct dinode` at an offset of a block. -/
def Dinode.ofBytes (data : Data) (off : Nat) : Dinode where
  type := BitVec.ofNat 16 (load 2 data off)
  major := BitVec.ofNat 16 (load 2 data (off + 2))
  minor := BitVec.ofNat 16 (load 2 data (off + 4))
  nlink := BitVec.ofNat 16 (load 2 data (off + 6))
  size := BitVec.ofNat 32 (load 4 data (off + 8))
  addrs i := BitVec.ofNat 32 (load 4 data (off + 12 + 4 * i))

namespace Superblock

variable (sb : Superblock) (d : Disk)

def datastart : Nat := sb.size - sb.nblocks

/-- Block containing inode `inum`. -/
def iblock (inum : Nat) : Nat := inum / IPB + sb.inodestart

/-- Block of free map containing bit for block `b`. -/
def bblock (b : Nat) : Nat := b / BPB + sb.bmapstart

def slot (inum : Nat) : Nat := inum % IPB * 64

def dinode (inum : Nat) : Dinode := .ofBytes (d (sb.iblock inum)) (slot inum)

def putDinode (inum : Nat) (dip : Dinode) : Disk :=
  update d (sb.iblock inum) (copy 64 (d (sb.iblock inum)) (slot inum) dip.bytes)

/-- The bit of block `b` in the free map. -/
def used (b : Nat) : Bool := testBit (d (sb.bblock b)) (b % BPB)

def DataBlock (b : Nat) : Prop := sb.datastart ≤ b ∧ b < sb.size

instance (b : Nat) : Decidable (sb.DataBlock b) := inferInstanceAs (Decidable (sb.datastart ≤ b ∧ b < sb.size))

end Superblock

variable {sb : Superblock} {d : Disk} {inum i j b c : Nat} {dip : Dinode} {data : Data}

theorem Dinode.ofBytes_bytes (dip : Dinode) : Dinode.ofBytes dip.bytes 0 = dip := by
  have short : ∀ x : Short, x.toNat < 256 ^ 2 := fun x => x.isLt
  have uint : ∀ x : Uint, x.toNat < 256 ^ 4 := fun x => x.isLt
  have fields : ∀ k at', k + at' ≤ 12 → load k dip.bytes at' = load k
      (store 4 (store 2 (store 2 (store 2 (store 2 (fun _ => 0) 0 dip.type.toNat) 2 dip.major.toNat) 4 dip.minor.toNat)
        6 dip.nlink.toNat) 8 dip.size.toNat) at' := fun k at' low => load_storeWords_of_apart (by omega)
  cases dip with
  | mk type major minor nlink size addrs =>
    simp only [Dinode.ofBytes, Dinode.mk.injEq]
    refine ⟨?_, ?_, ?_, ?_, ?_, ?_⟩
    · rw [fields 2 0 (by omega), load_store_of_apart (by omega), load_store_of_apart (by omega),
        load_store_of_apart (by omega), load_store_of_apart (by omega), load_store_of_lt (short _), BitVec.ofNat_toNat,
        BitVec.setWidth_eq]
    · rw [fields 2 (0 + 2) (by omega), load_store_of_apart (by omega), load_store_of_apart (by omega),
        load_store_of_apart (by omega), load_store_of_lt (short _), BitVec.ofNat_toNat, BitVec.setWidth_eq]
    · rw [fields 2 (0 + 4) (by omega), load_store_of_apart (by omega), load_store_of_apart (by omega),
        load_store_of_lt (short _), BitVec.ofNat_toNat, BitVec.setWidth_eq]
    · rw [fields 2 (0 + 6) (by omega), load_store_of_apart (by omega), load_store_of_lt (short _), BitVec.ofNat_toNat,
        BitVec.setWidth_eq]
    · rw [fields 4 (0 + 8) (by omega), load_store_of_lt (uint _), BitVec.ofNat_toNat, BitVec.setWidth_eq]
    · funext i
      have word : load 4 (Dinode.bytes ⟨type, major, minor, nlink, size, addrs⟩) (12 + 4 * i) = (addrs i).toNat := by
        have at_i : (if h : i.val < NDIRECT + 1 then (addrs ⟨i, h⟩).toNat else 0) = (addrs i).toNat := dif_pos i.isLt
        rw [Dinode.bytes, load_storeWords i.isLt (by rw [at_i]; exact uint _), at_i]
      rw [show 0 + 12 + 4 * i.val = 12 + 4 * i by omega, word, BitVec.ofNat_toNat, BitVec.setWidth_eq]

theorem Dinode.ofBytes_congr {data' : Data} {off off' : Nat} (same : ∀ k, k < 64 → data (off + k) = data' (off' + k)) :
    Dinode.ofBytes data off = .ofBytes data' off' := by
  have loads : ∀ n k, k + n ≤ 64 → load n data (off + k) = load n data' (off' + k) := by
    intro n
    induction n with
    | zero => exact fun _ _ => rfl
    | succ n ih =>
      intro k low
      rw [load, load, same k (by omega), Nat.add_assoc, Nat.add_assoc, ih (k + 1) (by omega)]
  simp only [Dinode.ofBytes, Dinode.mk.injEq]
  refine ⟨?_, ?_, ?_, ?_, ?_, ?_⟩
  · rw [show load 2 data off = load 2 data' off' from loads 2 0 (by omega)]
  · rw [loads 2 2 (by omega)]
  · rw [loads 2 4 (by omega)]
  · rw [loads 2 6 (by omega)]
  · rw [loads 4 8 (by omega)]
  · funext i
    have low : i.val < 13 := i.isLt
    rw [Nat.add_assoc, Nat.add_assoc, loads 4 (12 + 4 * i) (by omega)]

namespace Superblock

theorem iblock_bounds (small : inum < sb.ninodes) : sb.inodestart ≤ sb.iblock inum ∧ sb.iblock inum < sb.bmapstart := by
  have fits := sb.inodes_fit
  have low := Nat.zero_le (inum / IPB)
  have high : inum / IPB ≤ sb.ninodes / IPB := Nat.div_le_div_right (Nat.le_of_lt small)
  unfold iblock
  omega

theorem bblock_bounds (small : b < sb.size) : sb.bmapstart ≤ sb.bblock b ∧ sb.bblock b < sb.datastart := by
  have fits := sb.bitmap_fits
  have low := Nat.zero_le (b / BPB)
  have high : b / BPB ≤ sb.size / BPB := Nat.div_le_div_right (Nat.le_of_lt small)
  unfold bblock datastart
  omega

theorem iblock_ne_bblock (small : inum < sb.ninodes) (inside : b < sb.size) : sb.iblock inum ≠ sb.bblock b := by
  have := sb.iblock_bounds small
  have := sb.bblock_bounds inside
  omega

theorem iblock_ne_data (small : inum < sb.ninodes) (inside : sb.DataBlock b) : sb.iblock inum ≠ b := by
  have := sb.iblock_bounds small
  have := sb.bblock_bounds inside.2
  have := inside.1
  omega

theorem bblock_ne_data (small : c < sb.size) (inside : sb.DataBlock b) : sb.bblock c ≠ b := by
  have := sb.bblock_bounds small
  have := inside.1
  omega

theorem dinode_update (away : sb.iblock inum ≠ b) : sb.dinode (update d b data) inum = sb.dinode d inum := by
  unfold dinode
  rw [update_of_ne away]

theorem used_update (away : sb.bblock c ≠ b) : sb.used (update d b data) c = sb.used d c := by
  unfold used
  rw [update_of_ne away]

theorem dinode_put (i : Nat) (dip : Dinode) (j : Nat) :
    sb.dinode (sb.putDinode d i dip) j = if j = i then dip else sb.dinode d j := by
  unfold dinode putDinode
  by_cases block : sb.iblock j = sb.iblock i
  · rw [block, update_self]
    by_cases eq : j = i
    · subst eq
      rw [if_pos rfl, ← dip.ofBytes_bytes]
      apply Dinode.ofBytes_congr
      intro k low
      rw [dip.ofBytes_bytes, copy_of_mem (by omega) (by omega), Nat.add_sub_cancel_left, Nat.zero_add]
    · rw [if_neg eq]
      apply Dinode.ofBytes_congr
      intro k low
      have apart : slot j + 64 ≤ slot i ∨ slot i + 64 ≤ slot j := by
        unfold iblock slot IPB BSIZE at *
        omega
      exact copy_of_apart (by omega)
  · rw [update_of_ne block, if_neg (fun eq => block (by rw [eq]))]

theorem used_put (small : inum < sb.ninodes) (inside : b < sb.size) (dip : Dinode) :
    sb.used (sb.putDinode d inum dip) b = sb.used d b :=
  sb.used_update (sb.iblock_ne_bblock small inside).symm

theorem data_put (small : inum < sb.ninodes) (inside : sb.DataBlock b) (dip : Dinode) :
    sb.putDinode d inum dip b = d b :=
  update_of_ne (sb.iblock_ne_data small inside).symm ..

end Superblock

end Xv6.Fs
