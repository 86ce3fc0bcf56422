import Xv6.Fs.Sound

namespace Xv6.Fs.Mkfs

open Function Bytes Allocation

/-- The super block that `mkfs` writes. -/
def sb : Superblock where
  size := 1000
  nblocks := 941
  ninodes := 200
  inodestart := 32
  bmapstart := 58
  inodes_fit := by decide
  bitmap_fits := by decide
  int_size := by decide

/-- `balloc` of `mkfs`: the first `used` blocks have been allocated. -/
def balloc (d : Disk) (used : Nat) : Disk := update d sb.bmapstart ((List.range used).foldl setBit fun _ => 0)

theorem testBit_foldl (n i : Nat) : testBit ((List.range n).foldl setBit fun _ => 0) i = decide (i < n) := by
  induction n with
  | zero => simp [testBit, mask]
  | succ n ih =>
    rw [List.range_succ, List.foldl_append, List.foldl_cons, List.foldl_nil, testBit_setBit, ih]
    by_cases last : i = n
    · simp [last]
    · have same : i < n + 1 ↔ i < n := by omega
      simp [last, same]

theorem used_balloc (d : Disk) (used b : Nat) (small : b < sb.size) : sb.used (balloc d used) b = decide (b < used) := by
  have inside : b < 4096 := Nat.lt_trans small (by decide)
  have block : sb.bblock b = sb.bmapstart := by
    unfold Superblock.bblock BPB BSIZE
    omega
  have bit : b % BPB = b := Nat.mod_eq_of_lt inside
  rw [Superblock.used, balloc, block, update_self, testBit_foldl, bit]

def noDinode : Dinode := ⟨0, 0, 0, 0, 0, fun _ => 0⟩

def formatted : State where
  disk := balloc (fun _ _ => 0) sb.datastart
  inode _ := ⟨0, 0, none, false, noDinode⟩

theorem dinode_formatted {i : Nat} (small : i < sb.ninodes) : (sb.dinode formatted.disk i).type = 0 := by
  have block : sb.iblock i ≠ sb.bmapstart := by
    have := (sb.iblock_bounds small).2
    omega
  show BitVec.ofNat 16 (load 2 (balloc (fun _ _ => 0) sb.datastart (sb.iblock i)) _) = 0
  rw [balloc, update_of_ne block, load_zero]
  rfl

theorem sound_formatted : Sound sb formatted where
  blocks := by
    constructor
    · constructor
      · intro ⟨i, k⟩ b at_x
        obtain ⟨inside, -⟩ := refs_eq_some.mp at_x
        exact absurd (dinode_formatted inside.1) inside.2.1
      · intro ⟨i, k⟩ y b at_x
        obtain ⟨inside, -⟩ := refs_eq_some.mp at_x
        exact absurd (dinode_formatted inside.1) inside.2.1
      · intro b ⟨data, in_use⟩
        have start := data.1
        rw [formatted, used_balloc _ _ _ data.2, decide_eq_true_eq] at in_use
        omega
    · intro b low
      have inside : b < sb.size := Nat.lt_trans low (by decide)
      rw [formatted, used_balloc _ _ _ inside]
      exact decide_eq_true low
  filled i small allocated := absurd (dinode_formatted small) allocated
  inside _ live := absurd live (Nat.lt_irrefl 0)
  copies _ live := absurd live (Nat.lt_irrefl 0)
  unique _ _ live := absurd live (Nat.lt_irrefl 0)

end Xv6.Fs.Mkfs
