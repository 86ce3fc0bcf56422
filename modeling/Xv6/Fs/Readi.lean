import Xv6.Fs.Writei

namespace Xv6.Fs

open Bytes

variable {sb : Superblock} {d : Disk} {ip : Dinode} {bn n off : Nat}

theorem bmap_found (low : bn < MAXFILE) (present : addr d ip bn ≠ 0) : sb.bmap d ip bn = .ok (addr d ip bn, d, ip) := by
  unfold Superblock.bmap
  by_cases direct : bn < NDIRECT
  · have slot : addr d ip bn = (ip.addrs ⟨bn, Nat.lt_succ_of_lt direct⟩).toNat := by
      rw [addr, blockSlot_direct direct]
      exact ref_addr ⟨bn, Nat.lt_succ_of_lt direct⟩
    rw [dif_pos direct, slot, if_neg]
    apply toNat_ne_zero.mp
    rw [← slot]
    exact present
  · have inside : bn - NDIRECT < NINDIRECT := by
      unfold MAXFILE at low
      omega
    rw [addr, blockSlot_entry direct] at present ⊢
    rw [dif_neg direct, if_pos inside]
    by_cases empty : ip.addrs indirect = 0
    · exact absurd (ref_entry_none empty _) present
    · rw [ref_entry empty] at present ⊢
      rw [if_neg empty, Superblock.bmapEntry, if_neg present]

theorem readLoop_ok (fuel : Nat) (dst : List UInt8) (bound : off + n ≤ MAXFILE * BSIZE) (enough : n ≤ fuel)
    (dense : ∀ k, off ≤ k → k < off + n → addr d ip (k / BSIZE) ≠ 0) :
    sb.readLoop fuel d ip off n dst = .ok (dst ++ (List.range n).map fun k => byte d ip (off + k), d, ip) := by
  induction fuel generalizing off n dst with
  | zero =>
    have none : n = 0 := by omega
    subst none
    simp [Superblock.readLoop]
  | succ fuel ih =>
    rw [Superblock.readLoop]
    by_cases done : n = 0
    · subst done
      simp
    · have offset : off % BSIZE < BSIZE := Nat.mod_lt _ (by decide)
      obtain ⟨m, eq⟩ : ∃ m, m = min n (BSIZE - off % BSIZE) := ⟨_, rfl⟩
      have le : m ≤ n := by omega
      have here : (List.range m).map (fun k => d (addr d ip (off / BSIZE)) (off % BSIZE + k)) =
          (List.range m).map fun k => byte d ip (off + k) := by
        apply List.map_congr_left
        intro k low
        rw [List.mem_range] at low
        have block : (off + k) / BSIZE = off / BSIZE ∧ (off + k) % BSIZE = off % BSIZE + k := by
          unfold BSIZE at *
          omega
        rw [byte, block.1, block.2]
      have rest : List.range n = List.range m ++ (List.range (n - m)).map (m + ·) := by
        rw [← List.range_add, Nat.add_sub_cancel' le]
      rw [if_neg done, bmap_found (block_lt (by omega)) (dense off (Nat.le_refl _) (by omega))]
      dsimp only [bind, Except.bind]
      rw [← eq, here, ih _ (by omega) (by omega) fun k low high => dense k (by omega) (by omega), rest, List.map_append,
        List.map_map, List.append_assoc]
      simp only [Function.comp_def, Nat.add_assoc]

def Readable (size off n : Nat) : Prop := off ≤ size ∧ off + n < 2 ^ 32

instance (size off n : Nat) : Decidable (Readable size off n) := inferInstanceAs (Decidable (_ ∧ _))

theorem readi_refused (devsw : Devsw) {off n : Uint} (regular : ip.type ≠ T_DEV)
    (refused : ¬ Readable ip.size.toNat off.toNat n.toNat) : sb.readi devsw d ip off n = .ok ((-1, []), d, ip) := by
  unfold Superblock.readi
  rw [if_neg regular, if_pos]
  rw [wraps_iff, gt_iff_lt, BitVec.lt_def]
  unfold Readable at refused
  omega

/-- `readi` returns the bytes of the range that are in the file, and changes nothing. -/
theorem readi_ok (devsw : Devsw) {off n : Uint} (filled : Filled d ip) (regular : ip.type ≠ T_DEV)
    (readable : Readable ip.size.toNat off.toNat n.toNat) :
    sb.readi devsw d ip off n = .ok (((min n.toNat (ip.size.toNat - off.toNat) : Nat),
      (List.range (min n.toNat (ip.size.toNat - off.toNat))).map fun k => byte d ip (off.toNat + k)), d, ip) := by
  have first : ¬ (off > ip.size ∨ off + n < off) := by
    rw [not_or, wraps_iff, gt_iff_lt, BitVec.lt_def]
    unfold Readable at readable
    omega
  have bound := filled.bound
  have count : (if off + n > ip.size then ip.size - off else n).toNat = min n.toNat (ip.size.toNat - off.toNat) := by
    have sum := toNat_add readable.2
    have start := readable.1
    by_cases long : off + n > ip.size
    · rw [if_pos long, BitVec.toNat_sub_of_le (by rw [BitVec.le_def]; exact start)]
      rw [gt_iff_lt, BitVec.lt_def, sum] at long
      omega
    · rw [if_neg long]
      rw [gt_iff_lt, BitVec.lt_def, sum] at long
      omega
  have start := readable.1
  unfold Superblock.readi
  rw [if_neg regular, if_neg first]
  dsimp only
  rw [count, readLoop_ok _ _ (by omega) (Nat.le_refl _) fun k _ high => filled.dense k (by omega)]
  rfl

end Xv6.Fs
