import Xv6.Library.Allocation
import Xv6.Library.Outcome
import Xv6.Fs.Inode

namespace Xv6.Fs

open Function Bytes Allocation

variable {sb : Superblock} {d d' : Disk} {table : Nat → Dinode} {ip : Dinode} {i j k b c : Nat}

namespace Superblock

/-- The disk after `balloc` has taken block `b`. -/
def alloc (sb : Superblock) (d : Disk) (b : Nat) : Disk :=
  bzero (update d (sb.bblock b) (setBit (d (sb.bblock b)) (b % BPB))) b

/-- The disk after `bfree` has freed block `b`. -/
def free (sb : Superblock) (d : Disk) (b : Nat) : Disk :=
  update d (sb.bblock b) (clearBit (d (sb.bblock b)) (b % BPB))

theorem firstFree_spec (found : sb.firstFree d = some b) : b < sb.size ∧ sb.used d b = false := by
  obtain ⟨group, -, found⟩ := List.exists_of_findSome?_eq_some found
  obtain ⟨bi, here, rfl⟩ := Option.map_eq_some_iff.mp found
  have small : bi < BPB := List.mem_range.mp (List.mem_of_find?_eq_some here)
  have holds := List.find?_some here
  simp only [Bool.and_eq_true, decide_eq_true_eq, Bool.not_eq_true'] at holds
  have block : sb.bblock (group * BPB + bi) = sb.bblock (group * BPB) := by
    unfold bblock
    rw [Nat.mul_comm, Nat.mul_add_div (by decide), Nat.div_eq_of_lt small, Nat.mul_div_cancel_left _ (by decide), Nat.add_zero]
  have bit : (group * BPB + bi) % BPB = bi := by
    rw [Nat.mul_comm, Nat.mul_add_mod, Nat.mod_eq_of_lt small]
  exact ⟨holds.1, by rw [used, block, bit, holds.2]⟩

theorem firstFree_none (none : sb.firstFree d = none) (small : b < sb.size) : sb.used d b = true := by
  rw [firstFree, List.findSome?_eq_none_iff] at none
  have positive : 0 < BPB := by decide
  have group : b / BPB < (sb.size + BPB - 1) / BPB := by
    rw [Nat.div_lt_iff_lt_mul positive]
    have := Nat.div_add_mod (sb.size + BPB - 1) BPB
    have := Nat.mod_lt (sb.size + BPB - 1) positive
    rw [Nat.mul_comm]
    omega
  have whole : b / BPB * BPB + b % BPB = b := by rw [Nat.mul_comm]; exact Nat.div_add_mod b BPB
  have missing := none (b / BPB) (List.mem_range.mpr group)
  rw [Option.map_eq_none_iff, List.find?_eq_none] at missing
  have bit := missing (b % BPB) (List.mem_range.mpr (Nat.mod_lt b positive))
  have block : sb.bblock (b / BPB * BPB) = sb.bblock b := by
    unfold bblock
    rw [Nat.mul_div_cancel _ positive]
  simpa [whole, small, block, used] using bit

theorem balloc_cases : (∃ b, sb.firstFree d = some b ∧ sb.balloc d = .ok (b, sb.alloc d b)) ∨
    sb.firstFree d = none ∧ sb.balloc d = .error "balloc: out of blocks" := by
  cases found : sb.firstFree d with
  | some b => exact .inl ⟨b, rfl, by rw [balloc, found]; rfl⟩
  | none => exact .inr ⟨rfl, by rw [balloc, found]⟩

theorem bits_of_block (same : sb.bblock c = sb.bblock b) : c % BPB = b % BPB ↔ c = b := by
  have div : c / BPB = b / BPB := Nat.add_right_cancel same
  constructor
  · intro eq
    rw [← Nat.div_add_mod c BPB, ← Nat.div_add_mod b BPB, div, eq]
  · exact fun eq => by rw [eq]

theorem used_alloc (small : c < sb.size) (inside : sb.DataBlock b) :
    sb.used (sb.alloc d b) c = (decide (c = b) || sb.used d c) := by
  unfold alloc bzero
  rw [used_update (sb.bblock_ne_data small inside)]
  by_cases block : sb.bblock c = sb.bblock b
  · rw [used, block, update_self, testBit_setBit, used, block, decide_eq_decide.mpr (bits_of_block block)]
  · have ne : c ≠ b := fun eq => block (by rw [eq])
    rw [used_update block]
    simp [ne]

theorem used_free (c : Nat) : sb.used (sb.free d b) c = (decide (c ≠ b) && sb.used d c) := by
  unfold free
  by_cases block : sb.bblock c = sb.bblock b
  · have bits := bits_of_block block
    rw [used, block, update_self, testBit_clearBit, used, block, decide_eq_decide.mpr bits.not]
  · have ne : c ≠ b := fun eq => block (by rw [eq])
    rw [used_update block]
    simp [ne]

theorem bfree_eq (set : sb.used d b = true) : sb.bfree d b = .ok (sb.free d b) := by
  exact if_pos set

theorem alloc_self : sb.alloc d b b = fun _ => 0 := update_self ..

theorem alloc_data (inside : sb.DataBlock c) (small : b < sb.size) (ne : c ≠ b) : sb.alloc d b c = d c := by
  unfold alloc bzero
  rw [update_of_ne ne, update_of_ne (sb.bblock_ne_data small inside).symm]

theorem free_data (inside : sb.DataBlock c) (small : b < sb.size) : sb.free d b c = d c := by
  unfold free
  rw [update_of_ne (sb.bblock_ne_data small inside).symm]

theorem dinode_alloc (small : i < sb.ninodes) (inside : sb.DataBlock b) : sb.dinode (sb.alloc d b) i = sb.dinode d i := by
  unfold alloc bzero
  rw [dinode_update (sb.iblock_ne_data small inside), dinode_update (sb.iblock_ne_bblock small inside.2)]

theorem dinode_free (small : i < sb.ninodes) (inside : b < sb.size) : sb.dinode (sb.free d b) i = sb.dinode d i := by
  unfold free
  rw [dinode_update (sb.iblock_ne_bblock small inside)]

end Superblock

/-- Number of block numbers of an inode: the direct ones, that of the indirect block and the entries of it. -/
def SLOTS : Nat := NDIRECT + 1 + NINDIRECT

/-- The `k`th block number of an inode. -/
def ref (d : Disk) (ip : Dinode) (k : Nat) : Nat :=
  if h : k < NDIRECT + 1 then (ip.addrs ⟨k, h⟩).toNat
  else if ip.addrs indirect = 0 then 0
  else load 4 (d (ip.addrs indirect).toNat) (4 * (k - (NDIRECT + 1)))

/-- All block numbers of the allocated inodes of a table. -/
def refs (sb : Superblock) (d : Disk) (table : Nat → Dinode) (x : Nat × Nat) : Option Nat :=
  if x.1 < sb.ninodes ∧ (table x.1).type ≠ 0 ∧ x.2 < SLOTS ∧ ref d (table x.1) x.2 ≠ 0 then some (ref d (table x.1) x.2)
  else none

/-- The free map is exact: a data block is in use if and only if some inode has its number, and then one only does. -/
structure Blocks (sb : Superblock) (d : Disk) (table : Nat → Dinode) : Prop where
  exact : Exact (refs sb d table) fun b => sb.DataBlock b ∧ sb.used d b = true
  reserved : ∀ b, b < sb.datastart → sb.used d b = true

theorem refs_eq_some : refs sb d table (i, k) = some b ↔
    (i < sb.ninodes ∧ (table i).type ≠ 0 ∧ k < SLOTS) ∧ ref d (table i) k = b ∧ b ≠ 0 := by
  unfold refs
  dsimp only
  constructor
  · intro found
    by_cases inside : i < sb.ninodes ∧ (table i).type ≠ 0 ∧ k < SLOTS ∧ ref d (table i) k ≠ 0
    · rw [if_pos inside] at found
      cases found
      exact ⟨⟨inside.1, inside.2.1, inside.2.2.1⟩, rfl, inside.2.2.2⟩
    · rw [if_neg inside] at found
      cases found
  · intro ⟨inside, eq, nonzero⟩
    subst eq
    rw [if_pos ⟨inside.1, inside.2.1, inside.2.2, nonzero⟩]

namespace Blocks

theorem fresh (held : Blocks sb d table) (small : b < sb.size) (unused : sb.used d b = false) : sb.DataBlock b := by
  refine ⟨Nat.le_of_not_lt fun low => ?_, small⟩
  rw [held.reserved b low] at unused
  cases unused

theorem data (held : Blocks sb d table) (small : i < sb.ninodes) (allocated : (table i).type ≠ 0) (slot : k < SLOTS)
    (nonzero : ref d (table i) k ≠ 0) :
    sb.DataBlock (ref d (table i) k) ∧ sb.used d (ref d (table i) k) = true :=
  held.exact.sound (i, k) _ (refs_eq_some.mpr ⟨⟨small, allocated, slot⟩, rfl, nonzero⟩)

theorem pos_of_data (inside : sb.DataBlock b) : b ≠ 0 := by
  have fits := sb.bitmap_fits
  have group := Nat.zero_le (sb.size / BPB)
  have start := inside.1
  unfold Superblock.datastart at start
  omega

theorem word_of_data (inside : sb.DataBlock b) : (BitVec.ofNat 32 b).toNat = b := by
  have small := sb.int_size
  rw [BitVec.toNat_ofNat, Nat.mod_eq_of_lt (by have := inside.2; omega)]

end Blocks

theorem ref_addr (k : Fin (NDIRECT + 1)) : ref d ip k = (ip.addrs k).toNat := by
  unfold ref
  rw [dif_pos k.isLt]

theorem ref_entry (table : ip.addrs indirect ≠ 0) (j : Nat) :
    ref d ip (NDIRECT + 1 + j) = load 4 (d (ip.addrs indirect).toNat) (4 * j) := by
  unfold ref
  rw [dif_neg (by omega), if_neg table, Nat.add_sub_cancel_left]

theorem ref_entry_none (table : ip.addrs indirect = 0) (j : Nat) : ref d ip (NDIRECT + 1 + j) = 0 := by
  unfold ref
  rw [dif_neg (by omega), if_pos table]

/-- A number of a slot is an address of the inode, or an entry of the indirect block. -/
theorem slot_cases (k : Nat) : (∃ i : Fin (NDIRECT + 1), k = i) ∨ ∃ j, k = NDIRECT + 1 + j := by
  by_cases low : k < NDIRECT + 1
  · exact .inl ⟨⟨k, low⟩, rfl⟩
  · exact .inr ⟨k - (NDIRECT + 1), by omega⟩

theorem toNat_ne_zero {x : Uint} : x.toNat ≠ 0 ↔ x ≠ 0 := by
  rw [ne_eq, ne_eq, ← BitVec.toNat_inj]
  rfl

theorem setAddr_self (k : Fin (NDIRECT + 1)) : (ip.setAddr k b).addrs k = BitVec.ofNat 32 b := update_self ..

theorem setAddr_of_ne {k l : Fin (NDIRECT + 1)} (ne : l ≠ k) : (ip.setAddr k b).addrs l = ip.addrs l := update_of_ne ne ..

/-- The block numbers of an inode depend on its addresses and on its indirect block. -/
theorem ref_congr {ip' : Dinode} (same : ip'.addrs = ip.addrs)
    (kept : ip.addrs indirect ≠ 0 → d' (ip.addrs indirect).toNat = d (ip.addrs indirect).toNat) (k : Nat) :
    ref d' ip' k = ref d ip k := by
  unfold ref
  rw [same]
  split
  · rfl
  · split
    · rfl
    · rw [kept ‹_›]

namespace Blocks

theorem indirect_data (held : Blocks sb d table) (small : i < sb.ninodes) (allocated : (table i).type ≠ 0)
    (present : (table i).addrs indirect ≠ 0) :
    sb.DataBlock ((table i).addrs indirect).toNat ∧ sb.used d ((table i).addrs indirect).toNat = true := by
  have eq : ref d (table i) indirect = _ := ref_addr indirect
  rw [← eq]
  exact held.data small allocated (by decide) (by rw [eq]; exact toNat_ne_zero.mpr present)

/-- An inode keeps its block numbers when it and its indirect block stay as they are. -/
theorem refs_kept {table' : Nat → Dinode} (same : table' i = table i)
    (kept : i < sb.ninodes → (table i).type ≠ 0 → (table i).addrs indirect ≠ 0 →
      d' ((table i).addrs indirect).toNat = d ((table i).addrs indirect).toNat) (k : Nat) :
    refs sb d' table' (i, k) = refs sb d table (i, k) := by
  unfold refs
  dsimp only
  rw [same]
  by_cases inside : i < sb.ninodes ∧ (table i).type ≠ 0
  · rw [ref_congr rfl (kept inside.1 inside.2)]
  · rw [if_neg fun h => inside ⟨h.1, h.2.1⟩, if_neg fun h => inside ⟨h.1, h.2.1⟩]

theorem alloc_kept (room : b < sb.size) (unused : sb.used d b = false) {t : Nat}
    (in_use : sb.DataBlock t ∧ sb.used d t = true) : sb.alloc d b t = d t := by
  apply Superblock.alloc_data in_use.1 room
  intro eq
  subst eq
  rw [unused] at in_use
  cases in_use.2

/-- What a free block at an empty address does to the block numbers of the inode. -/
theorem ref_setAddr (held : Blocks sb d table) (small : i < sb.ninodes) (allocated : (table i).type ≠ 0)
    (room : b < sb.size) (unused : sb.used d b = false) (k : Fin (NDIRECT + 1)) (empty : (table i).addrs k = 0) (l : Nat) :
    ref (sb.alloc d b) ((table i).setAddr k b) l = if l = k.val then b else ref d (table i) l := by
  have inside := held.fresh room unused
  rcases slot_cases l with ⟨a, rfl⟩ | ⟨e, rfl⟩
  · rw [ref_addr, ref_addr]
    by_cases eq : a = k
    · subst eq
      rw [if_pos rfl, setAddr_self, word_of_data inside]
    · rw [setAddr_of_ne eq, if_neg fun h => eq (Fin.ext h)]
  · rw [if_neg (by have := k.isLt; omega)]
    by_cases eq : indirect = k
    · subst eq
      have present : ((table i).setAddr indirect b).addrs indirect ≠ 0 := by
        rw [setAddr_self, ← toNat_ne_zero, word_of_data inside]
        exact pos_of_data inside
      rw [ref_entry_none empty, ref_entry present, setAddr_self, word_of_data inside, Superblock.alloc_self, load_zero]
    · by_cases present : (table i).addrs indirect = 0
      · rw [ref_entry_none present, ref_entry_none (by rw [setAddr_of_ne eq]; exact present)]
      · rw [ref_entry present, ref_entry (by rw [setAddr_of_ne eq]; exact present), setAddr_of_ne eq,
          alloc_kept room unused (held.indirect_data small allocated present)]

theorem used_of_alloc (inside : sb.DataBlock b) (c : Nat) :
    sb.DataBlock c ∧ sb.used (sb.alloc d b) c = true ↔ c = b ∨ sb.DataBlock c ∧ sb.used d c = true := by
  by_cases eq : c = b
  · subst eq
    simp [inside, sb.used_alloc inside.2 inside]
  · constructor
    · intro h
      rw [sb.used_alloc h.1.2 inside] at h
      simpa [eq] using h
    · intro h
      have h := h.resolve_left eq
      rw [sb.used_alloc h.1.2 inside]
      simpa [eq] using h

theorem reserved_alloc (held : Blocks sb d table) (inside : sb.DataBlock b) (c : Nat) (low : c < sb.datastart) :
    sb.used (sb.alloc d b) c = true := by
  rw [sb.used_alloc (by have := inside.1; have := inside.2; omega) inside, held.reserved c low, Bool.or_true]

/-- The slot of an inode that was empty holds a new block number, and nothing else changes. -/
theorem take (held : Blocks sb d table) (small : i < sb.ninodes) (allocated : (table i).type ≠ 0) (inside : sb.DataBlock b)
    (unused : sb.used d b = false) (slot : k < SLOTS) (empty : ref d (table i) k = 0) {table' : Nat → Dinode}
    (type : (table' i).type = (table i).type)
    (mine : ∀ l, ref d' (table' i) l = if l = k then b else ref d (table i) l)
    (others : ∀ j, j ≠ i → ∀ l, refs sb d' table' (j, l) = refs sb d table (j, l))
    (bits : ∀ c, c < sb.size → sb.used d' c = sb.used (sb.alloc d b) c) : Blocks sb d' table' := by
  have none : refs sb d table (i, k) = none := by
    unfold refs
    rw [if_neg fun h => h.2.2.2 empty]
  constructor
  · apply (held.exact.take (b := b) none (by simp [unused])).congr
    · intro x
      obtain ⟨j, l⟩ := x
      by_cases same : j = i
      · subst j
        by_cases here : l = k
        · subst here
          rw [update_self, refs_eq_some, type, mine, if_pos rfl]
          exact ⟨⟨small, allocated, slot⟩, rfl, pos_of_data inside⟩
        · rw [update_of_ne (fun eq => here (congrArg Prod.snd eq))]
          unfold refs
          dsimp only
          rw [type, mine, if_neg here]
      · rw [update_of_ne (fun eq => same (congrArg Prod.fst eq))]
        exact others j same l
    · intro c
      rw [← used_of_alloc inside]
      constructor
      · intro h
        exact ⟨h.1, by rw [← bits c h.1.2]; exact h.2⟩
      · intro h
        exact ⟨h.1, by rw [bits c h.1.2]; exact h.2⟩
  · intro c low
    rw [bits c (by have := inside.1; have := inside.2; omega)]
    exact held.reserved_alloc inside c low

/-- The block numbers of the other inodes stay when a block is allocated for inode `i`. -/
theorem refs_alloc (held : Blocks sb d table) (room : b < sb.size) (unused : sb.used d b = false) (j : Nat) (ne : j ≠ i)
    (l : Nat) : refs sb (sb.alloc d b) (update table i ip) (j, l) = refs sb d table (j, l) :=
  refs_kept (update_of_ne ne ..)
    (fun small allocated present => alloc_kept room unused (held.indirect_data small allocated present)) l

theorem take_addr (held : Blocks sb d table) (small : i < sb.ninodes) (allocated : (table i).type ≠ 0)
    (room : b < sb.size) (unused : sb.used d b = false) (k : Fin (NDIRECT + 1)) (empty : (table i).addrs k = 0) :
    Blocks sb (sb.alloc d b) (update table i ((table i).setAddr k b)) := by
  apply held.take small allocated (held.fresh room unused) unused (k := k.val)
  · have := k.isLt
    unfold SLOTS
    omega
  · rw [ref_addr, empty]
    rfl
  · rw [update_self]
    rfl
  · rw [update_self]
    exact held.ref_setAddr small allocated room unused k empty
  · exact held.refs_alloc room unused
  · exact fun _ _ => rfl

theorem ref_store (held : Blocks sb d table) (small : i < sb.ninodes) (allocated : (table i).type ≠ 0)
    (room : b < sb.size) (unused : sb.used d b = false) (present : (table i).addrs indirect ≠ 0) (e l : Nat) :
    ref (update (sb.alloc d b) ((table i).addrs indirect).toNat
      (store 4 (sb.alloc d b ((table i).addrs indirect).toNat) (4 * e) b)) (table i) l =
        if l = NDIRECT + 1 + e then b else ref d (table i) l := by
  have inside := held.fresh room unused
  rcases slot_cases l with ⟨a, rfl⟩ | ⟨f, rfl⟩
  · rw [ref_addr, ref_addr, if_neg (by have := a.isLt; omega)]
  · rw [ref_entry present, ref_entry present, update_self, alloc_kept room unused (held.indirect_data small allocated present)]
    by_cases eq : f = e
    · subst eq
      rw [if_pos rfl, load_store_of_lt]
      have := inside.2
      have := sb.int_size
      omega
    · rw [if_neg (by omega), load_store_of_apart (by omega)]

theorem take_entry (held : Blocks sb d table) (small : i < sb.ninodes) (allocated : (table i).type ≠ 0)
    (room : b < sb.size) (unused : sb.used d b = false) (present : (table i).addrs indirect ≠ 0) {e : Nat}
    (inside_e : e < NINDIRECT) (empty : load 4 (d ((table i).addrs indirect).toNat) (4 * e) = 0) :
    Blocks sb (update (sb.alloc d b) ((table i).addrs indirect).toNat
      (store 4 (sb.alloc d b ((table i).addrs indirect).toNat) (4 * e) b)) table := by
  have mine := held.indirect_data small allocated present
  apply held.take small allocated (held.fresh room unused) unused (k := NDIRECT + 1 + e)
  · unfold SLOTS
    omega
  · rw [ref_entry present, empty]
  · rfl
  · exact held.ref_store small allocated room unused present e
  · intro j ne l
    apply refs_kept rfl
    intro small' allocated' present'
    have theirs := held.indirect_data small' allocated' present'
    rw [update_of_ne]
    · exact alloc_kept room unused theirs
    · intro eq
      have slot : indirect.val < SLOTS := by decide
      have same := held.exact.distinct (j, indirect.val) (i, indirect.val) ((table j).addrs indirect).toNat
        (refs_eq_some.mpr ⟨⟨small', allocated', slot⟩, ref_addr _, toNat_ne_zero.mpr present'⟩)
        (refs_eq_some.mpr ⟨⟨small, allocated, slot⟩, (ref_addr _).trans eq.symm, toNat_ne_zero.mpr present'⟩)
      exact ne (congrArg Prod.fst same)
  · intro c low
    exact sb.used_update (sb.bblock_ne_data low mine.1)

end Blocks

end Xv6.Fs
