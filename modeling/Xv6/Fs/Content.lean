import Mathlib.Data.Finset.Union
import Mathlib.Order.Interval.Finset.Nat
import Xv6.Fs.Bmap

namespace Xv6.Fs

open Function Bytes Allocation

variable {sb : Superblock} {d d' d'' : Disk} {table : Nat → Dinode} {ip ip' ip'' : Dinode} {i j k b c bn : Nat}

/-- Byte `k` of the content of an inode. -/
def byte (d : Disk) (ip : Dinode) (k : Nat) : UInt8 := d (addr d ip (k / BSIZE)) (k % BSIZE)

theorem block_lt (inside : k < MAXFILE * BSIZE) : k / BSIZE < MAXFILE := by
  rwa [Nat.div_lt_iff_lt_mul (by decide)]

/-- Every block below the size of an inode is allocated. -/
structure Filled (d : Disk) (ip : Dinode) : Prop where
  bound : ip.size.toNat ≤ MAXFILE * BSIZE
  dense : ∀ k, k < ip.size.toNat → addr d ip (k / BSIZE) ≠ 0

/-- The blocks of an inode hold the same on two disks. -/
structure Keeps (d d' : Disk) (ip : Dinode) : Prop where
  entries : ip.addrs indirect ≠ 0 → d' (ip.addrs indirect).toNat = d (ip.addrs indirect).toNat
  data : ∀ m, m < MAXFILE → addr d ip m ≠ 0 → d' (addr d ip m) = d (addr d ip m)

namespace Keeps

theorem ref (keeps : Keeps d d' ip) (l : Nat) : ref d' ip l = Fs.ref d ip l := ref_congr rfl keeps.entries l

theorem addr (keeps : Keeps d d' ip) (m : Nat) : addr d' ip m = Fs.addr d ip m := keeps.ref _

theorem byte (keeps : Keeps d d' ip) (inside : k < MAXFILE * BSIZE) (present : Fs.addr d ip (k / BSIZE) ≠ 0) :
    byte d' ip k = Fs.byte d ip k := by
  rw [Fs.byte, keeps.addr, keeps.data _ (block_lt inside) present]
  rfl

theorem filled (keeps : Keeps d d' ip) (filled : Filled d ip) : Filled d' ip where
  bound := filled.bound
  dense k low := by
    rw [keeps.addr]
    exact filled.dense k low

theorem trans (keeps : Keeps d d' ip) (then_keeps : Keeps d' d'' ip) : Keeps d d'' ip where
  entries present := (then_keeps.entries present).trans (keeps.entries present)
  data m low present := by
    have later := then_keeps.data m low
    rw [keeps.addr] at later
    exact (later present).trans (keeps.data m low present)

theorem of_data (held : Blocks sb d table) (small : i < sb.ninodes) (allocated : (table i).type ≠ 0)
    (same : ∀ c, sb.DataBlock c → d' c = d c) : Keeps d d' (table i) where
  entries present := same _ (held.indirect_data small allocated present).1
  data _ low present := same _ (held.data small allocated (blockSlot_lt low) present).1

end Keeps

namespace Blocks

theorem congr {table' : Nat → Dinode} (held : Blocks sb d table)
    (rows : ∀ j, j < sb.ninodes → (table' j).type = (table j).type ∧
      ((table j).type ≠ 0 → ∀ l, ref d' (table' j) l = ref d (table j) l))
    (bits : ∀ c, c < sb.size → sb.used d' c = sb.used d c) : Blocks sb d' table' where
  exact := by
    apply held.exact.congr
    · intro x
      obtain ⟨j, l⟩ := x
      unfold refs
      dsimp only
      by_cases inside : j < sb.ninodes ∧ (table j).type ≠ 0
      · obtain ⟨type, same⟩ := rows j inside.1
        rw [type, same inside.2]
      · have outside : ¬ (j < sb.ninodes ∧ (table' j).type ≠ 0) := by
          intro h
          rw [(rows j h.1).1] at h
          exact inside h
        rw [if_neg fun h => outside ⟨h.1, h.2.1⟩, if_neg fun h => inside ⟨h.1, h.2.1⟩]
    · intro c
      constructor
      · exact fun h => ⟨h.1, (bits c h.1.2) ▸ h.2⟩
      · exact fun h => ⟨h.1, (bits c h.1.2).symm ▸ h.2⟩
  reserved c low := by
    have fits := sb.bitmap_fits
    have inside : c < sb.size := by
      unfold Superblock.datastart at low
      omega
    rw [bits c inside]
    exact held.reserved c low

theorem addr_inj (held : Blocks sb d table) (small : i < sb.ninodes) (allocated : (table i).type ≠ 0) {m : Nat}
    (low : m < MAXFILE) (low' : bn < MAXFILE) (nonzero : addr d (table i) bn ≠ 0)
    (same : addr d (table i) m = addr d (table i) bn) : m = bn := by
  have eq := held.exact.distinct (i, blockSlot m) (i, blockSlot bn) (addr d (table i) bn)
    (refs_eq_some.mpr ⟨⟨small, allocated, blockSlot_lt low⟩, same, nonzero⟩)
    (refs_eq_some.mpr ⟨⟨small, allocated, blockSlot_lt low'⟩, rfl, nonzero⟩)
  exact blockSlot_inj (congrArg Prod.snd eq)

theorem addr_data (held : Blocks sb d table) (small : i < sb.ninodes) (allocated : (table i).type ≠ 0)
    (low : bn < MAXFILE) (nonzero : addr d (table i) bn ≠ 0) :
    sb.DataBlock (addr d (table i) bn) ∧ sb.used d (addr d (table i) bn) = true :=
  held.data small allocated (blockSlot_lt low) nonzero

theorem addr_ne_indirect (held : Blocks sb d table) (small : i < sb.ninodes) (allocated : (table i).type ≠ 0)
    (low : bn < MAXFILE) (nonzero : addr d (table i) bn ≠ 0) (small' : j < sb.ninodes) (allocated' : (table j).type ≠ 0) :
    ((table j).addrs indirect).toNat ≠ addr d (table i) bn := by
  intro same
  have eq := held.exact.distinct (j, indirect.val) (i, blockSlot bn) (addr d (table i) bn)
    (refs_eq_some.mpr ⟨⟨small', allocated', by decide⟩, (ref_addr _).trans same, nonzero⟩)
    (refs_eq_some.mpr ⟨⟨small, allocated, blockSlot_lt low⟩, rfl, nonzero⟩)
  exact blockSlot_ne (congrArg Prod.snd eq).symm

theorem write_content (held : Blocks sb d table) (small : i < sb.ninodes) (allocated : (table i).type ≠ 0)
    (low : bn < MAXFILE) (nonzero : addr d (table i) bn ≠ 0) (data : Data) :
    Blocks sb (update d (addr d (table i) bn) data) table ∧
      ∀ l, ref (update d (addr d (table i) bn) data) (table i) l = ref d (table i) l := by
  have mine := held.addr_data small allocated low nonzero
  constructor
  · constructor
    · apply held.exact.congr
      · intro x
        obtain ⟨j, l⟩ := x
        apply refs_kept rfl
        intro small' allocated' _
        exact update_of_ne (held.addr_ne_indirect small allocated low nonzero small' allocated') ..
      · intro c
        constructor
        · intro h
          exact ⟨h.1, by rw [← sb.used_update (sb.bblock_ne_data h.1.2 mine.1)]; exact h.2⟩
        · intro h
          exact ⟨h.1, by rw [sb.used_update (sb.bblock_ne_data h.1.2 mine.1)]; exact h.2⟩
    · intro c low
      have := mine.1.1
      have := mine.1.2
      rw [sb.used_update (sb.bblock_ne_data (by omega) mine.1)]
      exact held.reserved c low
  · intro l
    apply ref_congr rfl
    intro _
    exact update_of_ne (held.addr_ne_indirect small allocated low nonzero small allocated) ..

end Blocks

/-- The slots that `bmap` goes through for bytes `lo` to `hi`. -/
def slotsOfBytes (lo hi : Nat) : Finset Nat := (Finset.Ico lo hi).biUnion fun k => slotsOf (k / BSIZE)

theorem mem_slotsOfBytes {lo hi l : Nat} : l ∈ slotsOfBytes lo hi ↔ ∃ k, lo ≤ k ∧ k < hi ∧ l ∈ slotsOf (k / BSIZE) := by
  simp only [slotsOfBytes, Finset.mem_biUnion, Finset.mem_Ico, and_assoc]

/-- Bytes `lo` to `hi` of inode `i` become those of `src`. -/
structure Wrote (sb : Superblock) (d : Disk) (table : Nat → Dinode) (i lo hi : Nat) (src : Nat → UInt8) (d' : Disk)
    (ip' : Dinode) : Prop where
  blocks : Blocks sb d' (update table i ip')
  fields : ip' = { table i with addrs := ip'.addrs }
  found : (∀ k, lo ≤ k → k < hi → addr d (table i) (k / BSIZE) ≠ 0) → ip' = table i
  slots : ∀ l, l ∉ slotsOfBytes lo hi → ref d' ip' l = ref d (table i) l
  taken : ∀ l ∈ slotsOfBytes lo hi, ref d' ip' l ≠ 0
  present : ∀ k, lo ≤ k → k < hi → addr d' ip' (k / BSIZE) ≠ 0
  mapped : ∀ m, m < MAXFILE → addr d (table i) m ≠ 0 → addr d' ip' m = addr d (table i) m
  fresh : ∀ m, m < MAXFILE → addr d (table i) m = 0 → addr d' ip' m ≠ 0 → ∃ k, lo ≤ k ∧ k < hi ∧ k / BSIZE = m
  bytes : ∀ k, lo ≤ k → k < hi → byte d' ip' k = src k
  outside : ∀ k, k < MAXFILE * BSIZE → k < lo ∨ hi ≤ k → addr d (table i) (k / BSIZE) ≠ 0 →
    byte d' ip' k = byte d (table i) k
  zero : ∀ k, k < MAXFILE * BSIZE → k < lo ∨ hi ≤ k → addr d (table i) (k / BSIZE) = 0 →
    addr d' ip' (k / BSIZE) ≠ 0 → byte d' ip' k = 0
  kept : ∀ c, sb.DataBlock c → sb.used d c = true → (∀ k, k < SLOTS → ref d (table i) k ≠ c) → d' c = d c
  grows : ∀ c, c < sb.size → sb.used d c = true → sb.used d' c = true
  dinodes : ∀ j, j < sb.ninodes → sb.dinode d' j = sb.dinode d j

namespace Wrote

variable {lo hi mid : Nat} {src : Nat → UInt8}

theorem refl (held : Blocks sb d table) (empty : hi ≤ lo) : Wrote sb d table i lo hi src d (table i) where
  blocks := by rwa [update_eq_self]
  fields := rfl
  found _ := rfl
  slots _ _ := rfl
  taken l member := by
    obtain ⟨k, low, high, -⟩ := mem_slotsOfBytes.mp member
    omega
  present k low high := by omega
  mapped _ _ _ := rfl
  fresh m _ none some := absurd none some
  bytes k low high := by omega
  outside _ _ _ _ := rfl
  zero k _ _ none some := absurd none some
  kept _ _ _ _ := rfl
  grows _ _ in_use := in_use
  dinodes _ _ := rfl

theorem keeps (wrote : Wrote sb d table i lo hi src d' ip') (held : Blocks sb d table) (small : i < sb.ninodes)
    (allocated : (table i).type ≠ 0) (ne : j ≠ i) (small' : j < sb.ninodes) (allocated' : (table j).type ≠ 0) :
    Keeps d d' (table j) := by
  have others : ∀ l, l < SLOTS → ref d (table j) l ≠ 0 → d' (ref d (table j) l) = d (ref d (table j) l) := by
    intro l slot nonzero
    have theirs := held.data small' allocated' slot nonzero
    apply wrote.kept _ theirs.1 theirs.2
    intro k slot' same
    have eq := held.exact.distinct (j, l) (i, k) (ref d (table j) l)
      (refs_eq_some.mpr ⟨⟨small', allocated', slot⟩, rfl, nonzero⟩)
      (refs_eq_some.mpr ⟨⟨small, allocated, slot'⟩, same, nonzero⟩)
    exact ne (congrArg Prod.fst eq)
  constructor
  · intro present
    have here := others indirect.val (by decide)
    rw [ref_addr] at here
    exact here (toNat_ne_zero.mpr present)
  · exact fun m low present => others _ (blockSlot_lt low) present

theorem refs_others (wrote : Wrote sb d table i lo hi src d' ip') (held : Blocks sb d table) (small : i < sb.ninodes)
    (allocated : (table i).type ≠ 0) (ne : j ≠ i) (l : Nat) :
    refs sb d' (update table i ip') (j, l) = refs sb d table (j, l) := by
  apply Blocks.refs_kept (update_of_ne ne ..)
  intro small' allocated' present
  exact (wrote.keeps held small allocated ne small' allocated').entries present

theorem refs_apart (wrote : Wrote sb d table i lo hi src d' ip') (held : Blocks sb d table) (small : i < sb.ninodes)
    (allocated : (table i).type ≠ 0) (j l : Nat) (apart : j = i → l ∉ slotsOfBytes lo hi) :
    refs sb d' (update table i ip') (j, l) = refs sb d table (j, l) := by
  by_cases mine : j = i
  · subst mine
    exact refs_self (by rw [wrote.fields]) (wrote.slots l (apart rfl))
  · exact wrote.refs_others held small allocated mine l

theorem old (wrote : Wrote sb d table i lo hi src d' ip') (held : Blocks sb d table) (small : i < sb.ninodes)
    (allocated : (table i).type ≠ 0) (data : sb.DataBlock c) (in_use : sb.used d c = true) (slot : k < SLOTS)
    (same : ref d' ip' k = c) : ∃ l, l < SLOTS ∧ ref d (table i) l = c := by
  obtain ⟨x, at_x⟩ := held.exact.complete c ⟨data, in_use⟩
  obtain ⟨j, l⟩ := x
  by_cases mine : j = i
  · subst mine
    rw [refs_eq_some] at at_x
    exact ⟨l, at_x.1.2.2, at_x.2.1⟩
  · rw [← wrote.refs_others held small allocated mine] at at_x
    have type : (update table i ip' i).type ≠ 0 := by
      rw [update_self, wrote.fields]
      exact allocated
    have eq := wrote.blocks.exact.distinct (j, l) (i, k) c at_x
      (refs_eq_some.mpr ⟨⟨small, type, slot⟩, by rw [update_self]; exact same, Blocks.pos_of_data data⟩)
    exact absurd (congrArg Prod.fst eq) mine

theorem trans (first : Wrote sb d table i lo mid src d' ip') (held : Blocks sb d table) (small : i < sb.ninodes)
    (allocated : (table i).type ≠ 0) (le : lo ≤ mid) (le' : mid ≤ hi) (bound : hi ≤ MAXFILE * BSIZE)
    (second : Wrote sb d' (update table i ip') i mid hi src d'' ip'') : Wrote sb d table i lo hi src d'' ip'' := by
  have self : update table i ip' i = ip' := update_self ..
  have block : ∀ k, k < hi → k / BSIZE < MAXFILE := by
    intro k high
    rw [Nat.div_lt_iff_lt_mul (by decide)]
    omega
  have blocks := second.blocks
  rw [update_idem] at blocks
  have fields := second.fields
  rw [self, first.fields] at fields
  have mapped := second.mapped
  rw [self] at mapped
  have outside := second.outside
  rw [self] at outside
  have fresh := second.fresh
  rw [self] at fresh
  have zero := second.zero
  rw [self] at zero
  have kept := second.kept
  rw [self] at kept
  have slots := second.slots
  rw [self] at slots
  constructor
  · exact blocks
  · exact fields
  · intro some
    have same := first.found fun k low high => some k low (by omega)
    have rest := second.found
    rw [self] at rest
    rw [← same]
    apply rest
    intro k low high
    have here := some k (by omega) high
    rw [first.mapped _ (block k high) here]
    exact here
  · intro l away
    have early : l ∉ slotsOfBytes lo mid := fun member => by
      obtain ⟨k, low, high, here⟩ := mem_slotsOfBytes.mp member
      exact away (mem_slotsOfBytes.mpr ⟨k, low, by omega, here⟩)
    have late : l ∉ slotsOfBytes mid hi := fun member => by
      obtain ⟨k, low, high, here⟩ := mem_slotsOfBytes.mp member
      exact away (mem_slotsOfBytes.mpr ⟨k, by omega, high, here⟩)
    rw [slots l late, first.slots l early]
  · intro l member
    by_cases late : l ∈ slotsOfBytes mid hi
    · exact second.taken l late
    · rw [slots l late]
      obtain ⟨k, low, high, here⟩ := mem_slotsOfBytes.mp member
      apply first.taken l
      apply mem_slotsOfBytes.mpr ⟨k, low, ?_, here⟩
      by_contra after
      exact late (mem_slotsOfBytes.mpr ⟨k, by omega, high, here⟩)
  · intro k low high
    by_cases early : k < mid
    · have here := first.present k low early
      rw [mapped _ (block k high) here]
      exact here
    · exact second.present k (by omega) high
  · intro m low some
    have here := first.mapped m low some
    rw [mapped m low (by rw [here]; exact some), here]
  · intro m low none some
    by_cases early : addr d' ip' m = 0
    · obtain ⟨k, after, before, eq⟩ := fresh m low early some
      exact ⟨k, by omega, before, eq⟩
    · obtain ⟨k, after, before, eq⟩ := first.fresh m low none early
      exact ⟨k, after, by omega, eq⟩
  · intro k low high
    by_cases early : k < mid
    · rw [outside k (by omega) (.inl early) (first.present k low early)]
      exact first.bytes k low early
    · exact second.bytes k (by omega) high
  · intro k high away some
    have inside : k / BSIZE < MAXFILE := by rwa [Nat.div_lt_iff_lt_mul (by decide)]
    have here := first.mapped _ inside some
    rw [outside k high (by omega) (by rw [here]; exact some)]
    exact first.outside k high (by omega) some
  · intro k high away none some
    by_cases early : addr d' ip' (k / BSIZE) = 0
    · exact zero k high (by omega) early some
    · rw [outside k high (by omega) early]
      exact first.zero k high (by omega) none early
  · intro c data in_use away
    have same := first.kept c data in_use away
    rw [kept c data (first.grows c data.2 in_use), same]
    intro k slot eq
    obtain ⟨l, slot', eq'⟩ := first.old held small allocated data in_use slot eq
    exact away l slot' eq'
  · exact fun c low in_use => second.grows c low (first.grows c low in_use)
  · intro j low
    rw [second.dinodes j low, first.dinodes j low]

end Wrote

end Xv6.Fs
