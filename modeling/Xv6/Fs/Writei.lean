import Xv6.Fs.Content

namespace Xv6.Fs

open Function Bytes Allocation

variable {sb : Superblock} {d d' : Disk} {table : Nat → Dinode} {ip ip' : Dinode} {i j k b c bn m n off lo hi : Nat}
  {content src : Nat → UInt8}

namespace Wrote

theorem of_block (held : Blocks sb d table) (small : i < sb.ninodes) (allocated : (table i).type ≠ 0)
    (low : off < MAXFILE * BSIZE) (positive : 0 < m) (room : off % BSIZE + m ≤ BSIZE)
    (mapped : Mapped sb d table i (off / BSIZE) b d' ip') (same : ∀ k, k < m → src k = content (off + k)) :
    Wrote sb d table i off (off + m) content (update d' b (copy m (d' b) (off % BSIZE) src)) ip' := by
  have size : 0 < BSIZE := by decide
  have inside : ∀ {k}, k < MAXFILE * BSIZE → k / BSIZE < MAXFILE := fun high => by rwa [Nat.div_lt_iff_lt_mul size]
  have range : ∀ k, off ≤ k → k < off + m → k / BSIZE = off / BSIZE ∧ k % BSIZE = off % BSIZE + (k - off) := by
    unfold BSIZE at *
    omega
  have away : ∀ k, k < off ∨ off + m ≤ k → k / BSIZE = off / BSIZE →
      k % BSIZE < off % BSIZE ∨ off % BSIZE + m ≤ k % BSIZE := by
    unfold BSIZE at *
    omega
  have self : update table i ip' i = ip' := update_self ..
  have type : ip'.type ≠ 0 := by
    rw [mapped.fields]
    exact allocated
  have nonzero : addr d' ip' (off / BSIZE) ≠ 0 := by
    rw [mapped.here]
    exact Blocks.pos_of_data mapped.data
  have written := mapped.blocks.write_content small (by rw [self]; exact type) (inside low)
    (by rw [self]; exact nonzero) (copy m (d' b) (off % BSIZE) src)
  rw [self, mapped.here] at written
  have numbers : ∀ k, addr (update d' b (copy m (d' b) (off % BSIZE) src)) ip' k = addr d' ip' k := fun _ => written.2 _
  have changed : ∀ k, k / BSIZE = off / BSIZE →
      byte (update d' b (copy m (d' b) (off % BSIZE) src)) ip' k = copy m (d' b) (off % BSIZE) src (k % BSIZE) := by
    intro k block
    rw [byte, numbers, block, mapped.here, update_self]
  constructor
  · exact written.1
  · exact mapped.fields
  · exact fun some => (mapped.found (some off (by omega) (by omega))).2
  · intro l away
    rw [written.2]
    apply mapped.slots
    exact fun member => away (mem_slotsOfBytes.mpr ⟨off, by omega, by omega, member⟩)
  · intro l member
    obtain ⟨k, low, high, here⟩ := mem_slotsOfBytes.mp member
    rw [(range k low high).1] at here
    rw [written.2]
    exact mapped.present l here
  · intro k low high
    rw [numbers, (range k low high).1]
    exact nonzero
  · intro l low' some
    rw [numbers]
    by_cases eq : l = off / BSIZE
    · subst eq
      obtain ⟨rfl, rfl⟩ := mapped.found some
      rfl
    · exact mapped.others l eq
  · intro l low' none some
    rw [numbers] at some
    by_cases eq : l = off / BSIZE
    · exact ⟨off, by omega, by omega, eq.symm⟩
    · rw [mapped.others l eq] at some
      exact absurd none some
  · intro k low high
    obtain ⟨block, offset⟩ := range k low high
    rw [changed k block, copy_of_mem (by omega) (by omega), offset, Nat.add_sub_cancel_left, same _ (by omega)]
    congr 1
    omega
  · intro k high apart some
    by_cases block : k / BSIZE = off / BSIZE
    · rw [changed k block, copy_of_apart (away k apart block)]
      rw [block] at some
      obtain ⟨rfl, rfl⟩ := mapped.found some
      rw [byte, block, mapped.here]
    · have eq := mapped.others _ block
      have mine := held.addr_data small allocated (inside high) some
      rw [byte, numbers, eq, byte, update_of_ne, mapped.kept _ mine.1 mine.2]
      · exact (held.addr_ne_indirect small allocated (inside high) some small allocated).symm
      · intro same
        apply block
        apply mapped.blocks.addr_inj small (by rw [self]; exact type) (inside high) (inside low)
          (by rw [self]; exact nonzero)
        rw [self, eq, same, mapped.here]
  · intro k high apart none some
    by_cases block : k / BSIZE = off / BSIZE
    · rw [changed k block, copy_of_apart (away k apart block)]
      rw [block] at none
      exact (mapped.fresh none).2 _
    · rw [numbers, mapped.others _ block] at some
      exact absurd none some
  · intro c data in_use apart
    rw [update_of_ne]
    · apply mapped.kept c data in_use
      intro eq
      exact apart indirect.val (by decide) ((ref_addr _).trans eq.symm)
    · intro eq
      by_cases none : addr d (table i) (off / BSIZE) = 0
      · have unused := (mapped.fresh none).1
        rw [← eq, in_use] at unused
        cases unused
      · have found := mapped.found none
        apply apart (blockSlot (off / BSIZE)) (blockSlot_lt (inside low))
        rw [← found.1, ← found.2, eq]
        exact mapped.here
  · intro c low' in_use
    rw [sb.used_update (sb.bblock_ne_data low' mapped.data)]
    exact mapped.grows c low' in_use
  · intro j low'
    rw [sb.dinode_update (sb.iblock_ne_data low' mapped.data)]
    exact mapped.dinodes j low'

theorem of_writeLoop (fuel off n : Nat) (src content : Nat → UInt8) (held : Blocks sb d table) (small : i < sb.ninodes) (allocated : (table i).type ≠ 0)
    (bound : off + n ≤ MAXFILE * BSIZE) (enough : n ≤ fuel) (same : ∀ k, k < n → src k = content (off + k)) :
    (∃ d' ip', sb.writeLoop fuel d (table i) off n src = .ok (d', ip') ∧
      Wrote sb d table i off (off + n) content d' ip') ∨
      sb.writeLoop fuel d (table i) off n src = .error "balloc: out of blocks" ∧
        Full sb d table i (slotsOfBytes off (off + n)) := by
  induction fuel generalizing d table off n src with
  | zero =>
    have none : n = 0 := by omega
    subst none
    exact .inl ⟨d, table i, rfl, .refl held (Nat.le_refl _)⟩
  | succ fuel ih =>
    rw [Superblock.writeLoop]
    by_cases done : n = 0
    · subst done
      exact .inl ⟨d, table i, if_pos rfl, .refl held (Nat.le_refl _)⟩
    · rw [if_neg done]
      have low : off < MAXFILE * BSIZE := by omega
      have inside : off / BSIZE < MAXFILE := by rwa [Nat.div_lt_iff_lt_mul (by decide)]
      rcases Mapped.of_bmap held small allocated inside with ⟨b, d', ip', ran, mapped⟩ | ⟨failed, full⟩
      · have offset : off % BSIZE < BSIZE := Nat.mod_lt _ (by decide)
        obtain ⟨m, eq⟩ : ∃ m, m = min n (BSIZE - off % BSIZE) := ⟨_, rfl⟩
        have positive : 0 < m := by omega
        have le : m ≤ n := by omega
        have first := of_block (m := m) held small allocated low positive (by omega) mapped
          (fun k early => same k (by omega))
        have self : update table i ip' i = ip' := update_self ..
        have rest := ih (off + m) (n - m) (fun k => src (m + k)) first.blocks
          (by rw [self, mapped.fields]; exact allocated) (by omega) (by omega)
          (fun k early => by rw [same (m + k) (by omega), Nat.add_assoc])
        rw [self, Nat.add_assoc, Nat.add_sub_cancel' le] at rest
        rw [ran]
        dsimp only [bind, Except.bind]
        rw [← eq]
        rcases rest with ⟨d'', ip'', went, second⟩ | ⟨failed, full⟩
        · exact .inl ⟨d'', ip'', went, first.trans held small allocated (by omega) (by omega) bound second⟩
        · have part : slotsOfBytes (off + m) (off + n) ⊆ slotsOfBytes off (off + n) := by
            intro l member
            obtain ⟨k, low, high, here⟩ := mem_slotsOfBytes.mp member
            exact mem_slotsOfBytes.mpr ⟨k, by omega, high, here⟩
          refine .inr ⟨failed, (full.mono part).before fun j l away => ?_⟩
          apply first.refs_apart held small allocated
          intro mine member
          obtain ⟨k, low, high, here⟩ := mem_slotsOfBytes.mp member
          exact away mine (mem_slotsOfBytes.mpr ⟨k, low, by omega, here⟩)
      · right
        rw [failed]
        refine ⟨rfl, full.mono fun l member => ?_⟩
        exact mem_slotsOfBytes.mpr ⟨off, by omega, by omega, member⟩

end Wrote

/-- Inode `i` becomes `ip'`, the free map is exact as before, and the other inodes keep their content. -/
structure Changed (sb : Superblock) (d : Disk) (i : Nat) (ip' : Dinode) (d' : Disk) : Prop where
  blocks : Blocks sb d' (sb.dinode d')
  self : sb.dinode d' i = ip'
  dinodes : ∀ j, j < sb.ninodes → j ≠ i → sb.dinode d' j = sb.dinode d j
  keeps : ∀ j, j < sb.ninodes → j ≠ i → (sb.dinode d j).type ≠ 0 → Keeps d d' (sb.dinode d j)

namespace Changed

theorem of_wrote (held : Blocks sb d (sb.dinode d)) (small : i < sb.ninodes) (allocated : (sb.dinode d i).type ≠ 0)
    (wrote : Wrote sb d (sb.dinode d) i lo hi content d' ip') {ip'' : Dinode} (addrs : ip''.addrs = ip'.addrs)
    (type : ip''.type = (sb.dinode d i).type) :
    Changed sb d i ip'' (sb.putDinode d' i ip'') ∧ Keeps d' (sb.putDinode d' i ip'') ip' := by
  have row : update (sb.dinode d) i ip' i = ip' := update_self ..
  have type' : ip'.type = (sb.dinode d i).type := by rw [wrote.fields]
  have put : ∀ c, sb.DataBlock c → sb.putDinode d' i ip'' c = d' c := fun c inside => sb.data_put small inside _
  have mine : Keeps d' (sb.putDinode d' i ip'') ip' := by
    have keeps := Keeps.of_data wrote.blocks small (by rw [row, type']; exact allocated) put
    rwa [row] at keeps
  have theirs : ∀ j, j < sb.ninodes → j ≠ i → (sb.dinode d j).type ≠ 0 →
      Keeps d' (sb.putDinode d' i ip'') (sb.dinode d j) := by
    intro j low ne allocated'
    have keeps := Keeps.of_data (i := j) wrote.blocks low (by rw [update_of_ne ne]; exact allocated') put
    rwa [update_of_ne ne] at keeps
  refine ⟨?_, mine⟩
  constructor
  · apply wrote.blocks.congr
    · intro j low
      rw [sb.dinode_put]
      by_cases here : j = i
      · subst here
        rw [if_pos rfl, row, type, type']
        refine ⟨rfl, fun _ l => ?_⟩
        rw [← mine.ref l]
        exact ref_congr addrs (fun _ => rfl) l
      · rw [if_neg here, update_of_ne here, wrote.dinodes j low]
        exact ⟨rfl, fun allocated' l => (theirs j low here allocated').ref l⟩
    · exact fun c low => sb.used_put small low _
  · rw [sb.dinode_put, if_pos rfl]
  · intro j low ne
    rw [sb.dinode_put, if_neg ne]
    exact wrote.dinodes j low
  · intro j low ne allocated'
    exact (wrote.keeps held small allocated ne low allocated').trans (theirs j low ne allocated')

theorem of_put (held : Blocks sb d (sb.dinode d)) (small : i < sb.ninodes) (allocated : (sb.dinode d i).type ≠ 0)
    (addrs : ip'.addrs = (sb.dinode d i).addrs) (type : ip'.type = (sb.dinode d i).type) :
    Changed sb d i ip' (sb.putDinode d i ip') ∧ Keeps d (sb.putDinode d i ip') (sb.dinode d i) :=
  of_wrote held small allocated
    (.refl held (Nat.le_refl 0) : Wrote sb d (sb.dinode d) i 0 0 (fun _ => 0) d (sb.dinode d i)) addrs type

end Changed

/-- Bytes `lo` to `hi` of inode `i` are written, and the inode on disk is up to date. -/
structure Written (sb : Superblock) (d : Disk) (i lo hi : Nat) (content : Nat → UInt8) (d' : Disk) (ip' : Dinode) :
    Prop where
  changed : Changed sb d i ip' d'
  fields : ip' = { sb.dinode d i with addrs := ip'.addrs, size := ip'.size }
  size : ip'.size.toNat = if lo < hi then max (sb.dinode d i).size.toNat hi else (sb.dinode d i).size.toNat
  filled : Filled d' ip'
  slots : ∀ l, l ∉ slotsOfBytes lo hi → ref d' ip' l = ref d (sb.dinode d i) l
  taken : ∀ l ∈ slotsOfBytes lo hi, ref d' ip' l ≠ 0
  bytes : ∀ k, lo ≤ k → k < hi → byte d' ip' k = content k
  outside : ∀ k, k < (sb.dinode d i).size.toNat → k < lo ∨ hi ≤ k → byte d' ip' k = byte d (sb.dinode d i) k
  fresh : ∀ m, m < MAXFILE → addr d (sb.dinode d i) m = 0 → addr d' ip' m ≠ 0 → ∃ k, lo ≤ k ∧ k < hi ∧ k / BSIZE = m
  zero : ∀ k, k < MAXFILE * BSIZE → k < lo ∨ hi ≤ k → addr d (sb.dinode d i) (k / BSIZE) = 0 →
    addr d' ip' (k / BSIZE) ≠ 0 → byte d' ip' k = 0

namespace Written

/-- When the size stays, no block is new and the inode on disk is up to date. -/
theorem of_inside (held : Blocks sb d (sb.dinode d)) (small : i < sb.ninodes) (allocated : (sb.dinode d i).type ≠ 0)
    (filled : Filled d (sb.dinode d i)) (inside : hi ≤ (sb.dinode d i).size.toNat ∨ hi ≤ lo)
    (wrote : Wrote sb d (sb.dinode d) i lo hi content d' ip') : Written sb d i lo hi content d' ip' := by
  have bound := filled.bound
  have same : ip' = sb.dinode d i := wrote.found fun k low high => filled.dense k (by omega)
  subst same
  have blocks := wrote.blocks
  rw [update_eq_self] at blocks
  constructor
  · constructor
    · exact blocks.congr (fun j low => ⟨by rw [wrote.dinodes j low], fun _ l => by rw [wrote.dinodes j low]⟩) fun _ _ => rfl
    · exact wrote.dinodes i small
    · exact fun j low _ => wrote.dinodes j low
    · exact fun j low ne allocated' => wrote.keeps held small allocated ne low allocated'
  · rfl
  · split <;> omega
  · apply Filled.mk bound
    intro k low
    rw [wrote.mapped _ (block_lt (by omega)) (filled.dense k low)]
    exact filled.dense k low
  · exact wrote.slots
  · exact wrote.taken
  · exact wrote.bytes
  · exact fun k low away => wrote.outside k (by omega) away (filled.dense k low)
  · exact wrote.fresh
  · exact wrote.zero

theorem of_growth (held : Blocks sb d (sb.dinode d)) (small : i < sb.ninodes) (allocated : (sb.dinode d i).type ≠ 0)
    (filled : Filled d (sb.dinode d i)) (start : lo ≤ (sb.dinode d i).size.toNat) (nonempty : lo < hi)
    (growth : (sb.dinode d i).size.toNat < hi) (bound : hi ≤ MAXFILE * BSIZE) {size : Uint} (eq : size.toNat = hi)
    (wrote : Wrote sb d (sb.dinode d) i lo hi content d' ip') :
    Written sb d i lo hi content (sb.putDinode d' i { ip' with size := size }) { ip' with size := size } := by
  have type : ip'.type = (sb.dinode d i).type := by rw [wrote.fields]
  obtain ⟨changed, mine⟩ := Changed.of_wrote held small allocated wrote
    (show ({ ip' with size := size } : Dinode).addrs = ip'.addrs from rfl) type
  have numbers : ∀ m, addr (sb.putDinode d' i { ip' with size := size }) { ip' with size := size } m = addr d' ip' m :=
    mine.addr
  have refs : ∀ l, ref (sb.putDinode d' i { ip' with size := size }) { ip' with size := size } l = ref d' ip' l :=
    mine.ref
  have bytes : ∀ k, k < MAXFILE * BSIZE → addr d' ip' (k / BSIZE) ≠ 0 →
      byte (sb.putDinode d' i { ip' with size := size }) { ip' with size := size } k = byte d' ip' k :=
    fun k inside present => mine.byte inside present
  have dense : ∀ k, k < hi → addr d' ip' (k / BSIZE) ≠ 0 := by
    intro k low
    by_cases early : k < lo
    · have here := filled.dense k (by omega)
      rw [wrote.mapped _ (block_lt (by omega)) here]
      exact here
    · exact wrote.present k (by omega) low
  constructor
  · exact changed
  · rw [wrote.fields]
  · rw [if_pos nonempty]
    show size.toNat = _
    omega
  · constructor
    · show size.toNat ≤ _
      omega
    · intro k low
      rw [numbers]
      exact dense k (eq ▸ low)
  · intro l away
    rw [refs l]
    exact wrote.slots l away
  · intro l member
    rw [refs l]
    exact wrote.taken l member
  · intro k low high
    rw [bytes k (by omega) (dense k high)]
    exact wrote.bytes k low high
  · intro k low away
    rw [bytes k (by omega) (dense k (by omega))]
    exact wrote.outside k (by omega) away (filled.dense k low)
  · intro m low none
    rw [numbers]
    exact wrote.fresh m low none
  · intro k inside away none
    rw [numbers]
    intro some
    rw [bytes k inside some]
    exact wrote.zero k inside away none some

end Written

/-- The range is one that `writei` accepts for a file of `size` bytes. -/
def Accepted (size off n : Nat) : Prop := off ≤ size ∧ off + n < 2 ^ 32 ∧ off + n ≤ MAXFILE * BSIZE

instance (size off n : Nat) : Decidable (Accepted size off n) := inferInstanceAs (Decidable (_ ∧ _ ∧ _))

theorem wraps_iff (off n : Uint) : off + n < off ↔ 2 ^ 32 ≤ off.toNat + n.toNat := by
  have := off.isLt
  have := n.isLt
  rw [BitVec.lt_def, BitVec.toNat_add]
  omega

theorem toNat_add {off n : Uint} (small : off.toNat + n.toNat < 2 ^ 32) : (off + n).toNat = off.toNat + n.toNat := by
  rw [BitVec.toNat_add, Nat.mod_eq_of_lt small]

theorem toNat_limit : (BitVec.ofNat 32 (MAXFILE * BSIZE)).toNat = MAXFILE * BSIZE := by decide

theorem writei_refused (devsw : Devsw) {src : Nat → UInt8} {off n : Uint} (regular : ip.type ≠ T_DEV)
    (refused : ¬ Accepted ip.size.toNat off.toNat n.toNat) : sb.writei devsw d i ip src off n = .ok (-1, d, ip) := by
  unfold Superblock.writei
  rw [if_neg regular]
  by_cases first : off > ip.size ∨ off + n < off
  · rw [if_pos first]
  · rw [if_neg first, if_pos]
    rw [not_or, wraps_iff, gt_iff_lt, BitVec.lt_def] at first
    rw [gt_iff_lt, BitVec.lt_def, toNat_limit, toNat_add (by omega)]
    unfold Accepted at refused
    omega

theorem writei_accepted (devsw : Devsw) (src : Nat → UInt8) {off n : Uint} (held : Blocks sb d (sb.dinode d)) (small : i < sb.ninodes)
    (allocated : (sb.dinode d i).type ≠ 0) (filled : Filled d (sb.dinode d i)) (regular : (sb.dinode d i).type ≠ T_DEV)
    (accepted : Accepted (sb.dinode d i).size.toNat off.toNat n.toNat) :
    (∃ d' ip', sb.writei devsw d i (sb.dinode d i) src off n = .ok ((n.toNat : Int), d', ip') ∧
      Written sb d i off.toNat (off.toNat + n.toNat) (fun k => src (k - off.toNat)) d' ip') ∨
      sb.writei devsw d i (sb.dinode d i) src off n = .error "balloc: out of blocks" ∧
        Full sb d (sb.dinode d) i (slotsOfBytes off.toNat (off.toNat + n.toNat)) := by
  have first : ¬ (off > (sb.dinode d i).size ∨ off + n < off) := by
    rw [not_or, wraps_iff, gt_iff_lt, BitVec.lt_def]
    unfold Accepted at accepted
    omega
  have second : ¬ off + n > BitVec.ofNat 32 (MAXFILE * BSIZE) := by
    rw [gt_iff_lt, BitVec.lt_def, toNat_limit, toNat_add accepted.2.1]
    exact Nat.not_lt_of_le accepted.2.2
  have sum : (off + n).toNat = off.toNat + n.toNat := toNat_add accepted.2.1
  unfold Superblock.writei
  rw [if_neg regular, if_neg first, if_neg second]
  rcases Wrote.of_writeLoop n.toNat off.toNat n.toNat src (fun k => src (k - off.toNat)) held small allocated accepted.2.2
    (Nat.le_refl _) (fun k _ => congrArg src (Nat.add_sub_cancel_left ..).symm) with ⟨d₁, ip₁, ran, wrote⟩ | ⟨failed, full⟩
  · left
    have size : ip₁.size = (sb.dinode d i).size := by rw [wrote.fields]
    rw [ran]
    dsimp only [bind, Except.bind]
    by_cases grows : n > 0 ∧ off + n > ip₁.size
    · rw [if_pos grows]
      have growth := grows.2
      rw [size, gt_iff_lt, BitVec.lt_def, sum] at growth
      have nonempty := grows.1
      rw [gt_iff_lt, BitVec.lt_def] at nonempty
      exact ⟨_, _, rfl, Written.of_growth held small allocated filled accepted.1 (Nat.lt_add_of_pos_right nonempty) growth
        accepted.2.2 sum wrote⟩
    · rw [if_neg grows]
      refine ⟨_, _, rfl, Written.of_inside held small allocated filled ?_ wrote⟩
      rw [size, gt_iff_lt, gt_iff_lt, BitVec.lt_def, BitVec.lt_def, sum] at grows
      have zero : (0 : Uint).toNat = 0 := rfl
      omega
  · right
    rw [failed]
    exact ⟨rfl, full⟩

end Xv6.Fs
