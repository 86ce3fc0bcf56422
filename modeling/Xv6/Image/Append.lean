import Xv6.Image.Build

namespace Xv6.Fs.Mkfs

open Function Bytes

variable {d d' : Disk} {table : Nat → Dinode} {din din' : Dinode} {i b c x fb fb' bn n off : Nat}

theorem bmapstart_ne (inside : sb.DataBlock b) : b ≠ sb.bmapstart := by
  have start : sb.datastart ≤ b := inside.1
  have first : sb.bmapstart < sb.datastart := by decide
  omega

theorem balloc_data (inside : sb.DataBlock b) (fb : Nat) : balloc d fb b = d b := update_of_ne (bmapstart_ne inside) ..

theorem balloc_update (inside : sb.DataBlock b) (data : Data) : update (balloc d fb) b data = balloc (update d b data) fb :=
  update_comm (bmapstart_ne inside).symm ..

theorem iblock_ne (small : i < sb.ninodes) : sb.iblock i ≠ sb.bmapstart := Nat.ne_of_lt (sb.iblock_bounds small).2

theorem dinode_balloc (small : i < sb.ninodes) : sb.dinode (balloc d fb) i = sb.dinode d i :=
  sb.dinode_update (iblock_ne small)

theorem putDinode_balloc (small : i < sb.ninodes) : sb.putDinode (balloc d fb) i din = balloc (sb.putDinode d i din) fb := by
  unfold Superblock.putDinode
  rw [balloc, update_of_ne (iblock_ne small), update_comm (iblock_ne small).symm]
  rfl

/-- The next block is taken: the one bit more of the free map, and the block itself is zero already. -/
theorem alloc_balloc (start : sb.datastart ≤ fb) (room : fb < sb.size) (zero : d fb = fun _ => 0) :
    sb.alloc (balloc d fb) fb = balloc d (fb + 1) := by
  have inside : fb < BPB := Nat.lt_trans room (by decide)
  have block : sb.bblock fb = sb.bmapstart := by
    unfold Superblock.bblock
    rw [Nat.div_eq_of_lt inside, Nat.zero_add]
  have bits : setBit ((List.range fb).foldl setBit fun _ => 0) fb = (List.range (fb + 1)).foldl setBit fun _ => 0 := by
    rw [List.range_succ, List.foldl_append, List.foldl_cons, List.foldl_nil]
  unfold Superblock.alloc Superblock.bzero
  rw [block, Nat.mod_eq_of_lt inside, balloc, update_self, update_idem, bits]
  show update (balloc d (fb + 1)) fb (fun _ => 0) = balloc d (fb + 1)
  apply update_eq_self_iff.mpr
  rw [balloc_data ⟨start, room⟩, zero]

/-- The counter of free blocks is in the data area, and what it has not reached is zero. -/
structure Fresh (d : Disk) (fb : Nat) : Prop where
  start : sb.datastart ≤ fb
  room : fb ≤ sb.size
  zero : ∀ b, fb ≤ b → b < sb.size → d b = fun _ => 0

theorem unused_next (room : fb < sb.size) : sb.used (balloc d fb) fb = false := by
  rw [used_balloc _ _ _ room, decide_eq_false_iff_not]
  exact Nat.lt_irrefl fb

namespace Fresh

theorem take (fresh : Fresh d fb) (room : fb < sb.size) : Fresh d (fb + 1) where
  start := Nat.le_succ_of_le fresh.start
  room := room
  zero b low := fresh.zero b (Nat.le_of_succ_le low)

theorem write (fresh : Fresh d fb) (low : b < fb) (data : Data) : Fresh (update d b data) fb where
  start := fresh.start
  room := fresh.room
  zero c above inside := by
    rw [update_of_ne (by omega)]
    exact fresh.zero c above inside

theorem alloc (fresh : Fresh d fb) (room : fb < sb.size) : sb.alloc (balloc d fb) fb = balloc d (fb + 1) :=
  alloc_balloc fresh.start room (fresh.zero fb (Nat.le_refl _) room)

end Fresh

theorem rsect_ok {sec : Nat} {u : Unit} (read : rsect sec = .ok u) : sec < sb.size := by
  unfold rsect at read
  by_cases inside : sec < sb.size
  · exact inside
  · rw [if_neg inside] at read
    cases read

theorem taken (inside : sb.DataBlock b) (in_use : sb.used (balloc d fb) b = true) :
    b < fb := by
  rw [used_balloc _ _ _ inside.2] at in_use
  exact of_decide_eq_true in_use

theorem mapped_of_blockEntry (fresh : Fresh d fb) (held : Blocks sb (balloc d fb) table) (small : i < sb.ninodes)
    (allocated : (table i).type ≠ 0) (large : ¬ bn < NDIRECT) (low : bn < MAXFILE) (present : (table i).addrs indirect ≠ 0)
    (ran : blockEntry d fb (table i) ((table i).addrs indirect).toNat (bn - NDIRECT) = .ok (x, d', fb', din'))
    (read : x < sb.size) :
    Mapped sb (balloc d fb) table i bn x (balloc d' fb') din' ∧ Fresh d' fb' ∧ fb ≤ fb' := by
  obtain ⟨mine, in_use⟩ := held.indirect_data small allocated present
  have inside_e : bn - NDIRECT < NINDIRECT := by
    unfold MAXFILE at low
    omega
  unfold blockEntry at ran
  cases at_table : rsect ((table i).addrs indirect).toNat with
  | error e =>
    rw [at_table] at ran
    cases ran
  | ok u =>
    rw [at_table] at ran
    dsimp only [bind, Except.bind] at ran
    have same : load 4 (balloc d fb ((table i).addrs indirect).toNat) (4 * (bn - NDIRECT)) =
        load 4 (d ((table i).addrs indirect).toNat) (4 * (bn - NDIRECT)) := by rw [balloc_data mine]
    by_cases empty : load 4 (d ((table i).addrs indirect).toNat) (4 * (bn - NDIRECT)) = 0
    · rw [if_pos empty] at ran
      cases ran
      have mapped := Mapped.of_entry held small allocated read (unused_next read) large inside_e present (same.trans empty)
      rw [fresh.alloc read, balloc_data mine, balloc_update mine] at mapped
      exact ⟨mapped, (fresh.take read).write (Nat.lt_succ_of_lt (taken mine in_use)) _, Nat.le_succ _⟩
    · rw [if_neg empty] at ran
      cases ran
      have slot : addr (balloc d fb) (table i) bn = load 4 (d ((table i).addrs indirect).toNat) (4 * (bn - NDIRECT)) := by
        rw [addr, blockSlot_entry large, ref_entry present, same]
      have mapped := Mapped.of_found held small allocated low (by rw [slot]; exact empty)
      rw [slot] at mapped
      exact ⟨mapped, fresh, Nat.le_refl _⟩

theorem blockEntry_reads {t j : Nat} {r : Nat × Disk × Nat × Dinode} (ran : blockEntry d fb din t j = .ok r) :
    t < sb.size := by
  unfold blockEntry at ran
  cases read : rsect t with
  | error e =>
    rw [read] at ran
    cases ran
  | ok u => exact rsect_ok read

theorem mapped_of_blockOf (fresh : Fresh d fb) (held : Blocks sb (balloc d fb) table) (small : i < sb.ninodes)
    (allocated : (table i).type ≠ 0) (low : bn < MAXFILE) (ran : blockOf d fb (table i) bn = .ok (x, d', fb', din'))
    (read : x < sb.size) :
    Mapped sb (balloc d fb) table i bn x (balloc d' fb') din' ∧ Fresh d' fb' ∧ fb ≤ fb' := by
  unfold blockOf at ran
  by_cases direct : bn < NDIRECT
  · rw [dif_pos direct] at ran
    dsimp only at ran
    by_cases empty : (table i).addrs ⟨bn, Nat.lt_succ_of_lt direct⟩ = 0
    · rw [if_pos empty] at ran
      cases ran
      have mapped := Mapped.of_addr held small allocated read (unused_next read) direct empty
      rw [fresh.alloc read] at mapped
      exact ⟨mapped, fresh.take read, Nat.le_succ _⟩
    · rw [if_neg empty] at ran
      cases ran
      have slot : addr (balloc d fb) (table i) bn = ((table i).addrs ⟨bn, Nat.lt_succ_of_lt direct⟩).toNat := by
        rw [addr, blockSlot_direct direct]
        exact ref_addr ⟨bn, Nat.lt_succ_of_lt direct⟩
      have mapped := Mapped.of_found held small allocated low (by rw [slot]; exact toNat_ne_zero.mpr empty)
      rw [slot] at mapped
      exact ⟨mapped, fresh, Nat.le_refl _⟩
  · rw [dif_neg direct] at ran
    by_cases empty : (table i).addrs indirect = 0
    · rw [if_pos empty] at ran
      have room : fb < sb.size := blockEntry_reads ran
      have held' := held.take_addr small allocated room (unused_next room) indirect empty
      have self : update table i ((table i).setAddr indirect fb) i = (table i).setAddr indirect fb := update_self ..
      have inside : sb.DataBlock fb := ⟨fresh.start, room⟩
      have word : (((table i).setAddr indirect fb).addrs indirect).toNat = fb := by
        rw [setAddr_self, Blocks.word_of_data inside]
      rw [fresh.alloc room] at held'
      have entry := mapped_of_blockEntry (x := x) (fresh.take room) held' small (by rw [self]; exact allocated)
        direct low (by rw [self, ← toNat_ne_zero, word]; exact Blocks.pos_of_data inside)
        (by rw [self, word]; exact ran) read
      obtain ⟨mapped, fresh', le⟩ := entry
      rw [← fresh.alloc room] at mapped
      exact ⟨mapped.after_indirect held small allocated room (unused_next room) empty direct, fresh', Nat.le_of_succ_le le⟩
    · rw [if_neg empty] at ran
      exact mapped_of_blockEntry fresh held small allocated direct low empty ran read

theorem wrote_of_appendLoop (fuel off n : Nat) (p content : Nat → UInt8) (fresh : Fresh d fb)
    (held : Blocks sb (balloc d fb) table) (small : i < sb.ninodes) (allocated : (table i).type ≠ 0) (enough : n ≤ fuel)
    (same : ∀ k, k < n → p k = content (off + k)) (ran : appendLoop fuel d fb (table i) off n p = .ok (d', fb', din')) :
    (n = 0 ∨ off + n ≤ MAXFILE * BSIZE) ∧ Wrote sb (balloc d fb) table i off (off + n) content (balloc d' fb') din' ∧
      Fresh d' fb' ∧ fb ≤ fb' := by
  induction fuel generalizing d fb table off n p with
  | zero =>
    have none : n = 0 := by omega
    subst none
    cases ran
    exact ⟨.inl rfl, .refl held (Nat.le_refl _), fresh, Nat.le_refl _⟩
  | succ fuel ih =>
    rw [appendLoop] at ran
    by_cases done : n = 0
    · subst done
      rw [if_pos rfl] at ran
      cases ran
      exact ⟨.inl rfl, .refl held (Nat.le_refl _), fresh, Nat.le_refl _⟩
    rw [if_neg done] at ran
    by_cases long : MAXFILE ≤ off / BSIZE
    · rw [if_pos long] at ran
      cases ran
    rw [if_neg long] at ran
    have inside : off / BSIZE < MAXFILE := by omega
    have low : off < MAXFILE * BSIZE := by rwa [Nat.div_lt_iff_lt_mul (by decide)] at inside
    have offset : off % BSIZE < BSIZE := Nat.mod_lt _ (by decide)
    have whole := Nat.div_add_mod off BSIZE
    have block : (off / BSIZE + 1) * BSIZE - off = BSIZE - off % BSIZE := by
      rw [Nat.add_mul, Nat.mul_comm, Nat.one_mul]
      omega
    have start : off - off / BSIZE * BSIZE = off % BSIZE := by
      rw [Nat.mul_comm]
      omega
    obtain ⟨m, eq⟩ : ∃ m, m = min n (BSIZE - off % BSIZE) := ⟨_, rfl⟩
    rw [block, start, ← eq] at ran
    cases mapping : blockOf d fb (table i) (off / BSIZE) with
    | error e =>
      rw [mapping] at ran
      cases ran
    | ok r =>
      obtain ⟨x, d₁, fb₁, din₁⟩ := r
      rw [mapping] at ran
      dsimp only [bind, Except.bind] at ran
      cases read : rsect x with
      | error e =>
        rw [read] at ran
        cases ran
      | ok u =>
        rw [read] at ran
        dsimp only at ran
        obtain ⟨mapped, fresh₁, le₁⟩ := mapped_of_blockOf fresh held small allocated inside mapping (rsect_ok read)
        have first := Wrote.of_block (m := m) held small allocated low (by omega) (by omega) mapped
          (fun k early => same k (by omega))
        have self : update table i din₁ i = din₁ := update_self ..
        have type : din₁.type ≠ 0 := by
          rw [mapped.fields]
          exact allocated
        have in_use : x < fb₁ := by
          have nonzero : addr (balloc d₁ fb₁) din₁ (off / BSIZE) ≠ 0 := by
            rw [mapped.here]
            exact Blocks.pos_of_data mapped.data
          have mine := mapped.blocks.addr_data small (by rw [self]; exact type) inside (by rw [self]; exact nonzero)
          rw [self, mapped.here] at mine
          exact taken mine.1 mine.2
        rw [balloc_data mapped.data, balloc_update mapped.data] at first
        obtain ⟨bound, second, fresh₂, le₂⟩ := ih (off + m) (n - m) (fun k => p (m + k)) (fresh₁.write in_use _) first.blocks
          (by rw [self]; exact type) (by omega) (fun k early => by rw [same (m + k) (by omega), Nat.add_assoc])
          (by rw [self]; exact ran)
        have top : off + m ≤ MAXFILE * BSIZE := by
          have limit : (off / BSIZE + 1) * BSIZE ≤ MAXFILE * BSIZE := Nat.mul_le_mul_right _ inside
          omega
        rw [Nat.add_assoc, Nat.add_sub_cancel' (by omega)] at second bound
        have whole_range : off + n ≤ MAXFILE * BSIZE := by
          rcases bound with last | bound
          · rw [show n = m by omega]
            exact top
          · exact bound
        exact ⟨.inr whole_range, first.trans held small allocated (by omega) (by omega) whole_range second, fresh₂,
          Nat.le_trans le₁ le₂⟩

end Xv6.Fs.Mkfs
