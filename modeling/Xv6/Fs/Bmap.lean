import Mathlib.Data.Finset.Insert
import Xv6.Fs.Blocks

namespace Xv6.Fs

open Function Bytes Allocation

variable {sb : Superblock} {d d' : Disk} {table : Nat → Dinode} {ip ip' : Dinode} {i j k b c bn : Nat}

/-- The slot of the number of the nth block of the content. -/
def blockSlot (bn : Nat) : Nat := if bn < NDIRECT then bn else bn + 1

/-- The nth block of the content, 0 if there is none. -/
def addr (d : Disk) (ip : Dinode) (bn : Nat) : Nat := ref d ip (blockSlot bn)

theorem blockSlot_lt (small : bn < MAXFILE) : blockSlot bn < SLOTS := by
  unfold blockSlot SLOTS
  unfold MAXFILE at small
  split <;> omega

theorem blockSlot_ne : blockSlot bn ≠ indirect.val := by
  show blockSlot bn ≠ NDIRECT
  unfold blockSlot
  split <;> omega

theorem blockSlot_inj {m : Nat} (same : blockSlot m = blockSlot bn) : m = bn := by
  unfold blockSlot at same
  split at same <;> split at same <;> omega

theorem blockSlot_direct (small : bn < NDIRECT) : blockSlot bn = bn := if_pos small

theorem blockSlot_entry (large : ¬ bn < NDIRECT) : blockSlot bn = NDIRECT + 1 + (bn - NDIRECT) := by
  rw [blockSlot, if_neg large]
  omega

/-- The slots that `bmap` goes through for the nth block. -/
def slotsOf (bn : Nat) : Finset Nat := if bn < NDIRECT then {bn} else {indirect.val, blockSlot bn}

theorem blockSlot_mem (bn : Nat) : blockSlot bn ∈ slotsOf bn := by
  unfold slotsOf blockSlot
  split <;> simp

theorem slotsOf_lt (small : bn < MAXFILE) (member : k ∈ slotsOf bn) : k < SLOTS := by
  unfold slotsOf at member
  split at member
  · rw [Finset.mem_singleton] at member
    have direct : bn < NDIRECT := ‹_›
    unfold SLOTS
    omega
  · rw [Finset.mem_insert, Finset.mem_singleton] at member
    rcases member with rfl | rfl
    · decide
    · exact blockSlot_lt small

theorem blockSlot_not_mem {m : Nat} (ne : m ≠ bn) : blockSlot m ∉ slotsOf bn := by
  intro member
  unfold slotsOf at member
  split at member
  · rw [Finset.mem_singleton, ← blockSlot_direct ‹bn < NDIRECT›] at member
    exact ne (blockSlot_inj member)
  · rw [Finset.mem_insert, Finset.mem_singleton] at member
    rcases member with eq | eq
    · exact blockSlot_ne eq
    · exact ne (blockSlot_inj eq)

/-- What `bmap` does for inode `i`. -/
structure Mapped (sb : Superblock) (d : Disk) (table : Nat → Dinode) (i bn b : Nat) (d' : Disk) (ip' : Dinode) : Prop where
  blocks : Blocks sb d' (update table i ip')
  fields : ip' = { table i with addrs := ip'.addrs }
  here : addr d' ip' bn = b
  data : sb.DataBlock b
  slots : ∀ l, l ∉ slotsOf bn → ref d' ip' l = ref d (table i) l
  present : ∀ l ∈ slotsOf bn, ref d' ip' l ≠ 0
  found : addr d (table i) bn ≠ 0 → d' = d ∧ ip' = table i
  fresh : addr d (table i) bn = 0 → sb.used d b = false ∧ ∀ o, d' b o = 0
  kept : ∀ c, sb.DataBlock c → sb.used d c = true → c ≠ ((table i).addrs indirect).toNat → d' c = d c
  grows : ∀ c, c < sb.size → sb.used d c = true → sb.used d' c = true
  dinodes : ∀ j, j < sb.ninodes → sb.dinode d' j = sb.dinode d j

/-- No block is left when inode `i` asks for one in one of some slots. Up to then only these have changed. -/
def Full (sb : Superblock) (d : Disk) (table : Nat → Dinode) (i : Nat) (asked : Finset Nat) : Prop :=
  ∃ d' ip', Blocks sb d' (update table i ip') ∧
    (∀ j l, (j = i → l ∉ asked) → refs sb d' (update table i ip') (j, l) = refs sb d table (j, l)) ∧
    (∃ k ∈ asked, ref d' ip' k = 0) ∧ ∀ c, c < sb.size → sb.used d' c = true

theorem refs_self (type : ip'.type = (table i).type) (same : ref d' ip' k = ref d (table i) k) :
    refs sb d' (update table i ip') (i, k) = refs sb d table (i, k) := by
  unfold refs
  simp only [update_self, type, same]

namespace Full

variable {asked asked' : Finset Nat}

theorem now (held : Blocks sb d table) (member : k ∈ asked) (empty : ref d (table i) k = 0)
    (none : sb.firstFree d = none) : Full sb d table i asked := by
  refine ⟨d, table i, ?_, ?_, ⟨k, member, empty⟩, fun c small => sb.firstFree_none none small⟩
  · rwa [update_eq_self]
  · intro j l _
    rw [update_eq_self]

theorem before (same : ∀ j l, (j = i → l ∉ asked) → refs sb d' (update table i ip') (j, l) = refs sb d table (j, l))
    (full : Full sb d' (update table i ip') i asked) : Full sb d table i asked := by
  obtain ⟨d'', ip'', held, kept, empty, used⟩ := full
  rw [update_idem] at held
  refine ⟨d'', ip'', held, ?_, empty, used⟩
  intro j l away
  rw [← same j l away, ← kept j l away, update_idem]

theorem mono (full : Full sb d table i asked) (sub : asked ⊆ asked') : Full sb d table i asked' := by
  obtain ⟨d', ip', held, kept, ⟨k, member, empty⟩, used⟩ := full
  exact ⟨d', ip', held, fun j l away => kept j l fun eq inside => away eq (sub inside), ⟨k, sub member, empty⟩, used⟩

end Full

namespace Mapped

theorem others (mapped : Mapped sb d table i bn b d' ip') (m : Nat) (ne : m ≠ bn) : addr d' ip' m = addr d (table i) m :=
  mapped.slots _ (blockSlot_not_mem ne)

theorem of_found (held : Blocks sb d table) (small : i < sb.ninodes) (allocated : (table i).type ≠ 0) (low : bn < MAXFILE)
    (nonzero : addr d (table i) bn ≠ 0) :
    Mapped sb d table i bn (addr d (table i) bn) d (table i) where
  blocks := by rwa [update_eq_self]
  fields := rfl
  here := rfl
  data := (held.data small allocated (blockSlot_lt low) nonzero).1
  slots _ _ := rfl
  present l member := by
    unfold slotsOf at member
    split at member
    · rw [Finset.mem_singleton.mp member, ← blockSlot_direct ‹bn < NDIRECT›]
      exact nonzero
    · rw [Finset.mem_insert, Finset.mem_singleton] at member
      rcases member with rfl | rfl
      · rw [ref_addr, toNat_ne_zero]
        intro empty
        apply nonzero
        rw [addr, blockSlot_entry ‹¬ bn < NDIRECT›, ref_entry_none empty]
      · exact nonzero
  found _ := ⟨rfl, rfl⟩
  fresh empty := absurd empty nonzero
  kept _ _ _ _ := rfl
  grows _ _ in_use := in_use
  dinodes _ _ := rfl

theorem of_addr (held : Blocks sb d table) (small : i < sb.ninodes) (allocated : (table i).type ≠ 0) (room : b < sb.size)
    (unused : sb.used d b = false) (direct : bn < NDIRECT) (empty : (table i).addrs ⟨bn, Nat.lt_succ_of_lt direct⟩ = 0) :
    Mapped sb d table i bn b (sb.alloc d b) ((table i).setAddr ⟨bn, Nat.lt_succ_of_lt direct⟩ b) := by
  have inside := held.fresh room unused
  have slots := held.ref_setAddr small allocated room unused ⟨bn, Nat.lt_succ_of_lt direct⟩ empty
  have none : addr d (table i) bn = 0 := by
    rw [addr, blockSlot_direct direct]
    exact (ref_addr ⟨bn, Nat.lt_succ_of_lt direct⟩).trans (congrArg BitVec.toNat empty)
  constructor
  · exact held.take_addr small allocated room unused _ empty
  · rfl
  · rw [addr, slots, if_pos (blockSlot_direct direct)]
  · exact inside
  · intro l away
    rw [slotsOf, if_pos direct, Finset.mem_singleton] at away
    rw [slots, if_neg away]
  · intro l member
    rw [slotsOf, if_pos direct, Finset.mem_singleton] at member
    rw [slots, if_pos member]
    exact Blocks.pos_of_data inside
  · exact fun nonzero => absurd none nonzero
  · exact fun _ => ⟨unused, fun o => congrFun Superblock.alloc_self o⟩
  · exact fun c data in_use _ => Blocks.alloc_kept room unused ⟨data, in_use⟩
  · exact fun c small in_use => by rw [sb.used_alloc small inside, in_use, Bool.or_true]
  · exact fun j low => sb.dinode_alloc low inside

theorem of_entry (held : Blocks sb d table) (small : i < sb.ninodes) (allocated : (table i).type ≠ 0) (room : b < sb.size)
    (unused : sb.used d b = false) (large : ¬ bn < NDIRECT) (inside_e : bn - NDIRECT < NINDIRECT)
    (present : (table i).addrs indirect ≠ 0)
    (empty : load 4 (d ((table i).addrs indirect).toNat) (4 * (bn - NDIRECT)) = 0) :
    Mapped sb d table i bn b (update (sb.alloc d b) ((table i).addrs indirect).toNat
      (store 4 (sb.alloc d b ((table i).addrs indirect).toNat) (4 * (bn - NDIRECT)) b)) (table i) := by
  have inside := held.fresh room unused
  have mine := held.indirect_data small allocated present
  have slots := held.ref_store small allocated room unused present (bn - NDIRECT)
  have none : addr d (table i) bn = 0 := by
    rw [addr, blockSlot_entry large, ref_entry present, empty]
  constructor
  · rw [update_eq_self]
    exact held.take_entry small allocated room unused present inside_e empty
  · rfl
  · rw [addr, slots, if_pos (blockSlot_entry large)]
  · exact inside
  · intro l away
    rw [slotsOf, if_neg large, Finset.mem_insert, Finset.mem_singleton, not_or, blockSlot_entry large] at away
    rw [slots, if_neg away.2]
  · intro l member
    rw [slotsOf, if_neg large, Finset.mem_insert, Finset.mem_singleton, blockSlot_entry large] at member
    rcases member with rfl | rfl
    · rw [ref_addr]
      exact toNat_ne_zero.mpr present
    · rw [slots, if_pos rfl]
      exact Blocks.pos_of_data inside
  · exact fun nonzero => absurd none nonzero
  · intro _
    apply And.intro unused
    intro o
    rw [update_of_ne]
    · exact congrFun Superblock.alloc_self o
    · intro eq
      rw [eq, mine.2] at unused
      cases unused
  · intro c data in_use ne
    rw [update_of_ne ne]
    exact Blocks.alloc_kept room unused ⟨data, in_use⟩
  · intro c small in_use
    rw [sb.used_update (sb.bblock_ne_data small mine.1), sb.used_alloc small inside, in_use, Bool.or_true]
  · intro j low
    rw [sb.dinode_update (sb.iblock_ne_data low mine.1)]
    exact sb.dinode_alloc low inside

theorem after_indirect (held : Blocks sb d table) (small : i < sb.ninodes) (allocated : (table i).type ≠ 0) {t : Nat}
    (room : t < sb.size) (unused : sb.used d t = false) (empty : (table i).addrs indirect = 0) (large : ¬ bn < NDIRECT)
    (mapped : Mapped sb (sb.alloc d t) (update table i ((table i).setAddr indirect t)) i bn b d' ip') :
    Mapped sb d table i bn b d' ip' := by
  have inside := held.fresh room unused
  have blocks := mapped.blocks
  rw [update_idem] at blocks
  have fields := mapped.fields
  rw [update_self] at fields
  have slots := held.ref_setAddr small allocated room unused indirect empty
  have same : ∀ m, addr (sb.alloc d t) ((table i).setAddr indirect t) m = addr d (table i) m := by
    intro m
    rw [addr, slots, if_neg blockSlot_ne, addr]
  have none : addr d (table i) bn = 0 := by
    rw [addr, blockSlot_entry large, ref_entry_none empty]
  constructor
  · exact blocks
  · exact fields
  · exact mapped.here
  · exact mapped.data
  · intro l away
    have first : l ≠ indirect.val := by
      rw [slotsOf, if_neg large, Finset.mem_insert, not_or] at away
      exact away.1
    rw [mapped.slots l away, update_self, slots, if_neg first]
  · exact mapped.present
  · exact fun nonzero => absurd none nonzero
  · intro _
    have fresh := mapped.fresh (by rw [update_self, same, none])
    refine ⟨?_, fresh.2⟩
    by_contra in_use
    have in_use : sb.used d b = true := by simpa using in_use
    rw [sb.used_alloc mapped.data.2 inside, in_use, Bool.or_true] at fresh
    cases fresh.1
  · intro c data in_use _
    rw [mapped.kept c data]
    · exact Blocks.alloc_kept room unused ⟨data, in_use⟩
    · rw [sb.used_alloc data.2 inside, in_use, Bool.or_true]
    · rw [update_self, setAddr_self, Blocks.word_of_data inside]
      intro eq
      subst eq
      rw [unused] at in_use
      cases in_use
  · exact fun c small in_use => mapped.grows c small (by rw [sb.used_alloc small inside, in_use, Bool.or_true])
  · intro j low
    rw [mapped.dinodes j low]
    exact sb.dinode_alloc low inside

theorem of_bmapEntry (held : Blocks sb d table) (small : i < sb.ninodes) (allocated : (table i).type ≠ 0)
    (low : bn < MAXFILE) (large : ¬ bn < NDIRECT) (present : (table i).addrs indirect ≠ 0) :
    (∃ b d' ip', sb.bmapEntry d (table i) ((table i).addrs indirect).toNat (bn - NDIRECT) = .ok (b, d', ip') ∧
      Mapped sb d table i bn b d' ip') ∨
      sb.bmapEntry d (table i) ((table i).addrs indirect).toNat (bn - NDIRECT) = .error "balloc: out of blocks" ∧
        Full sb d table i (slotsOf bn) := by
  have slot : addr d (table i) bn = load 4 (d ((table i).addrs indirect).toNat) (4 * (bn - NDIRECT)) := by
    rw [addr, blockSlot_entry large, ref_entry present]
  by_cases empty : load 4 (d ((table i).addrs indirect).toNat) (4 * (bn - NDIRECT)) = 0
  · rcases sb.balloc_cases (d := d) with ⟨b, found, ran⟩ | ⟨none, failed⟩
    · obtain ⟨room, unused⟩ := sb.firstFree_spec found
      have inside_e : bn - NDIRECT < NINDIRECT := by
        unfold MAXFILE at low
        omega
      refine .inl ⟨b, _, _, ?_, of_entry held small allocated room unused large inside_e present empty⟩
      rw [Superblock.bmapEntry, if_pos empty, ran]
      rfl
    · right
      constructor
      · rw [Superblock.bmapEntry, if_pos empty, failed]
        rfl
      · exact .now held (blockSlot_mem bn) (by rw [← addr, slot, empty]) none
  · refine .inl ⟨_, _, _, ?_, of_found held small allocated low (by rw [slot]; exact empty)⟩
    rw [Superblock.bmapEntry, if_neg empty, slot]

theorem of_bmap (held : Blocks sb d table) (small : i < sb.ninodes) (allocated : (table i).type ≠ 0) (low : bn < MAXFILE) :
    (∃ b d' ip', sb.bmap d (table i) bn = .ok (b, d', ip') ∧ Mapped sb d table i bn b d' ip') ∨
      sb.bmap d (table i) bn = .error "balloc: out of blocks" ∧ Full sb d table i (slotsOf bn) := by
  by_cases direct : bn < NDIRECT
  · have slot : addr d (table i) bn = ((table i).addrs ⟨bn, Nat.lt_succ_of_lt direct⟩).toNat := by
      rw [addr, blockSlot_direct direct]
      exact ref_addr ⟨bn, Nat.lt_succ_of_lt direct⟩
    by_cases empty : (table i).addrs ⟨bn, Nat.lt_succ_of_lt direct⟩ = 0
    · rcases sb.balloc_cases (d := d) with ⟨b, found, ran⟩ | ⟨none, failed⟩
      · obtain ⟨room, unused⟩ := sb.firstFree_spec found
        refine .inl ⟨b, _, _, ?_, of_addr held small allocated room unused direct empty⟩
        rw [Superblock.bmap, dif_pos direct, if_pos empty, ran]
        rfl
      · right
        constructor
        · rw [Superblock.bmap, dif_pos direct, if_pos empty, failed]
          rfl
        · exact .now held (blockSlot_mem bn) (by rw [← addr, slot, empty]; rfl) none
    · refine .inl ⟨_, _, _, ?_, of_found held small allocated low (by rw [slot]; exact toNat_ne_zero.mpr empty)⟩
      rw [Superblock.bmap, dif_pos direct, if_neg empty, slot]
  · have inside_e : bn - NDIRECT < NINDIRECT := by
      unfold MAXFILE at low
      omega
    rw [Superblock.bmap, dif_neg direct, if_pos inside_e]
    by_cases empty : (table i).addrs indirect = 0
    · rw [if_pos empty]
      rcases sb.balloc_cases (d := d) with ⟨t, found, ran⟩ | ⟨none, failed⟩
      · obtain ⟨room, unused⟩ := sb.firstFree_spec found
        have inside := held.fresh room unused
        have held' := held.take_addr small allocated room unused indirect empty
        have self : (update table i ((table i).setAddr indirect t)) i = (table i).setAddr indirect t := update_self ..
        have word : (((table i).setAddr indirect t).addrs indirect).toNat = t := by
          rw [setAddr_self, Blocks.word_of_data inside]
        have entry := of_bmapEntry held' small (by rw [self]; exact allocated) low direct
          (by rw [self, ← toNat_ne_zero, word]; exact Blocks.pos_of_data inside)
        rw [self, word] at entry
        rw [ran]
        rcases entry with ⟨b, d', ip', entered, mapped⟩ | ⟨failed, full⟩
        · exact .inl ⟨b, d', ip', entered, after_indirect held small allocated room unused empty direct mapped⟩
        · refine .inr ⟨failed, full.before fun j l away => ?_⟩
          by_cases mine : j = i
          · subst mine
            have type : ((table j).setAddr indirect t).type = (table j).type := rfl
            apply refs_self type
            rw [held.ref_setAddr small allocated room unused indirect empty, if_neg]
            intro eq
            exact away rfl (by simp [slotsOf, direct, eq])
          · exact held.refs_alloc room unused j mine l
      · right
        constructor
        · rw [failed]
          rfl
        · exact .now held (by simp [slotsOf, direct]) ((ref_addr indirect).trans (congrArg BitVec.toNat empty)) none
    · rw [if_neg empty]
      exact of_bmapEntry held small allocated low direct empty

end Mapped

end Xv6.Fs
