import Xv6.Fs.Writei

namespace Xv6.Fs

open Function Bytes Allocation

variable {sb : Superblock} {d d' : Disk} {table table' : Nat → Dinode} {ip ip' : Dinode} {i j k b c l : Nat}
  {gone : Nat → Prop}

/-- The blocks of some slots of an inode are free, and nothing else has changed on the disk. -/
structure Freed (sb : Superblock) (d : Disk) (ip : Dinode) (gone : Nat → Prop) (d' : Disk) : Prop where
  bits : ∀ c, c < sb.size → (sb.used d' c = true ↔ sb.used d c = true ∧ ∀ l, gone l → ref d ip l = c → c = 0)
  data : ∀ c, sb.DataBlock c → d' c = d c
  dinodes : ∀ j, j < sb.ninodes → sb.dinode d' j = sb.dinode d j

namespace Freed

theorem none (empty : ∀ l, ¬ gone l) : Freed sb d ip gone d where
  bits c _ := by
    constructor
    · exact fun in_use => ⟨in_use, fun l left => absurd left (empty l)⟩
    · exact And.left
  data _ _ := rfl
  dinodes _ _ := rfl

theorem skip {gone' : Nat → Prop} (freed : Freed sb d ip gone d') (more : ∀ l, gone l → gone' l)
    (empty : ∀ l, gone' l → gone l ∨ ref d ip l = 0) : Freed sb d ip gone' d' where
  bits c small := by
    rw [freed.bits c small]
    constructor
    · intro h
      apply And.intro h.1
      intro l left at_l
      rcases empty l left with left | none
      · exact h.2 l left at_l
      · rw [← at_l, none]
    · exact fun h => ⟨h.1, fun l left => h.2 l (more l left)⟩
  data := freed.data
  dinodes := freed.dinodes

/-- The block of one more slot is freed. Its bit is still set, since no other slot has its number. -/
theorem free (freed : Freed sb d (table i) gone d') (held : Blocks sb d table) (small : i < sb.ninodes)
    (allocated : (table i).type ≠ 0) (slots : ∀ l, gone l → l < SLOTS) (slot : k < SLOTS) (left : ¬ gone k)
    (at_k : ref d (table i) k = b) (nonzero : b ≠ 0) :
    sb.bfree d' b = .ok (sb.free d' b) ∧ Freed sb d (table i) (fun l => gone l ∨ l = k) (sb.free d' b) := by
  subst at_k
  have mine := held.data small allocated slot nonzero
  have distinct : ∀ l, gone l → ref d (table i) l = ref d (table i) k → ref d (table i) k = 0 := by
    intro l went same
    have eq := held.exact.distinct (i, l) (i, k) (ref d (table i) k)
      (refs_eq_some.mpr ⟨⟨small, allocated, slots l went⟩, same, nonzero⟩)
      (refs_eq_some.mpr ⟨⟨small, allocated, slot⟩, rfl, nonzero⟩)
    have same_slot : l = k := congrArg Prod.snd eq
    exact absurd (same_slot ▸ went) left
  constructor
  · exact sb.bfree_eq ((freed.bits _ mine.1.2).mpr ⟨mine.2, distinct⟩)
  · constructor
    · intro c room
      rw [sb.used_free, Bool.and_eq_true, decide_eq_true_eq, freed.bits c room]
      constructor
      · intro h
        apply And.intro h.2.1
        intro l went at_l
        rcases went with went | here
        · exact h.2.2 l went at_l
        · subst here
          exact absurd at_l.symm h.1
      · intro h
        refine ⟨?_, h.1, fun l went => h.2 l (.inl went)⟩
        intro eq
        exact nonzero (eq ▸ h.2 k (.inr rfl) eq.symm)
    · intro c inside
      rw [sb.free_data inside mine.1.2, freed.data c inside]
    · intro j low
      rw [sb.dinode_free low mine.1.2, freed.dinodes j low]

theorem setAddr_fields {a : Fin (NDIRECT + 1)} (fields : ip' = { ip with addrs := ip'.addrs }) :
    ip'.setAddr a b = { ip with addrs := (ip'.setAddr a b).addrs } :=
  congrArg (fun x : Dinode => { x with addrs := (ip'.setAddr a b).addrs }) fields

theorem congr {gone' : Nat → Prop} (freed : Freed sb d ip gone d') (same : ∀ l, gone l ↔ gone' l) :
    Freed sb d ip gone' d' :=
  freed.skip (fun l => (same l).mp) fun l left => .inl ((same l).mpr left)

theorem blocks (table' : Nat → Dinode) (freed : Freed sb d (table i) (· < SLOTS) d') (held : Blocks sb d table) (small : i < sb.ninodes)
    (allocated : (table i).type ≠ 0) (rows : ∀ j, j < sb.ninodes → j ≠ i → table' j = table j)
    (empty : ∀ k, ref (sb.putDinode d' i (table' i)) (table' i) k = 0) :
    Blocks sb (sb.putDinode d' i (table' i)) table' := by
  constructor
  · apply (held.exact.drop fun x => x.1 = i).congr
    · intro x
      obtain ⟨j, l⟩ := x
      by_cases here : j = i
      · subst here
        rw [if_pos rfl]
        unfold refs
        rw [if_neg fun h => h.2.2.2 (empty l)]
      · rw [if_neg here]
        by_cases low : j < sb.ninodes
        · apply Blocks.refs_kept (rows j low here)
          intro small' allocated present
          have inside := (held.indirect_data small' allocated present).1
          rw [sb.data_put small inside, freed.data _ inside]
        · unfold refs
          rw [if_neg fun h => low h.1, if_neg fun h => low h.1]
    · intro c
      constructor
      · intro h
        have still := h.2
        rw [sb.used_put small h.1.2, freed.bits c h.1.2] at still
        refine ⟨⟨h.1, still.1⟩, ?_⟩
        intro x here at_x
        obtain ⟨j, l⟩ := x
        subst here
        obtain ⟨inside, eq, nonzero⟩ := refs_eq_some.mp at_x
        exact nonzero (still.2 l inside.2.2 eq)
      · intro h
        rw [sb.used_put small h.1.1.2, freed.bits c h.1.1.2]
        refine ⟨h.1.1, h.1.2, ?_⟩
        intro l slot at_l
        exact absurd (refs_eq_some.mpr ⟨⟨small, allocated, slot⟩, at_l, Blocks.pos_of_data h.1.1⟩) (h.2 (i, l) rfl)
  · intro c low
    have fits := sb.bitmap_fits
    have inside : c < sb.size := by
      unfold Superblock.datastart at low
      omega
    rw [sb.used_put small inside, freed.bits c inside]
    refine ⟨held.reserved c low, ?_⟩
    intro l slot at_l
    by_contra nonzero
    have data := (held.data small allocated slot (at_l ▸ nonzero)).1
    rw [at_l] at data
    have start := data.1
    omega

theorem of_direct (held : Blocks sb d table) (small : i < sb.ninodes) (allocated : (table i).type ≠ 0) :
    ∃ d' ip', (List.finRange NDIRECT).foldlM (fun (x : Disk × Dinode) i => sb.truncDirect x.1 x.2 i.castSucc) (d, table i) =
        .ok (d', ip') ∧
      Freed sb d (table i) (· < NDIRECT) d' ∧ ip' = { table i with addrs := ip'.addrs } ∧
      ip'.addrs indirect = (table i).addrs indirect ∧ ∀ a : Fin NDIRECT, ip'.addrs a.castSucc = 0 := by
  have loop := Loops.foldlM_ok (f := fun (x : Disk × Dinode) i => sb.truncDirect x.1 x.2 i.castSucc) (s := (d, table i))
    (I := fun done x => Freed sb d (table i) (fun l => ∃ a ∈ done, l = a.val) x.1 ∧
      x.2 = { table i with addrs := x.2.addrs } ∧ (∀ b ∈ done, x.2.addrs (Fin.castSucc b) = 0) ∧
      ∀ a, (∀ b ∈ done, a ≠ Fin.castSucc b) → x.2.addrs a = (table i).addrs a)
    (List.finRange NDIRECT) ?_ ?_
  · obtain ⟨⟨d', ip'⟩, ran, freed, fields, cleared, kept⟩ := loop
    refine ⟨d', ip', ran, ?_, fields, ?_, ?_⟩
    · apply freed.congr
      intro l
      constructor
      · intro ⟨a, _, eq⟩
        exact eq ▸ a.isLt
      · exact fun low => ⟨⟨l, low⟩, List.mem_finRange _, rfl⟩
    · exact kept indirect fun a _ eq => Fin.ne_of_lt (Fin.castSucc_lt_last a) eq.symm
    · exact fun a => cleared a (List.mem_finRange a)
  · refine ⟨none (by simp), rfl, ?_, fun _ _ => rfl⟩
    intro b member
    cases member
  · intro done a rest x split held'
    obtain ⟨freed, fields, cleared, kept⟩ := held'
    obtain ⟨d', ip'⟩ := x
    have new : a ∉ done := by
      have distinct := List.nodup_finRange NDIRECT
      rw [split, List.nodup_append] at distinct
      exact fun member => distinct.2.2 a member a (.head _) rfl
    have left : ∀ b ∈ done, a.castSucc ≠ Fin.castSucc b := fun b member eq => new (Fin.castSucc_inj.mp eq ▸ member)
    have here : ip'.addrs a.castSucc = (table i).addrs a.castSucc := kept _ left
    have slot : ref d (table i) a.val = ((table i).addrs a.castSucc).toNat := ref_addr a.castSucc
    have more : ∀ l, ((∃ b ∈ done, l = b.val) ∨ l = a.val) ↔ ∃ b ∈ done ++ [a], l = Fin.val b := by
      intro l
      simp only [List.mem_append, List.mem_singleton, or_and_right, exists_or, exists_eq_left]
    have last : ∀ b, b ∈ done ++ [a] → b ∈ done ∨ b = a := by simp
    by_cases empty : ip'.addrs a.castSucc = 0
    · refine ⟨(d', ip'), if_pos empty, ?_, fields, ?_, ?_⟩
      · apply freed.skip fun l left => (more l).mp (.inl left)
        intro l left
        apply ((more l).mpr left).imp_right
        intro eq
        rw [eq, slot, ← here, empty]
        rfl
      · intro b member
        rcases last b member with member | rfl
        · exact cleared b member
        · exact empty
      · exact fun b away => kept b fun c member => away c (List.mem_append_left _ member)
    · have nonzero := empty
      rw [here] at nonzero
      obtain ⟨ran, freed'⟩ := freed.free held small allocated
        (fun l ⟨b, _, eq⟩ => by have := b.isLt; unfold SLOTS; omega) (by have := a.isLt; unfold SLOTS; omega)
        (fun ⟨b, member, eq⟩ => new (Fin.ext eq ▸ member)) slot (toNat_ne_zero.mpr nonzero)
      refine ⟨(sb.free d' ((table i).addrs a.castSucc).toNat, ip'.setAddr a.castSucc 0), ?_, freed'.congr more, ?_, ?_, ?_⟩
      · rw [Superblock.truncDirect, if_neg empty, here, ran]
        rfl
      · exact setAddr_fields fields
      · intro b member
        rcases last b member with member | rfl
        · exact (setAddr_of_ne fun eq => left b member eq.symm).trans (cleared b member)
        · exact setAddr_self _
      · intro b away
        rw [setAddr_of_ne (away a (by simp))]
        exact kept b fun c member => away c (List.mem_append_left _ member)

/-- The blocks of the entries of the indirect block, in the second loop of `itrunc`. -/
theorem of_entries (held : Blocks sb d table) (small : i < sb.ninodes) (allocated : (table i).type ≠ 0)
    (freed : Freed sb d (table i) (· < NDIRECT) d') (present : (table i).addrs indirect ≠ 0) :
    ∃ d'', (List.range NINDIRECT).foldlM (sb.truncEntry ((table i).addrs indirect).toNat) d' = .ok d'' ∧
      Freed sb d (table i) (fun l => l < SLOTS ∧ l ≠ indirect.val) d'' := by
  have loop := Loops.foldlM_ok (f := sb.truncEntry ((table i).addrs indirect).toNat) (s := d')
    (I := fun done x => Freed sb d (table i) (fun l => l < NDIRECT ∨ ∃ j ∈ done, l = NDIRECT + 1 + j) x)
    (List.range NINDIRECT) ?_ ?_
  · obtain ⟨d'', ran, freed'⟩ := loop
    refine ⟨d'', ran, freed'.congr ?_⟩
    intro l
    simp only [List.mem_range]
    show _ ↔ l < NDIRECT + 1 + NINDIRECT ∧ l ≠ NDIRECT
    constructor
    · rintro (low | ⟨j, low, rfl⟩) <;> omega
    · intro h
      by_cases low : l < NDIRECT
      · exact .inl low
      · exact .inr ⟨l - (NDIRECT + 1), by omega, by omega⟩
  · apply freed.congr
    simp
  · intro done j rest x split freed'
    have new : j ∉ done := by
      have distinct := List.nodup_range (n := NINDIRECT)
      rw [split, List.nodup_append] at distinct
      exact fun member => distinct.2.2 j member j (.head _) rfl
    have low : j < NINDIRECT := by
      rw [← List.mem_range, split]
      simp
    have slot := ref_entry (d := d) present j
    have here : load 4 (x ((table i).addrs indirect).toNat) (4 * j) = ref d (table i) (NDIRECT + 1 + j) := by
      rw [freed'.data _ (held.indirect_data small allocated present).1, slot]
    have more : ∀ l, ((l < NDIRECT ∨ ∃ j ∈ done, l = NDIRECT + 1 + j) ∨ l = NDIRECT + 1 + j) ↔
        l < NDIRECT ∨ ∃ k ∈ done ++ [j], l = NDIRECT + 1 + k := by
      intro l
      simp only [List.mem_append, List.mem_singleton, or_and_right, exists_or, exists_eq_left, or_assoc]
    unfold Superblock.truncEntry
    rw [here]
    by_cases empty : ref d (table i) (NDIRECT + 1 + j) = 0
    · refine ⟨x, if_pos empty, freed'.skip (fun l left => (more l).mp (.inl left)) ?_⟩
      intro l left
      apply ((more l).mpr left).imp_right
      intro eq
      rw [eq, empty]
    · have inside : ∀ l, (l < NDIRECT ∨ ∃ j ∈ done, l = NDIRECT + 1 + j) → l < SLOTS := by
        unfold SLOTS
        rintro l (low | ⟨k, member, rfl⟩)
        · omega
        · have : k < NINDIRECT := by
            rw [← List.mem_range, split]
            exact List.mem_append_left _ member
          omega
      have outside : ¬ (NDIRECT + 1 + j < NDIRECT ∨ ∃ k ∈ done, NDIRECT + 1 + j = NDIRECT + 1 + k) := by
        rintro (low | ⟨k, member, eq⟩)
        · omega
        · exact new (Nat.add_left_cancel eq ▸ member)
      obtain ⟨ran, freed''⟩ := freed'.free held small allocated inside (by unfold SLOTS; omega) outside rfl empty
      exact ⟨_, (if_neg empty).trans ran, freed''.congr more⟩

theorem of_indirect (held : Blocks sb d table) (small : i < sb.ninodes) (allocated : (table i).type ≠ 0)
    (freed : Freed sb d (table i) (· < NDIRECT) d') (fields : ip' = { table i with addrs := ip'.addrs })
    (same : ip'.addrs indirect = (table i).addrs indirect) (direct : ∀ a : Fin NDIRECT, ip'.addrs a.castSucc = 0) :
    ∃ d'', sb.truncIndirect d' ip' = .ok (d'', { table i with addrs := fun _ => 0 }) ∧
      Freed sb d (table i) (· < SLOTS) d'' := by
  have all : ∀ ip'' : Dinode, ip'' = { table i with addrs := ip''.addrs } → ip''.addrs indirect = 0 →
      (∀ a : Fin NDIRECT, ip''.addrs a.castSucc = 0) → ip'' = { table i with addrs := fun _ => 0 } := by
    intro ip'' fields last direct
    have none : ip''.addrs = fun _ => 0 := by
      funext a
      cases a using Fin.lastCases with
      | last => exact last
      | cast a => exact direct a
    rw [fields, none]
  unfold Superblock.truncIndirect
  rw [same]
  by_cases empty : (table i).addrs indirect = 0
  · rw [if_pos empty, all ip' fields (same.trans empty) direct]
    refine ⟨d', rfl, freed.skip (fun l low => ?_) fun l slot => ?_⟩
    · unfold SLOTS
      omega
    · rcases slot_cases l with ⟨a, rfl⟩ | ⟨j, rfl⟩
      · cases a using Fin.lastCases with
        | last =>
          right
          rw [ref_addr]
          exact congrArg BitVec.toNat empty
        | cast a => exact .inl a.isLt
      · exact .inr (ref_entry_none empty j)
  · rw [if_neg empty]
    obtain ⟨d₁, ran, freed₁⟩ := of_entries held small allocated freed empty
    obtain ⟨ran₂, freed₂⟩ := freed₁.free held small allocated (fun l left => left.1) (by decide : indirect.val < SLOTS)
      (fun left => left.2 rfl) (ref_addr indirect) (toNat_ne_zero.mpr empty)
    refine ⟨_, ?_, freed₂.congr ?_⟩
    · dsimp only [bind, Except.bind]
      rw [ran]
      dsimp only
      rw [ran₂, all (ip'.setAddr indirect 0) (setAddr_fields fields) (setAddr_self indirect)]
      intro a
      have ne : a.castSucc ≠ indirect := Fin.ne_of_lt (Fin.castSucc_lt_last a)
      rw [setAddr_of_ne ne, direct a]
    · intro l
      have low : indirect.val < SLOTS := by decide
      constructor
      · rintro (left | rfl)
        · exact left.1
        · exact low
      · intro slot
        by_cases eq : l = indirect.val
        · exact .inr eq
        · exact .inl ⟨slot, eq⟩

end Freed

/-- What `itrunc` leaves of an inode. -/
def Dinode.truncated (ip : Dinode) : Dinode := { ip with size := 0, addrs := fun _ => 0 }

theorem itrunc_ok (held : Blocks sb d table) (small : i < sb.ninodes) (allocated : (table i).type ≠ 0) :
    ∃ d', sb.itrunc d i (table i) = .ok (sb.putDinode d' i (table i).truncated, (table i).truncated) ∧
      Freed sb d (table i) (· < SLOTS) d' := by
  obtain ⟨d₁, ip₁, ran₁, freed₁, fields, same, direct⟩ := Freed.of_direct held small allocated
  obtain ⟨d₂, ran₂, freed₂⟩ := Freed.of_indirect held small allocated freed₁ fields same direct
  refine ⟨d₂, ?_, freed₂⟩
  unfold Superblock.itrunc
  dsimp only [bind, Except.bind]
  rw [ran₁]
  dsimp only
  rw [ran₂]
  rfl

theorem ref_empty (none : ip.addrs = fun _ => 0) (l : Nat) : ref d ip l = 0 := by
  rcases slot_cases l with ⟨a, rfl⟩ | ⟨j, rfl⟩
  · rw [ref_addr, none]
    rfl
  · exact ref_entry_none (by rw [none]) j

theorem filled_empty (none : ip.size = 0) : Filled d ip := by
  constructor
  · rw [none]
    exact Nat.zero_le _
  · intro k low
    rw [none] at low
    exact absurd low (Nat.not_lt_zero k)

namespace Changed

theorem trans {d'' : Disk} {ip'' : Dinode} (first : Changed sb d i ip' d') (second : Changed sb d' i ip'' d'') :
    Changed sb d i ip'' d'' where
  blocks := second.blocks
  self := second.self
  dinodes j low ne := (second.dinodes j low ne).trans (first.dinodes j low ne)
  keeps j low ne allocated := by
    have later := second.keeps j low ne
    rw [first.dinodes j low ne] at later
    exact (first.keeps j low ne allocated).trans (later allocated)

theorem of_empty (held : Blocks sb d (sb.dinode d)) (small : i < sb.ninodes)
    (before : (sb.dinode d i).type = 0 ∨ (sb.dinode d i).addrs = fun _ => 0) (after : ip'.addrs = fun _ => 0) :
    Changed sb d i ip' (sb.putDinode d i ip') := by
  have none : refs sb d (sb.dinode d) = fun x => if x.1 = i then none else refs sb d (sb.dinode d) x := by
    funext x
    obtain ⟨j, l⟩ := x
    by_cases here : j = i
    · subst here
      rw [if_pos rfl]
      unfold refs
      rw [if_neg]
      intro h
      rcases before with free | empty
      · exact h.2.1 free
      · exact h.2.2.2 (ref_empty empty l)
    · rw [if_neg here]
  have keeps : ∀ j, j < sb.ninodes → (sb.dinode d j).type ≠ 0 → Keeps d (sb.putDinode d i ip') (sb.dinode d j) :=
    fun j low allocated => .of_data held low allocated fun c inside => sb.data_put small inside _
  constructor
  · constructor
    · apply held.exact.congr
      · intro x
        obtain ⟨j, l⟩ := x
        rw [none]
        unfold refs
        dsimp only
        rw [sb.dinode_put]
        by_cases here : j = i
        · rw [if_pos here, if_pos here, if_neg]
          exact fun h => h.2.2.2 (ref_empty after l)
        · rw [if_neg here, if_neg here]
          by_cases inside : j < sb.ninodes ∧ (sb.dinode d j).type ≠ 0
          · rw [(keeps j inside.1 inside.2).ref]
          · rw [if_neg fun h => inside ⟨h.1, h.2.1⟩, if_neg fun h => inside ⟨h.1, h.2.1⟩]
      · intro c
        constructor
        · exact fun h => ⟨h.1, by rw [← sb.used_put small h.1.2]; exact h.2⟩
        · exact fun h => ⟨h.1, by rw [sb.used_put small h.1.2]; exact h.2⟩
    · intro c low
      have fits := sb.bitmap_fits
      have inside : c < sb.size := by
        unfold Superblock.datastart at low
        omega
      rw [sb.used_put small inside]
      exact held.reserved c low
  · rw [sb.dinode_put, if_pos rfl]
  · intro j low ne
    rw [sb.dinode_put, if_neg ne]
  · exact fun j low _ allocated => keeps j low allocated

theorem of_itrunc (held : Blocks sb d (sb.dinode d)) (small : i < sb.ninodes) (allocated : (sb.dinode d i).type ≠ 0) :
    ∃ d', sb.itrunc d i (sb.dinode d i) = .ok (d', (sb.dinode d i).truncated) ∧
      Changed sb d i (sb.dinode d i).truncated d' := by
  obtain ⟨d', ran, freed⟩ := itrunc_ok held small allocated
  refine ⟨_, ran, ?_⟩
  have data : ∀ c, sb.DataBlock c → sb.putDinode d' i (sb.dinode d i).truncated c = d c := by
    intro c inside
    rw [sb.data_put small inside, freed.data c inside]
  have row : sb.dinode (sb.putDinode d' i (sb.dinode d i).truncated) i = (sb.dinode d i).truncated := by
    rw [sb.dinode_put, if_pos rfl]
  constructor
  · have blocks := freed.blocks (sb.dinode (sb.putDinode d' i (sb.dinode d i).truncated)) held small allocated
    rw [row] at blocks
    apply blocks
    · intro j low ne
      rw [sb.dinode_put, if_neg ne]
      exact freed.dinodes j low
    · exact ref_empty rfl
  · exact row
  · intro j low ne
    rw [sb.dinode_put, if_neg ne]
    exact freed.dinodes j low
  · exact fun j low _ allocated => .of_data held low allocated data

end Changed

end Xv6.Fs
