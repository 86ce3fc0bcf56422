import Xv6.Image.Append

namespace Xv6.Fs.Mkfs

open Function Bytes

variable {d d' : Disk} {ip ip' : Dinode} {i j k n : Nat} {type : Short} {bytes chunk : Chars} {s s' : Image}
  {file : Nat → Option (Short × Chars)}

/-- The inode holds the bytes, and nothing else. -/
structure Holds (d : Disk) (ip : Dinode) (type : Short) (bytes : Chars) : Prop where
  type : ip.type = type
  size : ip.size.toNat = bytes.length
  bound : bytes.length ≤ MAXFILE * BSIZE
  dense : ∀ k, k < bytes.length → addr d ip (k / BSIZE) ≠ 0
  content : ∀ k, k < bytes.length → byte d ip k = buffer bytes k
  none : ∀ m, m < MAXFILE → bytes.length ≤ m * BSIZE → addr d ip m = 0
  tail : ∀ k, k < MAXFILE * BSIZE → bytes.length ≤ k → addr d ip (k / BSIZE) ≠ 0 → byte d ip k = 0

namespace Holds

theorem filled (holds : Holds d ip type bytes) : Filled d ip where
  bound := by
    rw [holds.size]
    exact holds.bound
  dense k low := by
    rw [holds.size] at low
    exact holds.dense k low

theorem keeps (holds : Holds d ip type bytes) (keeps : Keeps d d' ip) : Holds d' ip type bytes where
  type := holds.type
  size := holds.size
  bound := holds.bound
  dense k low := by
    rw [keeps.addr]
    exact holds.dense k low
  content k low := by
    rw [keeps.byte (Nat.lt_of_lt_of_le low holds.bound) (holds.dense k low)]
    exact holds.content k low
  none m low above := by
    rw [keeps.addr]
    exact holds.none m low above
  tail k inside above present := by
    rw [keeps.addr] at present
    rw [keeps.byte inside present]
    exact holds.tail k inside above present

theorem empty (d : Disk) {ip : Dinode} (size : ip.size = 0) (addrs : ip.addrs = fun _ => 0) : Holds d ip ip.type [] := by
  have none : ∀ m, addr d ip m = 0 := by
    intro m
    unfold addr
    rcases slot_cases (blockSlot m) with ⟨a, eq⟩ | ⟨e, eq⟩
    · rw [eq, ref_addr, addrs]
      rfl
    · rw [eq, ref_entry_none (by rw [addrs])]
  constructor
  · rfl
  · rw [size]
    rfl
  · exact Nat.zero_le _
  · exact fun k low => absurd low (Nat.not_lt_zero k)
  · exact fun k low => absurd low (Nat.not_lt_zero k)
  · exact fun m _ _ => none m
  · exact fun k _ _ present => absurd (none _) present

theorem buffer_append_left (low : k < bytes.length) : buffer (bytes ++ chunk) k = buffer bytes k := by
  unfold buffer
  rw [List.getD_eq_getElem?_getD, List.getElem?_append_left low, List.getD_eq_getElem?_getD]

theorem buffer_append_right (k : Nat) : buffer (bytes ++ chunk) (bytes.length + k) = buffer chunk k := by
  unfold buffer
  rw [List.getD_eq_getElem?_getD, List.getElem?_append_right (Nat.le_add_right ..), Nat.add_sub_cancel_left,
    List.getD_eq_getElem?_getD]

theorem append {table : Nat → Dinode} (holds : Holds d (table i) type bytes) {size : Uint}
    (total : size.toNat = bytes.length + chunk.length) (bound : bytes.length + chunk.length ≤ MAXFILE * BSIZE)
    (wrote : Wrote sb d table i bytes.length (bytes.length + chunk.length) (buffer (bytes ++ chunk)) d' ip') :
    Holds d' { ip' with size := size } type (bytes ++ chunk) where
  type := by
    show ip'.type = type
    rw [wrote.fields]
    exact holds.type
  size := by
    rw [List.length_append]
    exact total
  bound := by
    rw [List.length_append]
    exact bound
  dense k low := by
    rw [List.length_append] at low
    show addr d' ip' (k / BSIZE) ≠ 0
    by_cases early : k < bytes.length
    · have here := holds.dense k early
      rw [wrote.mapped _ (block_lt (by omega)) here]
      exact here
    · exact wrote.present k (by omega) low
  content k low := by
    rw [List.length_append] at low
    show byte d' ip' k = _
    by_cases early : k < bytes.length
    · rw [wrote.outside k (by omega) (.inl early) (holds.dense k early), holds.content k early, buffer_append_left early]
    · exact wrote.bytes k (by omega) low
  none m low above := by
    rw [List.length_append] at above
    by_contra present
    have before := holds.none m low (by omega)
    obtain ⟨k, _, high, eq⟩ := wrote.fresh m low before present
    have := Nat.div_mul_le_self k BSIZE
    rw [eq] at this
    omega
  tail k inside above present := by
    rw [List.length_append] at above
    show byte d' ip' k = 0
    by_cases before : addr d (table i) (k / BSIZE) = 0
    · exact wrote.zero k inside (.inr above) before present
    · rw [wrote.outside k inside (.inr above) before]
      exact holds.tail k inside (by omega) before

end Holds

/-- The blocks are as the counter says, and each inode holds what it should. -/
structure Built (s : Image) (file : Nat → Option (Short × Chars)) : Prop where
  fresh : Fresh s.disk s.freeblock
  blocks : Blocks sb (balloc s.disk s.freeblock) (sb.dinode (balloc s.disk s.freeblock))
  free : ∀ i, i < sb.ninodes → file i = none → (sb.dinode (balloc s.disk s.freeblock) i).type = 0
  files : ∀ i, i < sb.ninodes → ∀ type bytes, file i = some (type, bytes) →
    type ≠ 0 ∧ Holds (balloc s.disk s.freeblock) (sb.dinode (balloc s.disk s.freeblock) i) type bytes

namespace Built

theorem change (built : Built s file) (small : i < sb.ninodes) {fb : Nat} (fresh : Fresh d fb)
    (changed : Changed sb (balloc s.disk s.freeblock) i ip (balloc d fb)) (nonzero : type ≠ 0)
    (holds : Holds (balloc d fb) ip type bytes) (freeinode : Nat) :
    Built ⟨d, freeinode, fb⟩ (update file i (some (type, bytes))) where
  fresh := fresh
  blocks := changed.blocks
  free j low none := by
    by_cases here : j = i
    · subst here
      rw [update_self] at none
      cases none
    · rw [update_of_ne here] at none
      show (sb.dinode (balloc d fb) j).type = 0
      rw [changed.dinodes j low here]
      exact built.free j low none
  files j low type' bytes' at_j := by
    show type' ≠ 0 ∧ Holds (balloc d fb) (sb.dinode (balloc d fb) j) type' bytes'
    by_cases here : j = i
    · subst here
      rw [update_self] at at_j
      cases at_j
      rw [changed.self]
      exact ⟨nonzero, holds⟩
    · rw [update_of_ne here] at at_j
      obtain ⟨nonzero', holds'⟩ := built.files j low type' bytes' at_j
      rw [changed.dinodes j low here]
      exact ⟨nonzero', holds'.keeps (changed.keeps j low here (by rw [holds'.type]; exact nonzero'))⟩

theorem ialloc (built : Built s file) (small : s.freeinode < sb.ninodes) (unused : file s.freeinode = none)
    (nonzero : type ≠ 0) {inum : Nat} (ran : ialloc s type = .ok (inum, s')) :
    inum = s.freeinode ∧ s'.freeinode = s.freeinode + 1 ∧ Built s' (update file s.freeinode (some (type, []))) := by
  unfold Mkfs.ialloc winode at ran
  cases read : rsect (sb.iblock s.freeinode) with
  | error e =>
    rw [read] at ran
    cases ran
  | ok u =>
    rw [read] at ran
    cases ran
    have changed : Changed sb (balloc s.disk s.freeblock) s.freeinode ⟨type, 0, 0, 1, 0, fun _ => 0⟩ _ :=
      .of_empty built.blocks small (.inl (built.free _ small unused)) rfl
    rw [putDinode_balloc small] at changed
    have fresh : Fresh (sb.putDinode s.disk s.freeinode ⟨type, 0, 0, 1, 0, fun _ => 0⟩) s.freeblock := by
      apply built.fresh.write
      have low := (sb.iblock_bounds small).2
      have start := built.fresh.start
      have order : sb.bmapstart < sb.datastart := by decide
      omega
    exact ⟨rfl, rfl, built.change small fresh changed nonzero (.empty _ rfl rfl) _⟩

theorem iappend (built : Built s file) (small : i < sb.ninodes) (here : file i = some (type, bytes)) {p : Nat → UInt8}
    (chunk : Chars) (nonempty : chunk ≠ []) (source : ∀ k, k < chunk.length → p k = buffer chunk k)
    (ran : iappend s i p chunk.length = .ok s') :
    s'.freeinode = s.freeinode ∧ Built s' (update file i (some (type, bytes ++ chunk))) := by
  obtain ⟨nonzero, holds⟩ := built.files i small type bytes here
  have allocated : (sb.dinode (balloc s.disk s.freeblock) i).type ≠ 0 := by
    rw [holds.type]
    exact nonzero
  have positive : 0 < chunk.length := List.length_pos_iff.mpr nonempty
  unfold Mkfs.iappend rinode winode at ran
  cases read : rsect (sb.iblock i) with
  | error e =>
    rw [read] at ran
    cases ran
  | ok u =>
    rw [read] at ran
    dsimp only [bind, Except.bind] at ran
    have same : sb.dinode s.disk i = sb.dinode (balloc s.disk s.freeblock) i := (dinode_balloc small).symm
    rw [same, holds.size] at ran
    cases appended : appendLoop chunk.length s.disk s.freeblock (sb.dinode (balloc s.disk s.freeblock) i) bytes.length
        chunk.length p with
    | error e =>
      rw [appended] at ran
      cases ran
    | ok r =>
      obtain ⟨d₁, fb₁, din₁⟩ := r
      rw [appended] at ran
      cases ran
      obtain ⟨bound, wrote, fresh, _⟩ := wrote_of_appendLoop chunk.length bytes.length chunk.length p
        (buffer (bytes ++ chunk)) built.fresh built.blocks small allocated (Nat.le_refl _)
        (fun k low => by rw [source k low, Holds.buffer_append_right]) appended
      have bound := bound.resolve_left positive.ne'
      have size : din₁.size.toNat = bytes.length := by
        rw [wrote.fields]
        exact holds.size
      have total : (BitVec.ofNat 32 (din₁.size.toNat + chunk.length)).toNat = bytes.length + chunk.length := by
        rw [size, BitVec.toNat_ofNat]
        exact Nat.mod_eq_of_lt (Nat.lt_of_le_of_lt bound (by decide))
      have type' : din₁.type = (sb.dinode (balloc s.disk s.freeblock) i).type := by rw [wrote.fields]
      obtain ⟨din₂, grown⟩ : ∃ din₂, din₂ = { din₁ with size := BitVec.ofNat 32 (din₁.size.toNat + chunk.length) } := ⟨_, rfl⟩
      obtain ⟨changed, keeps⟩ := Changed.of_wrote built.blocks small allocated wrote
        (show din₂.addrs = din₁.addrs by rw [grown]) (show din₂.type = _ by rw [grown]; exact type')
      have after : Holds (sb.putDinode (balloc d₁ fb₁) i din₂) din₂ type (bytes ++ chunk) := by
        have appended := holds.append total bound wrote
        rw [← grown] at appended
        apply appended.keeps
        subst grown
        exact ⟨keeps.entries, keeps.data⟩
      rw [putDinode_balloc small] at changed after
      rw [← grown]
      have low := (sb.iblock_bounds small).2
      have order : sb.bmapstart < sb.datastart := by decide
      have start := fresh.start
      exact ⟨rfl, built.change small (fresh.write (by omega) _) changed nonzero after _⟩

end Built

end Xv6.Fs.Mkfs
