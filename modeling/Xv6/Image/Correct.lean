import Xv6.Image.Finish
import Xv6.Fs.Directory

namespace Xv6.Fs.Mkfs

open Function Bytes Outcome

variable {devsw : Devsw} {s : Image} {files : List Input} {j : Nat} {name : Chars}

/-- The kernel reads a whole file of the root directory. -/
def readFile (devsw : Devsw) (name : Chars) : Op (Option (Int × Chars)) := do
  let dp ← iget ROOTINO
  ilock sb dp
  match ← dirlookup sb devsw dp name with
  | none => return none
  | some (ip, _) =>
    iunlock dp
    ilock sb ip
    return some (← readi sb devsw ip 0 ((← get).inode ip).dinode.size)

/-- The kernel has just started, with nothing in its inode cache. -/
def mounted (d : Disk) : State := ⟨d, fun _ => ⟨0, 0, none, false, noDinode⟩⟩

/-- The image is what it should be: no inode has a hole, the numbers of blocks are distinct and those of data blocks marked
in the free map, and the kernel reads each file without allocating a block. -/
structure Correct (s : Image) (files : List Input) : Prop where
  inums : s.freeinode ≤ sb.ninodes
  dense : ∀ inum, inum < sb.ninodes → (sb.dinode s.disk inum).type ≠ 0 →
    ∀ bn, bn < ((sb.dinode s.disk inum).size.toNat + BSIZE - 1) / BSIZE → addr s.disk (sb.dinode s.disk inum) bn ≠ 0
  placed : ∀ x b, refs sb s.disk (sb.dinode s.disk) x = some b → sb.datastart ≤ b ∧ b < sb.size ∧ sb.used s.disk b = true
  distinct : ∀ x y b, refs sb s.disk (sb.dinode s.disk) x = some b → refs sb s.disk (sb.dinode s.disk) y = some b → x = y
  reads : ∀ devsw, ∀ file ∈ files, ∃ s', readFile devsw file.target (mounted s.disk) =
    .ok (some (file.bytes.length, file.bytes), s') ∧ s'.disk = s.disk

/-- The inputs that `mkfs` copes with: few enough files, no root directory that fills its last block, and no file that is
hidden by one of the two entries every directory has. -/
structure Good (files : List Input) : Prop where
  few : files.length ≤ 198
  loose : (files.length + 2) % 32 ≠ 0
  visible : ∀ file ∈ files, file.target = dot ∨ file.target = dotdot → file.bytes = rootBytes files

theorem entries_length (files : List Input) : (entries files).length = files.length + 2 := by
  unfold entries
  rw [List.length_cons, List.length_cons, List.length_mapIdx]

theorem buffer_entries (l : List Dirent) (low : j < l.length) {i : Nat} (inside : i < 16) :
    buffer (l.flatMap entryBytes) (16 * j + i) = l[j].bytes i := by
  induction l generalizing j with
  | nil => exact absurd low (Nat.not_lt_zero j)
  | cons de l ih =>
    rw [List.flatMap_cons]
    cases j with
    | zero =>
      rw [Nat.mul_zero, Nat.zero_add, Holds.buffer_append_left (by rw [entryBytes_length]; exact inside)]
      exact (entryBytes_get de (by rw [entryBytes_length]; exact inside)).symm
    | succ j =>
      have shift : 16 * (j + 1) + i = (entryBytes de).length + (16 * j + i) := by
        rw [entryBytes_length]
        omega
      rw [shift, Holds.buffer_append_right, ih (Nat.lt_of_succ_lt_succ low), List.getElem_cons_succ]

theorem directory_length (files : List Input) : (directory files).length = 16 * (files.length + 2) := by
  have flat : ∀ l : List Dirent, (l.flatMap entryBytes).length = 16 * l.length := by
    intro l
    induction l with
    | nil => rfl
    | cons de l ih =>
      rw [List.flatMap_cons, List.length_append, entryBytes_length, ih, List.length_cons]
      omega
  unfold directory
  rw [flat, entries_length]

theorem rootBytes_length (files : List Input) : (rootBytes files).length = 16 * (32 * ((files.length + 2) / 32 + 1)) := by
  unfold rootBytes
  rw [List.length_append, List.length_replicate, directory_length]
  unfold BSIZE
  omega

theorem target_string (file : Input) : 0 ∉ file.target := by
  intro member
  have member := List.mem_of_mem_take member
  split_ifs at member
  · exact file.string (List.mem_of_mem_tail member)
  · exact file.string member

theorem target_short (file : Input) : file.target.length ≤ DIRSIZ := by
  unfold Input.target
  rw [List.length_take]
  exact Nat.min_le_left ..

theorem entries_two (files : List Input) {i : Nat} (low : i < files.length) :
    (entries files)[i + 2]? = some ⟨BitVec.ofNat 16 (i + 2), files[i].target⟩ := by
  unfold entries
  rw [List.getElem?_cons_succ, List.getElem?_cons_succ, List.getElem?_mapIdx, List.getElem?_eq_getElem low]
  rfl

theorem entries_names {de : Dirent} (member : de ∈ entries files) : 0 ∉ de.name ∧ de.name.length ≤ DIRSIZ := by
  unfold entries at member
  rcases List.mem_cons.mp member with rfl | member
  · exact ⟨by decide, by decide⟩
  rcases List.mem_cons.mp member with rfl | member
  · exact ⟨by decide, by decide⟩
  obtain ⟨i, low, rfl⟩ := List.mem_mapIdx.mp member
  exact ⟨target_string _, target_short _⟩

def final (files : List Input) (inum : Nat) : Option (Short × Chars) :=
  if inum = ROOTINO then some (T_DIR, rootBytes files) else contents files inum

/-- The image of good inputs, apart from names that are taken. -/
structure Ready (s : Image) (files : List Input) : Prop where
  few : files.length + 1 < sb.ninodes
  blocks : Blocks sb s.disk (sb.dinode s.disk)
  free : ∀ i, i < sb.ninodes → final files i = none → (sb.dinode s.disk i).type = 0
  holds : ∀ i, i < sb.ninodes → ∀ type bytes, final files i = some (type, bytes) →
    type ≠ 0 ∧ type ≠ T_DEV ∧ Holds s.disk (sb.dinode s.disk i) type bytes

theorem final_cases {i : Nat} {type : Short} {bytes : Chars} (here : final files i = some (type, bytes)) :
    i = ROOTINO ∧ type = T_DIR ∧ bytes = rootBytes files ∨
      ∃ j, ∃ low : j < files.length, i = j + 2 ∧ type = T_FILE ∧ bytes = files[j].bytes := by
  unfold final at here
  by_cases root : i = ROOTINO
  · rw [if_pos root] at here
    cases here
    exact .inl ⟨root, rfl, rfl⟩
  · rw [if_neg root] at here
    match i with
    | 0 => cases here
    | 1 => exact absurd rfl root
    | j + 2 =>
      rw [contents_file] at here
      obtain ⟨file, found, eq⟩ := Option.map_eq_some_iff.mp here
      obtain ⟨low, rfl⟩ := List.getElem?_eq_some_iff.mp found
      cases eq
      exact .inr ⟨j, low, rfl, rfl, rfl⟩

/-- The size of the root directory is rounded up to the blocks it has, unless it fills them. -/
theorem Finished.ready (finished : Finished s files) (few : files.length + 1 < sb.ninodes)
    (hole : (files.length + 2) % 32 ≠ 0) : Ready s files where
  few := few
  blocks := finished.blocks
  free i small none := by
    apply finished.free i small
    unfold final at none
    split_ifs at none
    exact none
  holds i small type bytes here := by
    rcases final_cases here with ⟨rfl, rfl, rfl⟩ | ⟨j, low, rfl, rfl, rfl⟩
    · obtain ⟨ip, holds, fixed⟩ := finished.root
      have length := directory_length files
      have total := rootBytes_length files
      have most : files.length < 199 := by
        have : sb.ninodes = 200 := rfl
        omega
      have present : ∀ k, k < (rootBytes files).length → addr s.disk ip (k / BSIZE) ≠ 0 := by
        intro k low
        by_cases early : k < (directory files).length
        · exact holds.dense k early
        · have last := holds.dense ((directory files).length - 1) (by omega)
          have same : k / BSIZE = ((directory files).length - 1) / BSIZE := by
            unfold BSIZE
            omega
          rw [same]
          exact last
      refine ⟨by decide, by decide, ?_⟩
      rw [fixed]
      constructor
      · exact holds.type
      · show (BitVec.ofNat 32 _).toNat = _
        rw [BitVec.toNat_ofNat, length, total]
        unfold BSIZE
        omega
      · rw [total]
        unfold MAXFILE NDIRECT NINDIRECT BSIZE
        omega
      · exact present
      · intro k low
        show byte s.disk ip k = _
        by_cases early : k < (directory files).length
        · rw [holds.content k early]
          exact (Holds.buffer_append_left early).symm
        · have inside : k < MAXFILE * BSIZE := by
            unfold MAXFILE NDIRECT NINDIRECT BSIZE
            omega
          rw [holds.tail k inside (Nat.le_of_not_lt early) (present k low)]
          obtain ⟨m, rfl⟩ := Nat.exists_eq_add_of_le (Nat.le_of_not_lt early)
          unfold rootBytes
          rw [Holds.buffer_append_right]
          unfold buffer
          rw [List.getD_eq_getElem?_getD]
          by_cases inside' : m < BSIZE - (directory files).length % BSIZE
          · rw [List.getElem?_replicate_of_lt inside']
            rfl
          · rw [List.getElem?_eq_none (by rw [List.length_replicate]; omega)]
            rfl
      · intro m low above
        apply holds.none m low
        omega
      · intro k inside above present'
        apply holds.tail k inside _ present'
        omega
    · refine ⟨by decide, by decide, finished.files (j + 2) small _ ?_⟩
      rw [contents_file, List.getElem?_eq_getElem low]
      rfl

namespace Ready

theorem sound (ready : Ready s files) : Sound sb (mounted s.disk) where
  blocks := ready.blocks
  filled i small allocated := by
    cases here : final files i with
    | none => exact absurd (ready.free i small here) allocated
    | some r => exact (ready.holds i small r.1 r.2 here).2.2.filled
  inside _ live := absurd live (Nat.lt_irrefl 0)
  copies _ live := absurd live (Nat.lt_irrefl 0)
  unique _ _ live := absurd live (Nat.lt_irrefl 0)

theorem root (ready : Ready s files) : Holds s.disk (sb.dinode s.disk ROOTINO) T_DIR (rootBytes files) :=
  (ready.holds ROOTINO (by decide) T_DIR (rootBytes files) (if_pos rfl)).2.2

theorem entry_eq (ready : Ready s files) (low : j < (entries files).length) :
    entry s.disk (sb.dinode s.disk ROOTINO) j = (entries files)[j] := by
  obtain ⟨string, short⟩ := entries_names (List.getElem_mem low)
  apply Dirent.ofBytes_bytes _ string short
  intro i inside
  have here : 16 * j + i < (directory files).length := by
    rw [directory_length]
    rw [entries_length] at low
    omega
  have total : (directory files).length ≤ (rootBytes files).length := by
    rw [directory_length, rootBytes_length]
    omega
  rw [getD_map_range inside, ready.root.content _ (by omega)]
  exact (Holds.buffer_append_left here).trans (buffer_entries _ low inside)

theorem entry_unused (ready : Ready s files) (above : (entries files).length ≤ j)
    (low : j < 32 * ((files.length + 2) / 32 + 1)) : (entry s.disk (sb.dinode s.disk ROOTINO) j).inum = 0 := by
  have zero : ∀ i, i < 16 → byte s.disk (sb.dinode s.disk ROOTINO) (16 * j + i) = 0 := by
    intro i inside
    rw [entries_length] at above
    have total := rootBytes_length files
    have length := directory_length files
    rw [ready.root.content _ (by omega)]
    obtain ⟨m, eq⟩ := Nat.exists_eq_add_of_le (show (directory files).length ≤ 16 * j + i by omega)
    rw [eq]
    unfold rootBytes
    rw [Holds.buffer_append_right]
    unfold buffer
    rw [List.getD_eq_getElem?_getD]
    by_cases inside' : m < BSIZE - (directory files).length % BSIZE
    · rw [List.getElem?_replicate_of_lt inside']
      rfl
    · rw [List.getElem?_eq_none (by rw [List.length_replicate]; omega)]
      rfl
  have number : load 2 (fun i => ((List.range 16).map fun i => byte s.disk (sb.dinode s.disk ROOTINO) (16 * j + i)).getD i 0) 0 =
      load 2 (fun _ => 0) 0 := by
    apply load_congr
    intro i _ high
    rw [getD_map_range (by omega), zero i (by omega)]
  show BitVec.ofNat 16 _ = 0
  rw [number]
  rfl

theorem entry_inum (ready : Ready s files) (low : j < (entries files).length) :
    (entries files)[j].inum ≠ 0 ∧ (entries files)[j].inum.toNat < sb.ninodes ∧
      ∃ type bytes, final files (entries files)[j].inum.toNat = some (type, bytes) := by
  have few := ready.few
  have nodes : sb.ninodes = 200 := rfl
  rw [entries_length] at low
  match j with
  | 0 => exact ⟨by show (1 : Short) ≠ 0; decide, by show (1 : Short).toNat < 200; decide, _, _, if_pos rfl⟩
  | 1 => exact ⟨by show (1 : Short) ≠ 0; decide, by show (1 : Short).toNat < 200; decide, _, _, if_pos rfl⟩
  | i + 2 =>
    have inside : i < files.length := by omega
    have eq := entries_two files inside
    rw [List.getElem?_eq_getElem (by rw [entries_length]; omega), Option.some.injEq] at eq
    rw [eq]
    have number : (BitVec.ofNat 16 (i + 2)).toNat = i + 2 := by
      rw [BitVec.toNat_ofNat]
      exact Nat.mod_eq_of_lt (by omega)
    refine ⟨?_, ?_, T_FILE, files[i].bytes, ?_⟩
    · intro zero
      have zero := congrArg BitVec.toNat zero
      dsimp only at zero
      rw [number] at zero
      cases zero
    · dsimp only
      omega
    · dsimp only
      rw [number]
      unfold final
      rw [if_neg (by unfold ROOTINO; omega), contents_file, List.getElem?_eq_getElem inside]
      rfl

theorem read_inode (ready : Ready s files) {t : State} (sound : Sound sb t) (disk : t.disk = s.disk) {ip : Fin NINODE}
    (live : 0 < (t.inode ip).ref) (unlocked : (t.inode ip).locked = false) (small : (t.inode ip).inum < sb.ninodes)
    {type : Short} {bytes : Chars} (here : final files (t.inode ip).inum = some (type, bytes)) {stop : String → Prop} :
    Ends (do
      ilock sb ip
      return some (← readi sb devsw ip 0 ((← get).inode ip).dinode.size)) t
      (fun r t' => r = some ((bytes.length : Int), bytes) ∧ t'.disk = s.disk) stop := by
  obtain ⟨nonzero, regular, holds⟩ := ready.holds _ small type bytes here
  rw [← disk] at holds
  have allocated : (sb.dinode t.disk (t.inode ip).inum).type ≠ 0 := by
    rw [holds.type]
    exact nonzero
  rw [ends_bind]
  apply ends_ilock sound live
  · intro locked
    rw [unlocked] at locked
    cases locked
  · exact fun free => absurd free allocated
  · intro _ _
    have sound' := sound.lock allocated
    have bound := holds.bound
    have limit : MAXFILE * BSIZE < 2 ^ 32 := by decide
    rw [ends_bind, ends_get, ends_bind]
    apply ends_readi sound'
    · rw [State.setInode_self]
      exact live
    · rw [State.setInode_self]
    · rw [State.setInode_self]
      show (sb.dinode t.disk _).type ≠ T_DEV
      rw [holds.type]
      exact regular
    · intro refused
      apply absurd _ refused
      rw [State.setInode_self]
      show Readable (sb.dinode t.disk _).size.toNat (0 : Uint).toNat (sb.dinode t.disk _).size.toNat
      rw [holds.size]
      constructor
      · exact Nat.zero_le _
      · show 0 + _ < _
        omega
    · intro _
      rw [State.setInode_self]
      dsimp only
      rw [holds.size]
      have count : min bytes.length (bytes.length - (0 : Uint).toNat) = bytes.length := Nat.min_self _
      rw [count]
      constructor
      · have same : (List.range bytes.length).map (fun j => byte t.disk (sb.dinode t.disk (t.inode ip).inum) ((0 : Uint).toNat + j)) =
            bytes := by
          apply List.ext_getElem
          · rw [List.length_map, List.length_range]
          · intro i low low'
            rw [List.getElem_map, List.getElem_range]
            show byte _ _ (0 + i) = _
            rw [Nat.zero_add, holds.content i low']
            unfold buffer
            rw [List.getD_eq_getElem?_getD, List.getElem?_eq_getElem low', Option.getD_some]
        exact congrArg some (Prod.ext rfl same)
      · exact disk

theorem read_entry (ready : Ready s files) {t : State} (sound : Sound sb t) (disk : t.disk = s.disk) {dp : Fin NINODE}
    (live : 0 < (t.inode dp).ref) (locked : (t.inode dp).locked = true)
    (rest : ∀ l, l ≠ dp → (t.inode l).ref = 0 ∧ (t.inode l).locked = false) {inum : Nat} (small : inum < sb.ninodes)
    {type : Short} {bytes : Chars} (here : final files inum = some (type, bytes)) {stop : String → Prop} :
    Ends (iget inum) t (fun ip t' => Ends (do
      iunlock dp
      ilock sb ip
      return some (← readi sb devsw ip 0 ((← get).inode ip).dinode.size)) t'
      (fun r t' => r = some ((bytes.length : Int), bytes) ∧ t'.disk = s.disk) stop) stop := by
  obtain ⟨l, ne⟩ : ∃ l, l ≠ dp := by
    by_cases zero : dp = ⟨0, by decide⟩
    · exact ⟨⟨1, by decide⟩, by rw [zero]; decide⟩
    · exact ⟨⟨0, by decide⟩, Ne.symm zero⟩
  apply ends_iget_room (rest l ne).1
  · intro k live' same
    have eq : k = dp := by
      by_contra other
      rw [(rest k other).1] at live'
      exact absurd live' (Nat.lt_irrefl 0)
    subst eq
    rw [ends_bind]
    apply ends_iunlock
    · rw [State.setInode_self]
      exact Nat.succ_pos _
    · rw [State.setInode_self]
      exact locked
    rw [State.setInode_self, State.setInode_setInode]
    apply ready.read_inode
    · exact sound.same_inode (fun _ => live') rfl id rfl
    · exact disk
    · rw [State.setInode_self]
      exact Nat.succ_pos _
    · rw [State.setInode_self]
      rfl
    · rw [State.setInode_self]
      exact same ▸ small
    · rw [State.setInode_self]
      exact same ▸ here
  · intro k free away
    have ne : k ≠ dp := by
      rintro rfl
      rw [free] at live
      exact absurd live (Nat.lt_irrefl 0)
    have sound' : Sound sb (t.setInode k { t.inode k with inum := inum, ref := 1, valid := false }) := by
      apply sound.set_inode
      · exact fun _ => small
      · intro _ valid
        cases valid
      · exact fun l _ _ live => away l live
    rw [ends_bind]
    apply ends_iunlock
    · rw [State.setInode_of_ne ne.symm]
      exact live
    · rw [State.setInode_of_ne ne.symm]
      exact locked
    have self : ∀ ip, ((t.setInode k { t.inode k with inum := inum, ref := 1, valid := false }).setInode dp ip).inode k =
        { t.inode k with inum := inum, ref := 1, valid := false } := by
      intro ip
      rw [State.setInode_of_ne ne, State.setInode_self]
    apply ready.read_inode
    · exact sound'.same_inode id rfl id rfl
    · exact disk
    · rw [self]
      exact Nat.one_pos
    · rw [self]
      exact (rest k ne).2
    · rw [self]
      exact small
    · rw [self]
      exact here

theorem readFile (ready : Ready s files) (low : j < (entries files).length) (same : (entries files)[j].name = name)
    (first : ∀ l, ∀ low' : l < (entries files).length, l < j → (entries files)[l].name ≠ name) {type : Short} {bytes : Chars}
    (here : final files (entries files)[j].inum.toNat = some (type, bytes)) {stop : String → Prop} :
    Ends (Mkfs.readFile devsw name) (mounted s.disk)
      (fun r t => r = some ((bytes.length : Int), bytes) ∧ t.disk = s.disk) stop := by
  obtain ⟨nonzero, small, _⟩ := ready.entry_inum low
  unfold Mkfs.readFile
  rw [ends_bind]
  apply ends_iget_room (l := ⟨0, by decide⟩) rfl
  · intro k live
    exact absurd live (Nat.lt_irrefl 0)
  intro dp _ _
  have directory := ready.root
  have sound : Sound sb ((mounted s.disk).setInode dp { (mounted s.disk).inode dp with inum := ROOTINO, ref := 1, valid := false }) := by
    apply ready.sound.set_inode
    · exact fun _ => show ROOTINO < sb.ninodes by decide
    · intro _ valid
      cases valid
    · intro l _ _ live
      exact absurd live (Nat.lt_irrefl 0)
  have allocated : (sb.dinode s.disk ROOTINO).type ≠ 0 := by
    rw [directory.type]
    decide
  rw [ends_bind]
  apply ends_ilock sound
  · rw [State.setInode_self]
    exact Nat.one_pos
  · intro locked
    rw [State.setInode_self] at locked
    cases locked
  · intro free
    rw [State.setInode_self] at free
    exact absurd free allocated
  intro _ allocated'
  have sound' := sound.lock allocated'
  simp only [State.setInode_self, State.setInode_setInode, State.setInode_disk] at sound' ⊢
  obtain ⟨string, short⟩ : 0 ∉ name ∧ name.length ≤ DIRSIZ := same ▸ entries_names (List.getElem_mem low)
  have whole : name.take DIRSIZ = name := List.take_of_length_le short
  rw [ends_bind]
  apply ends_dirlookup (n := 32 * ((files.length + 2) / 32 + 1)) string sound'
  · rw [State.setInode_self]
    exact Nat.one_pos
  · rw [State.setInode_self]
  · rw [State.setInode_self]
    exact directory.type
  · rw [State.setInode_self]
    show (sb.dinode s.disk ROOTINO).size.toNat = _
    rw [directory.size, rootBytes_length]
  · intro i inside used named before
    have inner : i < (entries files).length := by
      by_contra above
      rw [State.setInode_self] at used
      exact used (ready.entry_unused (Nat.le_of_not_lt above) inside)
    have eq : i = j := by
      rw [State.setInode_self, whole] at named
      rw [State.setInode_self, whole] at before
      apply Nat.le_antisymm
      · by_contra later
        apply before j (Nat.lt_of_not_le later)
        · show (entry s.disk (sb.dinode s.disk ROOTINO) j).inum ≠ 0
          rw [ready.entry_eq low]
          exact nonzero
        · show (entry s.disk (sb.dinode s.disk ROOTINO) j).name = name
          rw [ready.entry_eq low]
          exact same
      · by_contra earlier
        apply first i inner (Nat.lt_of_not_le earlier)
        rw [← ready.entry_eq inner]
        exact named
    subst eq
    rw [State.setInode_self]
    show Ends (iget (entry s.disk (sb.dinode s.disk ROOTINO) i).inum.toNat) _ _ _
    rw [ready.entry_eq low]
    apply ready.read_entry sound' rfl
    · rw [State.setInode_self]
      exact Nat.one_pos
    · rw [State.setInode_self]
      rfl
    · intro l ne
      rw [State.setInode_of_ne ne]
      exact ⟨rfl, rfl⟩
    · exact small
    · exact here
  · intro missing
    rw [State.setInode_self, whole] at missing
    have inside : j < 32 * ((files.length + 2) / 32 + 1) := by
      rw [entries_length] at low
      omega
    exfalso
    apply missing j inside
    · show (entry s.disk (sb.dinode s.disk ROOTINO) j).inum ≠ 0
      rw [ready.entry_eq low]
      exact nonzero
    · show (entry s.disk (sb.dinode s.disk ROOTINO) j).name = name
      rw [ready.entry_eq low]
      exact same

end Ready

theorem Finished.root_type (finished : Finished s files) : (sb.dinode s.disk ROOTINO).type = T_DIR := by
  obtain ⟨ip, holds, fixed⟩ := finished.root
  rw [fixed]
  exact holds.type

theorem Ready.dense (ready : Ready s files) {inum bn : Nat} (small : inum < sb.ninodes)
    (allocated : (sb.dinode s.disk inum).type ≠ 0)
    (low : bn < ((sb.dinode s.disk inum).size.toNat + BSIZE - 1) / BSIZE) : addr s.disk (sb.dinode s.disk inum) bn ≠ 0 := by
  have filled := (ready.sound.filled inum small allocated).dense (bn * BSIZE) (by
    show _ < (sb.dinode s.disk inum).size.toNat
    unfold BSIZE at *
    omega)
  rwa [Nat.mul_div_cancel bn (by decide)] at filled

theorem Ready.placed (ready : Ready s files) {x : Nat × Nat} {b : Nat} (at_x : refs sb s.disk (sb.dinode s.disk) x = some b) :
    sb.datastart ≤ b ∧ b < sb.size ∧ sb.used s.disk b = true := by
  obtain ⟨data, used⟩ := ready.blocks.exact.sound x b at_x
  exact ⟨data.1, data.2, used⟩

/-- A root directory that fills its blocks gets a size that is one block more. -/
theorem Finished.hole (finished : Finished s files) (few : files.length ≤ 198) (full : (files.length + 2) % 32 = 0) :
    (directory files).length / BSIZE < ((sb.dinode s.disk ROOTINO).size.toNat + BSIZE - 1) / BSIZE ∧
      addr s.disk (sb.dinode s.disk ROOTINO) ((directory files).length / BSIZE) = 0 := by
  obtain ⟨ip, holds, fixed⟩ := finished.root
  have length := directory_length files
  rw [fixed]
  constructor
  · show _ < ((BitVec.ofNat 32 _).toNat + _ - 1) / _
    rw [BitVec.toNat_ofNat, length]
    unfold BSIZE
    omega
  · show addr s.disk ip _ = 0
    apply holds.none
    · rw [length]
      unfold MAXFILE NDIRECT NINDIRECT BSIZE
      omega
    · rw [length]
      unfold BSIZE
      omega

theorem entries_file {i : Nat} (low : i < files.length) (low' : i + 2 < (entries files).length) :
    (entries files)[i + 2] = ⟨BitVec.ofNat 16 (i + 2), files[i].target⟩ := by
  have eq := entries_two files low
  rwa [List.getElem?_eq_getElem low', Option.some.injEq] at eq

/-- A file with the name of one of the two special entries reads as the root directory. -/
theorem Ready.readFile_special (ready : Ready s files) (devsw : Devsw) (special : name = dot ∨ name = dotdot) {stop : String → Prop} :
    Ends (Mkfs.readFile devsw name) (mounted s.disk)
      (fun r t => r = some (((rootBytes files).length : Int), rootBytes files) ∧ t.disk = s.disk) stop := by
  have length := entries_length files
  rcases special with rfl | rfl
  · apply ready.readFile (j := 0) (by omega) rfl
    · intro l _ low
      exact absurd low (Nat.not_lt_zero l)
    · exact if_pos rfl
  · apply ready.readFile (j := 1) (by omega) rfl
    · intro l _ low same
      obtain rfl : l = 0 := by omega
      exact absurd same (by show dot ≠ dotdot; decide)
    · exact if_pos rfl

theorem Ready.readFile_file (ready : Ready s files) (devsw : Devsw) (distinct : (files.map Input.target).Nodup) {i : Nat} (low : i < files.length)
    (visible : files[i].target ≠ dot ∧ files[i].target ≠ dotdot) {stop : String → Prop} :
    Ends (Mkfs.readFile devsw files[i].target) (mounted s.disk)
      (fun r t => r = some ((files[i].bytes.length : Int), files[i].bytes) ∧ t.disk = s.disk) stop := by
  have few := ready.few
  have nodes : sb.ninodes = 200 := rfl
  have low' : i + 2 < (entries files).length := by
    rw [entries_length]
    omega
  have eq := entries_file low low'
  apply ready.readFile (j := i + 2) low'
  · rw [eq]
  · intro l inside before same
    match l with
    | 0 => exact visible.1 same.symm
    | 1 => exact visible.2 same.symm
    | l + 2 =>
      have early : l < files.length := by omega
      rw [entries_file early] at same
      have inj := List.nodup_iff_injective_get.mp distinct
      have equal : (⟨l, by rw [List.length_map]; exact early⟩ : Fin (files.map Input.target).length) =
          ⟨i, by rw [List.length_map]; exact low⟩ := by
        apply inj
        rw [List.get_eq_getElem, List.get_eq_getElem, List.getElem_map, List.getElem_map]
        exact same
      have equal := Fin.mk.inj equal
      omega
  · have number : (BitVec.ofNat 16 (i + 2)).toNat = i + 2 := by
      rw [BitVec.toNat_ofNat]
      exact Nat.mod_eq_of_lt (by omega)
    rw [eq]
    dsimp only
    rw [number]
    unfold final
    rw [if_neg (by unfold ROOTINO; omega), contents_file, List.getElem?_eq_getElem low]
    rfl

theorem exists_of_ends {α : Type} {x : Op α} {t : State} {post : α → State → Prop} (ends : Ends x t post fun _ => False) :
    ∃ a t', x t = .ok (a, t') ∧ post a t' := by
  cases ran : x t with
  | ok r => exact ⟨r.1, r.2, rfl, ends.ok ran⟩
  | error e => exact (ends.error ran).elim

theorem Ready.readFile_iff (ready : Ready s files) (distinct : (files.map Input.target).Nodup) {i : Nat} (low : i < files.length) :
    (∃ t, Mkfs.readFile devsw files[i].target (mounted s.disk) = .ok (some (files[i].bytes.length, files[i].bytes), t) ∧
      t.disk = s.disk) ↔ (files[i].target = dot ∨ files[i].target = dotdot → files[i].bytes = rootBytes files) := by
  by_cases special : files[i].target = dot ∨ files[i].target = dotdot
  · obtain ⟨_, t, ran, rfl, same⟩ := exists_of_ends (ready.readFile_special devsw special)
    rw [ran]
    constructor
    · rintro ⟨_, eq, _⟩ _
      have eq := congrArg (Except.map Prod.fst) eq
      dsimp only [Except.map] at eq
      injection eq with eq
      injection eq with eq
      exact (congrArg Prod.snd eq).symm
    · intro eq
      rw [eq special]
      exact ⟨t, rfl, same⟩
  · obtain ⟨_, t, ran, rfl, same⟩ := exists_of_ends (ready.readFile_file devsw distinct low (not_or.mp special))
    exact ⟨fun _ => fun bad => absurd bad special, fun _ => ⟨t, ran, same⟩⟩

/-- `mkfs` builds a correct image exactly for good inputs. -/
theorem mkfs_correct_iff (distinct : (files.map Input.target).Nodup) (built : mkfs files = .ok s) :
    Correct s files ↔ Good files := by
  obtain ⟨next, finished⟩ := mkfs_result built
  have nodes : sb.ninodes = 200 := rfl
  constructor
  · intro correct
    have few : files.length ≤ 198 := by
      have := correct.inums
      omega
    have finished := finished (by omega)
    have loose : (files.length + 2) % 32 ≠ 0 := by
      intro full
      obtain ⟨inside, hole⟩ := finished.hole few full
      apply correct.dense ROOTINO (by decide) _ _ inside hole
      rw [finished.root_type]
      decide
    have ready := finished.ready (by omega) loose
    refine ⟨few, loose, ?_⟩
    intro file member
    obtain ⟨i, low, rfl⟩ := List.mem_iff_getElem.mp member
    exact (ready.readFile_iff distinct low).mp (correct.reads ⟨fun _ => none, fun _ => none⟩ _ member)
  · intro good
    have ready := (finished (by have := good.few; omega)).ready (by have := good.few; omega) good.loose
    constructor
    · have := good.few
      omega
    · exact fun inum small allocated bn low => ready.dense small allocated low
    · exact fun x b at_x => ready.placed at_x
    · intro x y b at_x at_y
      exact ready.blocks.exact.distinct x y b at_x at_y
    · intro devsw file member
      obtain ⟨i, low, rfl⟩ := List.mem_iff_getElem.mp member
      exact (ready.readFile_iff distinct low).mpr (good.visible _ member)

/-- A file `_a` of three bytes that come in two reads, and a file `b` that goes on in a second block. -/
def twoFiles : List Input :=
  [⟨[95, 97], [[1, 2], [3]], by decide, by decide⟩,
    ⟨[98], [List.replicate 512 4, List.replicate 88 5], by decide, by
      simp only [List.mem_cons, List.not_mem_nil, or_false, forall_eq_or_imp, forall_eq]
      exact ⟨List.cons_ne_nil _ _, List.cons_ne_nil _ _⟩⟩]

theorem mkfs_correct_of_two : ∃ s, mkfs twoFiles = .ok s ∧ Correct s twoFiles := by
  have evaluated : (mkfs twoFiles).toBool = true := by decide +kernel
  cases built : mkfs twoFiles with
  | error e =>
    rw [built] at evaluated
    cases evaluated
  | ok s =>
    refine ⟨s, rfl, (mkfs_correct_iff (by decide) built).mpr ⟨by decide, by decide, ?_⟩⟩
    intro file member special
    rcases List.mem_pair.mp member with rfl | rfl
    · exact absurd special (by decide)
    · exact absurd special (by decide)

/-- As many empty files as fill the first block of the root directory. -/
def emptyFiles : List Input :=
  (List.finRange 30).map fun i => ⟨[UInt8.ofNat (i.val + 97)], [], by revert i; decide, by decide⟩

/-- Their root directory has a block that is not there. -/
theorem mkfs_hole_of_emptyFiles :
    (emptyFiles.map Input.target).Nodup ∧ ∃ s, mkfs emptyFiles = .ok s ∧ ¬ Correct s emptyFiles := by
  have evaluated : (mkfs emptyFiles).toOption.any (fun s => decide ((sb.dinode s.disk ROOTINO).type ≠ 0 ∧
      (sb.dinode s.disk ROOTINO).size = 1024 ∧ (sb.dinode s.disk ROOTINO).addrs 1 = 0)) = true := by decide +kernel
  constructor
  · decide
  cases built : mkfs emptyFiles with
  | error e =>
    rw [built] at evaluated
    cases evaluated
  | ok s =>
    rw [built] at evaluated
    obtain ⟨allocated, size, none⟩ := of_decide_eq_true evaluated
    refine ⟨s, rfl, fun correct => correct.dense ROOTINO (by decide) allocated 1 ?_ ?_⟩
    · rw [size]
      decide
    · show (ref s.disk (sb.dinode s.disk ROOTINO) 1) = 0
      rw [show (1 : Nat) = ((1 : Fin (NDIRECT + 1)) : Nat) from rfl, ref_addr, none]
      rfl

end Xv6.Fs.Mkfs
