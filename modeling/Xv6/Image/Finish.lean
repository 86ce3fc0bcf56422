import Xv6.Image.Contents

namespace Xv6.Fs.Mkfs

open Function Bytes Loops

variable {s s' t : Image} {d d' : Disk} {files : List Input} {input : Input} {inum : Nat}

theorem iappend_freeinode {p : Nat → UInt8} {n : Nat} (ran : iappend s inum p n = .ok s') : s'.freeinode = s.freeinode := by
  unfold iappend at ran
  cases read : rinode s.disk inum with
  | error e =>
    rw [read] at ran
    cases ran
  | ok din =>
    rw [read] at ran
    dsimp only [bind, Except.bind] at ran
    cases appended : appendLoop n s.disk s.freeblock din din.size.toNat n p with
    | error e =>
      rw [appended] at ran
      cases ran
    | ok r =>
      rw [appended] at ran
      dsimp only at ran
      cases wrote : winode r.1 inum { r.2.2 with size := BitVec.ofNat 32 (r.2.2.size.toNat + n) } with
      | error e =>
        rw [wrote] at ran
        cases ran
      | ok d =>
        rw [wrote] at ran
        cases ran
        rfl

theorem ialloc_freeinode {type : Short} (ran : ialloc s type = .ok (inum, s')) :
    inum = s.freeinode ∧ s'.freeinode = s.freeinode + 1 := by
  unfold ialloc at ran
  cases wrote : winode s.disk s.freeinode ⟨type, 0, 0, 1, 0, fun _ => 0⟩ with
  | error e =>
    rw [wrote] at ran
    cases ran
  | ok d =>
    rw [wrote] at ran
    cases ran
    exact ⟨rfl, rfl⟩

theorem addFile_freeinode (ran : addFile s input = .ok s') : s'.freeinode = s.freeinode + 1 := by
  unfold addFile at ran
  by_cases slashed : slash ∈ input.name
  · rw [if_pos slashed] at ran
    cases ran
  rw [if_neg slashed] at ran
  cases allocated : ialloc s T_FILE with
  | error e =>
    rw [allocated] at ran
    cases ran
  | ok r =>
    obtain ⟨inum, s₁⟩ := r
    rw [allocated] at ran
    dsimp only [bind, Except.bind] at ran
    cases linked : iappend s₁ ROOTINO (Dirent.mk (BitVec.ofNat 16 inum) input.target).bytes 16 with
    | error e =>
      rw [linked] at ran
      cases ran
    | ok s₂ =>
      rw [linked] at ran
      apply foldlM_done (I := fun _ t => t.freeinode = s.freeinode + 1) ran
      · rw [iappend_freeinode linked, (ialloc_freeinode allocated).2]
      · intro _ _ _ _ _ _ same ran'
        rw [iappend_freeinode ran', same]

theorem built_empty : Built ⟨fun _ _ => 0, 1, sb.datastart⟩ fun _ => none where
  fresh := ⟨Nat.le_refl _, by decide, fun _ _ _ => rfl⟩
  blocks := sound_formatted.blocks
  free i small _ := dinode_formatted small
  files _ _ _ _ none := nomatch none

theorem built_start (ran : start = .ok s) : s.freeinode = 2 ∧ Built s (contents []) := by
  unfold start at ran
  cases allocated : ialloc ⟨fun _ _ => 0, 1, sb.datastart⟩ T_DIR with
  | error e =>
    rw [allocated] at ran
    cases ran
  | ok r =>
    obtain ⟨rootino, s₁⟩ := r
    obtain ⟨eq, next₁, built₁⟩ := built_empty.ialloc (by decide) rfl (by decide) allocated
    rw [allocated] at ran
    dsimp only [bind, Except.bind] at ran
    dsimp only at eq next₁ built₁
    subst eq
    cases first : iappend s₁ 1 (Dirent.mk (BitVec.ofNat 16 1) dot).bytes 16 with
    | error e =>
      rw [first] at ran
      cases ran
    | ok s₂ =>
      rw [first] at ran
      obtain ⟨same₂, built₂⟩ := built₁.link (update_self ..) _ first
      obtain ⟨same₃, built₃⟩ := built₂.link (update_self ..) _ ran
      constructor
      · rw [same₃, same₂, next₁]
      · have table : contents [] = update (update (update (fun _ : Nat => (none : Option (Short × Chars))) 1 (some (T_DIR, []))) ROOTINO
            (some (T_DIR, [] ++ entryBytes ⟨1, dot⟩))) ROOTINO
            (some (T_DIR, ([] ++ entryBytes ⟨1, dot⟩) ++ entryBytes ⟨1, dotdot⟩)) := by
          funext i
          match i with
          | 0 => rfl
          | 1 => rfl
          | i + 2 => rfl
        rw [table]
        exact built₃

/-- The root directory with its size fixed: zeros up to the end of its last block. -/
def rootBytes (files : List Input) : Chars :=
  directory files ++ List.replicate (BSIZE - (directory files).length % BSIZE) 0

/-- What `mkfs` has built when there are not too many files for the inodes. -/
structure Finished (s : Image) (files : List Input) : Prop where
  blocks : Blocks sb s.disk (sb.dinode s.disk)
  free : ∀ i, i < sb.ninodes → contents files i = none → (sb.dinode s.disk i).type = 0
  root : ∃ ip, Holds s.disk ip T_DIR (directory files) ∧
    sb.dinode s.disk ROOTINO = { ip with size := BitVec.ofNat 32 (((directory files).length / BSIZE + 1) * BSIZE) }
  files : ∀ i, i < sb.ninodes → ∀ bytes, contents files i = some (T_FILE, bytes) →
    Holds s.disk (sb.dinode s.disk i) T_FILE bytes

theorem Built.finish (built : Built t (contents files)) (ran : fixRoot t.disk = .ok d) :
    Finished { t with disk := balloc d t.freeblock } files := by
  obtain ⟨_, holds⟩ := built.files ROOTINO (by decide) T_DIR (directory files) rfl
  have small : ROOTINO < sb.ninodes := by decide
  have same : sb.dinode t.disk ROOTINO = sb.dinode (balloc t.disk t.freeblock) ROOTINO := (dinode_balloc small).symm
  have read : rsect (sb.iblock ROOTINO) = .ok () := rfl
  unfold fixRoot rinode winode at ran
  rw [read] at ran
  dsimp only [bind, Except.bind] at ran
  cases ran
  rw [same, holds.size]
  obtain ⟨din, fixed⟩ : ∃ din, din = { sb.dinode (balloc t.disk t.freeblock) ROOTINO with
    size := BitVec.ofNat 32 (((directory files).length / BSIZE + 1) * BSIZE) } := ⟨_, rfl⟩
  rw [← fixed, ← putDinode_balloc small]
  obtain ⟨changed, keeps⟩ := Changed.of_put built.blocks small (by rw [holds.type]; decide)
    (show din.addrs = _ by rw [fixed]) (show din.type = _ by rw [fixed])
  constructor
  · exact changed.blocks
  · intro i low none
    have ne : i ≠ ROOTINO := by
      rintro rfl
      cases none
    show (sb.dinode (sb.putDinode _ ROOTINO din) i).type = 0
    rw [changed.dinodes i low ne]
    exact built.free i low none
  · exact ⟨_, holds.keeps keeps, changed.self.trans fixed⟩
  · intro i low bytes here
    have ne : i ≠ ROOTINO := by
      rintro rfl
      cases here
    obtain ⟨nonzero, holds'⟩ := built.files i low T_FILE bytes here
    show Holds (sb.putDinode _ ROOTINO din) (sb.dinode (sb.putDinode _ ROOTINO din) i) T_FILE bytes
    rw [changed.dinodes i low ne]
    exact holds'.keeps (changed.keeps i low ne (by rw [holds'.type]; exact nonzero))

theorem mkfs_result (ran : mkfs files = .ok s) :
    s.freeinode = files.length + 2 ∧ (files.length + 1 < sb.ninodes → Finished s files) := by
  unfold mkfs at ran
  cases started : start with
  | error e =>
    rw [started] at ran
    cases ran
  | ok s₁ =>
    obtain ⟨next₁, built₁⟩ := built_start started
    rw [started] at ran
    dsimp only [bind, Except.bind] at ran
    cases added : files.foldlM addFile s₁ with
    | error e =>
      rw [added] at ran
      cases ran
    | ok s₂ =>
      rw [added] at ran
      dsimp only at ran
      cases fixed : fixRoot s₂.disk with
      | error e =>
        rw [fixed] at ran
        cases ran
      | ok d =>
        rw [fixed] at ran
        dsimp only at ran
        split_ifs at ran with room
        cases ran
        constructor
        · apply foldlM_done (I := fun done t => t.freeinode = done.length + 2) added next₁
          intro done _ _ _ _ _ next ran'
          rw [addFile_freeinode ran', next, List.length_append]
          exact Nat.add_right_comm ..
        · intro few
          have built := foldlM_done (I := fun done t => t.freeinode = done.length + 2 ∧ Built t (contents done)) added
            ⟨next₁, built₁⟩ fun done input rest t t' all ⟨next, built⟩ ran' => by
              apply built.addFile next _ ran'
              rw [all, List.length_append, List.length_cons] at few
              omega
          exact built.2.finish fixed

end Xv6.Fs.Mkfs
