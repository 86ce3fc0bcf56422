import Xv6.Image.Files
import Xv6.Library.Outcome

namespace Xv6.Fs.Mkfs

open Function Loops

variable {s s' : Image} {file : Nat → Option (Short × Chars)} {files done : List Input} {input : Input}

def entryBytes (de : Dirent) : Chars := (List.range 16).map de.bytes

theorem entryBytes_length (de : Dirent) : (entryBytes de).length = 16 := by
  rw [entryBytes, List.length_map, List.length_range]

theorem entryBytes_get (de : Dirent) {k : Nat} (low : k < (entryBytes de).length) : de.bytes k = buffer (entryBytes de) k := by
  rw [entryBytes_length] at low
  unfold buffer entryBytes
  rw [List.getD_eq_getElem?_getD, List.getElem?_map, List.getElem?_range low]
  rfl

def entries (files : List Input) : List Dirent :=
  ⟨1, dot⟩ :: ⟨1, dotdot⟩ :: files.mapIdx fun i file => ⟨BitVec.ofNat 16 (i + 2), file.target⟩

def directory (files : List Input) : Chars := (entries files).flatMap entryBytes

/-- What each inode holds before the size of the root directory is fixed. -/
def contents (files : List Input) : Nat → Option (Short × Chars)
  | 0 => none
  | 1 => some (T_DIR, directory files)
  | i + 2 => files[i]?.map fun file => (T_FILE, file.bytes)

theorem contents_file (files : List Input) (i : Nat) :
    contents files (i + 2) = files[i]?.map fun file => (T_FILE, file.bytes) := rfl

theorem entries_concat (done : List Input) (input : Input) :
    entries (done ++ [input]) = entries done ++ [⟨BitVec.ofNat 16 (done.length + 2), input.target⟩] := by
  unfold entries
  rw [List.mapIdx_concat]
  rfl

theorem directory_concat (done : List Input) (input : Input) :
    directory (done ++ [input]) = directory done ++ entryBytes ⟨BitVec.ofNat 16 (done.length + 2), input.target⟩ := by
  unfold directory
  rw [entries_concat, List.flatMap_append, List.flatMap_singleton]

theorem contents_concat (done : List Input) (input : Input) : contents (done ++ [input]) =
    update (update (contents done) 1 (some (T_DIR, directory (done ++ [input])))) (done.length + 2)
      (some (T_FILE, input.bytes)) := by
  funext i
  match i with
  | 0 => rfl
  | 1 => rfl
  | i + 2 =>
    by_cases last : i = done.length
    · subst last
      rw [update_self, contents_file, List.getElem?_concat_length]
      rfl
    · rw [update_of_ne (by omega), update_of_ne (by omega), contents_file, contents_file]
      by_cases low : i < done.length
      · rw [List.getElem?_append_left low]
      · rw [List.getElem?_eq_none (by rw [List.length_append, List.length_singleton]; omega),
          List.getElem?_eq_none (by omega)]

theorem Built.link {bytes : Chars} (built : Built s file) (here : file ROOTINO = some (T_DIR, bytes)) (de : Dirent)
    (ran : Mkfs.iappend s ROOTINO de.bytes 16 = .ok s') :
    s'.freeinode = s.freeinode ∧ Built s' (update file ROOTINO (some (T_DIR, bytes ++ entryBytes de))) := by
  have count := entryBytes_length de
  apply built.iappend (by decide) here (entryBytes de)
  · intro empty
    rw [empty] at count
    cases count
  · exact fun _ low => entryBytes_get de low
  · rw [count]
    exact ran

theorem Built.appendAll {inum : Nat} (built : Built s file) (small : inum < sb.ninodes)
    (here : file inum = some (T_FILE, [])) (ran : input.chunks.foldlM
      (fun s chunk => Mkfs.iappend s inum (buffer chunk) chunk.length) s = .ok s') :
    s'.freeinode = s.freeinode ∧ Built s' (update file inum (some (T_FILE, input.bytes))) := by
  apply foldlM_done (I := fun chunks t => t.freeinode = s.freeinode ∧
    Built t (update file inum (some (T_FILE, chunks.flatten)))) ran
  · apply And.intro rfl
    rw [List.flatten_nil, ← here, update_eq_self]
    exact built
  · intro chunks chunk rest t t' all ⟨same, built'⟩ ran'
    have member : chunk ∈ input.chunks := by
      rw [all]
      exact List.mem_append_right _ (List.mem_cons_self ..)
    obtain ⟨same', built''⟩ := built'.iappend small (update_self ..) chunk (input.nonempty chunk member) (fun _ _ => rfl) ran'
    rw [update_idem] at built''
    rw [List.flatten_concat]
    exact ⟨same'.trans same, built''⟩

theorem Built.addFile (built : Built s (contents done)) (next : s.freeinode = done.length + 2)
    (small : done.length + 2 < sb.ninodes) (ran : Mkfs.addFile s input = .ok s') :
    s'.freeinode = (done ++ [input]).length + 2 ∧ Built s' (contents (done ++ [input])) := by
  unfold Mkfs.addFile at ran
  by_cases slashed : slash ∈ input.name
  · rw [if_pos slashed] at ran
    cases ran
  rw [if_neg slashed] at ran
  cases allocated : Mkfs.ialloc s T_FILE with
  | error e =>
    rw [allocated] at ran
    cases ran
  | ok r =>
    obtain ⟨inum, s₁⟩ := r
    rw [allocated] at ran
    dsimp only [bind, Except.bind] at ran
    have unused : contents done s.freeinode = none := by
      rw [next, contents_file, List.getElem?_eq_none (Nat.le_refl _)]
      rfl
    obtain ⟨eq, next₁, built₁⟩ := built.ialloc (by omega) unused (by decide) allocated
    rw [next] at eq next₁ built₁
    subst eq
    cases linked : Mkfs.iappend s₁ ROOTINO (Dirent.mk (BitVec.ofNat 16 (done.length + 2)) input.target).bytes 16 with
    | error e =>
      rw [linked] at ran
      cases ran
    | ok s₂ =>
      rw [linked] at ran
      obtain ⟨same₂, built₂⟩ := built₁.link (update_of_ne (show ROOTINO ≠ done.length + 2 by unfold ROOTINO; omega) ..) _ linked
      have fresh : update (update (contents done) (done.length + 2) (some (T_FILE, []))) ROOTINO
          (some (T_DIR, directory done ++ entryBytes ⟨BitVec.ofNat 16 (done.length + 2), input.target⟩)) (done.length + 2) =
            some (T_FILE, []) := by
        rw [update_of_ne (show done.length + 2 ≠ ROOTINO by unfold ROOTINO; omega), update_self]
      obtain ⟨same₃, built₃⟩ := built₂.appendAll (by omega) fresh ran
      constructor
      · rw [same₃, same₂, next₁, List.length_append]
        rfl
      · rw [contents_concat, directory_concat]
        rw [update_comm (show ROOTINO ≠ done.length + 2 by unfold ROOTINO; omega), update_idem,
          update_comm (show done.length + 2 ≠ ROOTINO by unfold ROOTINO; omega)] at built₃
        exact built₃

end Xv6.Fs.Mkfs
