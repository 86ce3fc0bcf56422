import Xv6.Fs.Names
import Xv6.Fs.Sound

namespace Xv6.Fs

open Function Bytes Outcome

variable {sb : Superblock} {devsw : Devsw} {s : State} {k : Fin NINODE} {d : Disk} {ip : Dinode} {name : Chars} {i j n : Nat}

/-- The `j`th entry of a directory. -/
def entry (d : Disk) (ip : Dinode) (j : Nat) : Dirent := .ofBytes ((List.range 16).map fun i => byte d ip (16 * j + i))

theorem getD_map_range {f : Nat → UInt8} (low : i < n) : ((List.range n).map f).getD i 0 = f i := by
  rw [List.getD_eq_getElem?_getD, List.getElem?_map, List.getElem?_range low]
  rfl

theorem takeWhile_padded (string : 0 ∉ name) (short : name.length ≤ n) :
    ((List.range n).map fun i => name.getD i 0).takeWhile (· ≠ 0) = name := by
  have split : (List.range n).map (fun i => name.getD i 0) = name ++ List.replicate (n - name.length) 0 := by
    apply List.ext_getElem
    · simp only [List.length_map, List.length_range, List.length_append, List.length_replicate]
      omega
    · intro i low _
      rw [List.getElem_map, List.getElem_range, List.getD_eq_getElem?_getD]
      by_cases inside : i < name.length
      · rw [List.getElem_append_left inside, List.getElem?_eq_getElem inside, Option.getD_some]
      · rw [List.getElem_append_right (by omega), List.getElem_replicate, List.getElem?_eq_none (by omega), Option.getD_none]
  rw [split, List.takeWhile_append_of_pos]
  · cases n - name.length with
    | zero => simp
    | succ m => simp [List.replicate_succ]
  · intro c member
    simp only [decide_eq_true_eq]
    rintro rfl
    exact string member

theorem strncmp_eq_zero {t : Chars} (string : 0 ∉ name) (string' : 0 ∉ t) : strncmp name t n = 0 ↔ name.take n = t.take n := by
  induction n generalizing name t with
  | zero => exact ⟨fun _ => rfl, fun _ => rfl⟩
  | succ n ih =>
    unfold strncmp
    cases name with
    | nil =>
      cases t with
      | nil => simp
      | cons c t =>
        have nonzero : c ≠ 0 := fun zero => string' (zero ▸ List.mem_cons_self)
        have positive : c.toNat ≠ 0 := fun zero => nonzero (UInt8.toNat_inj.mp zero)
        simp only [List.headD_nil, ne_eq, not_true_eq_false, false_and, if_false, List.headD_cons, List.take_nil,
          List.take_succ_cons]
        constructor
        · intro same
          exfalso
          have zero : (0 : UInt8).toNat = 0 := rfl
          omega
        · intro same
          cases same
    | cons b name =>
      have nonzero : b ≠ 0 := fun zero => string (zero ▸ List.mem_cons_self)
      have inner : 0 ∉ name := fun member => string (List.mem_cons_of_mem _ member)
      cases t with
      | nil =>
        have positive : b.toNat ≠ 0 := fun zero => nonzero (UInt8.toNat_inj.mp zero)
        simp only [List.headD_cons, List.headD_nil, ne_eq, nonzero, not_false_eq_true, and_false, if_false, List.take_nil,
          List.take_succ_cons]
        constructor
        · intro same
          exfalso
          have zero : (0 : UInt8).toNat = 0 := rfl
          omega
        · intro same
          cases same
      | cons c t =>
        have inner' : 0 ∉ t := fun member => string' (List.mem_cons_of_mem _ member)
        simp only [List.headD_cons, ne_eq, nonzero, not_false_eq_true, true_and, List.tail_cons, List.take_succ_cons,
          List.cons.injEq]
        by_cases same : b = c
        · rw [if_pos same, ih inner inner']
          exact (and_iff_right same).symm
        · rw [if_neg same]
          constructor
          · intro zero
            exact absurd (UInt8.toNat_inj.mp (by omega)) same
          · intro heads
            exact absurd heads.1 same

theorem Dirent.ofBytes_bytes (de : Dirent) (string : 0 ∉ de.name) (short : de.name.length ≤ DIRSIZ) {bytes : Chars}
    (same : ∀ i, i < 16 → bytes.getD i 0 = de.bytes i) : Dirent.ofBytes bytes = de := by
  have number : load 2 (fun i => bytes.getD i 0) 0 = de.inum.toNat := by
    have stored : load 2 (store 2 (fun _ => 0) 0 de.inum.toNat) 0 = de.inum.toNat := load_store_of_lt de.inum.isLt
    rw [← stored]
    apply load_congr
    intro i _ high
    rw [same i (by omega), Dirent.bytes, if_pos (by omega)]
  have chars : (List.range DIRSIZ).map (fun i => bytes.getD (2 + i) 0) = (List.range DIRSIZ).map fun i => de.name.getD i 0 := by
    apply List.map_congr_left
    intro i member
    have low : i < 14 := List.mem_range.mp member
    rw [same (2 + i) (by omega), Dirent.bytes, if_neg (by omega), Nat.add_sub_cancel_left]
  unfold Dirent.ofBytes
  rw [number, chars, takeWhile_padded string short, BitVec.ofNat_toNat, BitVec.setWidth_eq]

theorem ofBytes_name (bytes : Chars) : 0 ∉ (Dirent.ofBytes bytes).name ∧ (Dirent.ofBytes bytes).name.length ≤ DIRSIZ := by
  constructor
  · intro member
    have nonzero := List.all_eq_true.mp List.all_takeWhile 0 member
    simp at nonzero
  · refine Nat.le_trans (List.takeWhile_sublist _).length_le ?_
    rw [List.length_map, List.length_range]

theorem namecmp_entry (string : 0 ∉ name) :
    namecmp name (entry d ip j).name = 0 ↔ (entry d ip j).name = name.take DIRSIZ := by
  obtain ⟨string', short⟩ : 0 ∉ (entry d ip j).name ∧ (entry d ip j).name.length ≤ DIRSIZ := ofBytes_name _
  unfold namecmp
  rw [strncmp_eq_zero string string', List.take_of_length_le short]
  exact eq_comm

/-- A search in a locked directory: the first entry from the `i`th on that passes the test. -/
theorem ends_scan (sound : Sound sb s) (live : 0 < (s.inode k).ref) (valid : (s.inode k).valid = true)
    (regular : (s.inode k).dinode.type ≠ T_DEV) (size : (s.inode k).dinode.size.toNat = 16 * n) {message : String}
    {test : Dirent → Bool} {fuel : Nat} (enough : n ≤ i + fuel) {post : Nat × Option Dirent → State → Prop} {stop : String → Prop}
    (found : ∀ j, i ≤ j → j < n → test (entry s.disk (s.inode k).dinode j) = true →
      (∀ l, i ≤ l → l < j → test (entry s.disk (s.inode k).dinode l) = false) →
        post (16 * j, some (entry s.disk (s.inode k).dinode j)) s)
    (missing : (∀ l, i ≤ l → l < n → test (entry s.disk (s.inode k).dinode l) = false) → post (16 * max i n, none) s) :
    Ends (scan sb devsw message test k fuel (16 * i)) s post stop := by
  have bound : (s.inode k).dinode.size.toNat ≤ MAXFILE * BSIZE := by
    obtain ⟨copy, allocated⟩ := sound.copies k live valid
    rw [copy]
    exact (sound.filled _ (sound.inside k live) allocated).bound
  have limit : MAXFILE * BSIZE < 2 ^ 31 := by decide
  induction fuel generalizing i with
  | zero =>
    unfold scan
    rw [ends_pure, ← Nat.max_eq_left (show n ≤ i by omega)]
    exact missing fun l low high => by omega
  | succ fuel ih =>
    unfold scan
    rw [ends_bind, ends_get, ends_ite]
    constructor
    · intro inside
      have off : (BitVec.ofNat 32 (16 * i)).toNat = 16 * i := by
        rw [BitVec.toNat_ofNat]
        exact Nat.mod_eq_of_lt (by omega)
      have count : min (16 : Uint).toNat ((s.inode k).dinode.size.toNat - 16 * i) = 16 := by
        rw [size]
        show min 16 _ = 16
        omega
      rw [ends_bind]
      apply ends_readi sound live valid regular
      · intro refused
        apply absurd _ refused
        rw [off]
        constructor
        · omega
        · show _ + 16 < 2 ^ 32
          omega
      · intro _
        rw [off, count]
        dsimp only
        rw [ends_ite]
        constructor
        · intro bad
          exact absurd rfl bad
        · intro _
          rw [ends_ite]
          constructor
          · intro passes
            exact found i (Nat.le_refl _) (by omega) passes fun l low high => by omega
          · intro fails
            have fails : test (entry s.disk (s.inode k).dinode i) = false := Bool.eq_false_iff.mpr fails
            have next : 16 * i + 16 = 16 * (i + 1) := by omega
            rw [next]
            apply ih (by omega)
            · intro j low high passes before
              apply found j (by omega) high passes
              intro l low' high'
              by_cases here : l = i
              · rw [here]
                exact fails
              · exact before l (by omega) high'
            · intro none
              rw [show max (i + 1) n = max i n by omega]
              apply missing
              intro l low high
              by_cases here : l = i
              · rw [here]
                exact fails
              · exact none l (by omega) high
    · intro outside
      rw [ends_pure, ← Nat.max_eq_left (show n ≤ i by omega)]
      exact missing fun l low high => by omega

theorem ends_iget_room {inum : Nat} {l : Fin NINODE} (room : (s.inode l).ref = 0) {post : Fin NINODE → State → Prop}
    {stop : String → Prop}
    (cached : ∀ k, 0 < (s.inode k).ref → (s.inode k).inum = inum →
      post k (s.setInode k { s.inode k with ref := (s.inode k).ref + 1 }))
    (recycled : ∀ k, (s.inode k).ref = 0 → (∀ l, 0 < (s.inode l).ref → (s.inode l).inum ≠ inum) →
      post k (s.setInode k { s.inode k with inum := inum, ref := 1, valid := false })) :
    Ends (iget inum) s post stop := by
  apply ends_iget _ cached recycled
  intro full _
  exact absurd room (full l)

theorem ends_dirlookup (string : 0 ∉ name) (sound : Sound sb s) (live : 0 < (s.inode k).ref) (valid : (s.inode k).valid = true)
    (dir : (s.inode k).dinode.type = T_DIR) (size : (s.inode k).dinode.size.toNat = 16 * n)
    {post : Option (Fin NINODE × Nat) → State → Prop} {stop : String → Prop}
    (found : ∀ j, j < n → (entry s.disk (s.inode k).dinode j).inum ≠ 0 →
      (entry s.disk (s.inode k).dinode j).name = name.take DIRSIZ →
      (∀ l, l < j → (entry s.disk (s.inode k).dinode l).inum ≠ 0 →
        (entry s.disk (s.inode k).dinode l).name ≠ name.take DIRSIZ) →
        Ends (iget (entry s.disk (s.inode k).dinode j).inum.toNat) s (fun ip s' => post (some (ip, 16 * j)) s') stop)
    (missing : (∀ l, l < n → (entry s.disk (s.inode k).dinode l).inum ≠ 0 →
      (entry s.disk (s.inode k).dinode l).name ≠ name.take DIRSIZ) → post none s) :
    Ends (dirlookup sb devsw k name) s post stop := by
  have regular : (s.inode k).dinode.type ≠ T_DEV := by
    rw [dir]
    decide
  unfold dirlookup
  rw [ends_bind, ends_get]
  dsimp only
  rw [ends_ite]
  constructor
  · exact fun bad => absurd dir bad
  · intro _
    rw [ends_bind]
    apply ends_scan (i := 0) sound live valid regular size (by rw [size]; omega)
    · intro j _ high passes before
      simp only [Bool.and_eq_true, decide_eq_true_eq] at passes
      dsimp only
      rw [ends_bind]
      simp only [ends_pure]
      apply found j high passes.1 ((namecmp_entry string).mp passes.2)
      intro l low used same
      have fails := before l (Nat.zero_le _) low
      rw [decide_eq_true used, decide_eq_true ((namecmp_entry string).mpr same)] at fails
      cases fails
    · intro none
      apply missing
      intro l low used same
      have fails := none l (Nat.zero_le _) low
      rw [decide_eq_true used, decide_eq_true ((namecmp_entry string).mpr same)] at fails
      cases fails

end Xv6.Fs
