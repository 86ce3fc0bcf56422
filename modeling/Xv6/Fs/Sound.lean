import Xv6.Library.Outcome
import Xv6.Fs.Cache
import Xv6.Fs.Itrunc
import Xv6.Fs.Readi

namespace Xv6.Fs

open Function Outcome

variable {sb : Superblock} {devsw : Devsw} {s s' : State} {d' : Disk} {ip' : Dinode} {k l : Fin NINODE} {i j inum : Nat}

@[simp] theorem State.setInode_disk {ip : Inode} : (s.setInode k ip).disk = s.disk := rfl

@[simp] theorem State.setInode_self {ip : Inode} : (s.setInode k ip).inode k = ip := update_self ..

theorem State.setInode_of_ne {ip : Inode} (ne : l ≠ k) : (s.setInode k ip).inode l = s.inode l := update_of_ne ne ..

@[simp] theorem State.setInode_setInode {ip ip' : Inode} : (s.setInode k ip).setInode k ip' = s.setInode k ip' := by
  unfold State.setInode
  rw [update_idem]

@[simp] theorem State.setDinode_self {d : Disk} {ip : Dinode} :
    (s.setDinode k d ip).inode k = { s.inode k with dinode := ip } := update_self ..

@[simp] theorem State.setDinode_disk {d : Disk} {ip : Dinode} : (s.setDinode k d ip).disk = d := rfl

@[simp] theorem State.setDinode_setInode {d : Disk} {ip : Dinode} {ip' : Inode} :
    (s.setDinode k d ip).setInode k ip' = ⟨d, update s.inode k ip'⟩ := by
  unfold State.setDinode State.setInode
  rw [update_idem]

@[simp] theorem State.mk_setInode {d : Disk} {f : Fin NINODE → Inode} {ip : Inode} :
    (⟨d, f⟩ : State).setInode k ip = ⟨d, update f k ip⟩ := rfl

@[simp] theorem State.setInode_inode {ip : Inode} : (s.setInode k ip).inode = update s.inode k ip := rfl

@[simp] theorem ends_modifyInode {f : Inode → Inode} {post : Unit → State → Prop} {stop : String → Prop} :
    Ends (modifyInode k f) s post stop ↔ post () (s.setInode k (f (s.inode k))) := Iff.rfl

/-- The free map is exact, the blocks below the size of every inode are there, and each cached inode is the one on disk. -/
structure Sound (sb : Superblock) (s : State) : Prop where
  blocks : Blocks sb s.disk (sb.dinode s.disk)
  filled : ∀ i, i < sb.ninodes → (sb.dinode s.disk i).type ≠ 0 → Filled s.disk (sb.dinode s.disk i)
  inside : ∀ k, 0 < (s.inode k).ref → (s.inode k).inum < sb.ninodes
  copies : ∀ k, 0 < (s.inode k).ref → (s.inode k).valid = true →
    (s.inode k).dinode = sb.dinode s.disk (s.inode k).inum ∧ (sb.dinode s.disk (s.inode k).inum).type ≠ 0
  unique : ∀ k l, 0 < (s.inode k).ref → 0 < (s.inode l).ref → (s.inode k).inum = (s.inode l).inum → k = l

namespace Sound

theorem set_inode (sound : Sound sb s) {ip : Inode} (inside : 0 < ip.ref → ip.inum < sb.ninodes)
    (copies : 0 < ip.ref → ip.valid = true →
      ip.dinode = sb.dinode s.disk ip.inum ∧ (sb.dinode s.disk ip.inum).type ≠ 0)
    (unique : ∀ l, l ≠ k → 0 < ip.ref → 0 < (s.inode l).ref → (s.inode l).inum ≠ ip.inum) : Sound sb (s.setInode k ip) where
  blocks := sound.blocks
  filled := sound.filled
  inside l := by
    by_cases here : l = k
    · subst here
      rw [State.setInode_self]
      exact inside
    · rw [State.setInode_of_ne here]
      exact sound.inside l
  copies l := by
    by_cases here : l = k
    · subst here
      rw [State.setInode_self]
      exact copies
    · rw [State.setInode_of_ne here]
      exact sound.copies l
  unique l m := by
    by_cases here : l = k <;> by_cases there : m = k
    · exact fun _ _ _ => here.trans there.symm
    · subst here
      rw [State.setInode_self, State.setInode_of_ne there]
      exact fun live live' same => absurd same.symm (unique m there live live')
    · subst there
      rw [State.setInode_self, State.setInode_of_ne here]
      exact fun live live' same => absurd same (unique l here live' live)
    · rw [State.setInode_of_ne here, State.setInode_of_ne there]
      exact sound.unique l m

theorem same_inode (sound : Sound sb s) {ip : Inode} (live : 0 < ip.ref → 0 < (s.inode k).ref)
    (inum : ip.inum = (s.inode k).inum) (valid : ip.valid = true → (s.inode k).valid = true)
    (dinode : ip.dinode = (s.inode k).dinode) : Sound sb (s.setInode k ip) := by
  apply sound.set_inode
  · intro live'
    rw [inum]
    exact sound.inside k (live live')
  · intro live' valid'
    rw [inum, dinode]
    exact sound.copies k (live live') (valid valid')
  · intro l ne live' live'' same
    exact ne (sound.unique l k live'' (live live') (same.trans inum))

theorem changed (sound : Sound sb s) (live : 0 < (s.inode k).ref) (ip : Inode) (inum : ip.inum = (s.inode k).inum)
    (changed : Changed sb s.disk (s.inode k).inum ip' d') (filled : ip'.type ≠ 0 → Filled d' ip')
    (copies : 0 < ip.ref → ip.valid = true → ip.dinode = ip' ∧ ip'.type ≠ 0) :
    Sound sb { disk := d', inode := update s.inode k ip } where
  blocks := changed.blocks
  filled i small := by
    by_cases here : i = (s.inode k).inum
    · subst here
      rw [changed.self]
      exact filled
    · intro allocated
      rw [changed.dinodes i small here] at allocated ⊢
      exact (changed.keeps i small here allocated).filled (sound.filled i small allocated)
  inside l := by
    dsimp only
    by_cases here : l = k
    · subst here
      rw [update_self, inum]
      exact fun _ => sound.inside l live
    · rw [update_of_ne here]
      exact sound.inside l
  copies l := by
    dsimp only
    by_cases here : l = k
    · subst here
      rw [update_self, inum, changed.self]
      exact copies
    · rw [update_of_ne here]
      intro live' valid
      have ne : (s.inode l).inum ≠ (s.inode k).inum := fun same => here (sound.unique l k live' live same)
      rw [changed.dinodes _ (sound.inside l live') ne]
      exact sound.copies l live' valid
  unique l m := by
    dsimp only
    have same : ∀ x, (update s.inode k ip x).inum = (s.inode x).inum := by
      intro x
      by_cases here : x = k
      · subst here
        rw [update_self, inum]
      · rw [update_of_ne here]
    have live' : ∀ x, 0 < (update s.inode k ip x).ref → 0 < (s.inode x).ref := by
      intro x
      by_cases here : x = k
      · subst here
        exact fun _ => live
      · rw [update_of_ne here]
        exact id
    rw [same, same]
    exact fun first second => sound.unique l m (live' l first) (live' m second)

end Sound

theorem find_entry (s : State) (inum : Nat) :
    (∃ k, (List.finRange NINODE).find? (fun k => decide (0 < (s.inode k).ref ∧ (s.inode k).inum = inum)) = some k ∧
      0 < (s.inode k).ref ∧ (s.inode k).inum = inum) ∨
      (List.finRange NINODE).find? (fun k => decide (0 < (s.inode k).ref ∧ (s.inode k).inum = inum)) = none ∧
        ∀ k, 0 < (s.inode k).ref → (s.inode k).inum ≠ inum := by
  cases found : (List.finRange NINODE).find? fun k => decide (0 < (s.inode k).ref ∧ (s.inode k).inum = inum) with
  | some k =>
    have here := List.find?_some found
    exact .inl ⟨k, rfl, of_decide_eq_true here⟩
  | none =>
    rw [List.find?_eq_none] at found
    refine .inr ⟨rfl, fun k live same => found k (List.mem_finRange k) (decide_eq_true ⟨live, same⟩)⟩

theorem ends_iget {post : Fin NINODE → State → Prop} {stop : String → Prop}
    (full : (∀ l, (s.inode l).ref ≠ 0) → (∀ l, 0 < (s.inode l).ref → (s.inode l).inum ≠ inum) → stop "iget: no inodes")
    (cached : ∀ k, 0 < (s.inode k).ref → (s.inode k).inum = inum →
      post k (s.setInode k { s.inode k with ref := (s.inode k).ref + 1 }))
    (recycled : ∀ k, (s.inode k).ref = 0 → (∀ l, 0 < (s.inode l).ref → (s.inode l).inum ≠ inum) →
      post k (s.setInode k { s.inode k with inum := inum, ref := 1, valid := false })) :
    Ends (iget inum) s post stop := by
  unfold iget
  rw [ends_bind, ends_get]
  rcases find_entry s inum with ⟨k, found, live, same⟩ | ⟨none, away⟩
  · rw [found]
    exact cached k live same
  · rw [none]
    dsimp only
    cases found : (List.finRange NINODE).find? fun k => decide ((s.inode k).ref = 0) with
    | some k =>
      have free := List.find?_some found
      exact recycled k (of_decide_eq_true free) away
    | none =>
      refine full (fun l free => ?_) away
      exact List.find?_eq_none.mp found l (List.mem_finRange l) (decide_eq_true free)

theorem Sound.iget (sound : Sound sb s) (small : inum < sb.ninodes) {stop : String → Prop} (full : stop "iget: no inodes") :
    Ends (iget inum) s (fun _ s' => Sound sb s') stop := by
  apply ends_iget fun _ _ => full
  · intro k live same
    exact sound.same_inode (fun _ => live) rfl id rfl
  · intro k free away
    apply sound.set_inode
    · exact fun _ => small
    · intro _ valid
      cases valid
    · exact fun l _ _ live => away l live

theorem ends_ilock (sound : Sound sb s) (live : 0 < (s.inode k).ref) {post : Unit → State → Prop} {stop : String → Prop}
    (held : (s.inode k).locked = true → stop "acquiresleep: held by the caller")
    (free : (sb.dinode s.disk (s.inode k).inum).type = 0 → stop "ilock: no type")
    (locked : (s.inode k).locked = false → (sb.dinode s.disk (s.inode k).inum).type ≠ 0 → post () (s.setInode k
      { s.inode k with lock := some .caller, valid := true, dinode := sb.dinode s.disk (s.inode k).inum })) :
    Ends (ilock sb k) s post stop := by
  unfold ilock acquiresleep
  simp only [ends_bind, ends_get, ends_ite, ends_throw, ends_pure, ends_modifyInode, State.setInode_self,
    State.setInode_setInode, State.setInode_disk]
  constructor
  · intro dead
    omega
  · intro _
    refine ⟨held, fun unlocked => ⟨fun _ => ⟨free, fun type => ?_⟩, fun valid => ?_⟩⟩
    · exact locked (Bool.eq_false_iff.mpr unlocked) type
    · have valid : (s.inode k).valid = true := by simpa using valid
      obtain ⟨copy, type⟩ := sound.copies k live valid
      have same : ({ s.inode k with lock := some .caller } : Inode) =
          { s.inode k with lock := some .caller, valid := true, dinode := sb.dinode s.disk (s.inode k).inum } := by
        rw [← copy, ← valid]
      have done := locked (Bool.eq_false_iff.mpr unlocked) type
      rwa [← same] at done

theorem Sound.lock (sound : Sound sb s) (type : (sb.dinode s.disk (s.inode k).inum).type ≠ 0) :
    Sound sb (s.setInode k
      { s.inode k with lock := some .caller, valid := true, dinode := sb.dinode s.disk (s.inode k).inum }) :=
  sound.set_inode (sound.inside k) (fun _ _ => ⟨rfl, type⟩) fun l ne live live' same => ne (sound.unique l k live' live same)

theorem ends_iunlock (live : 0 < (s.inode k).ref) (locked : (s.inode k).locked = true) {post : Unit → State → Prop}
    {stop : String → Prop} (done : post () (s.setInode k { s.inode k with lock := none })) :
    Ends (iunlock k) s post stop := by
  unfold iunlock releasesleep
  simp only [ends_bind, ends_get, ends_ite, ends_throw, ends_modifyInode, Bool.or_eq_true, Bool.not_eq_true',
    decide_eq_true_eq]
  constructor
  · intro bad
    rw [locked] at bad
    rcases bad with bad | bad
    · cases bad
    · omega
  · exact fun _ => done

theorem ends_itrunc (sound : Sound sb s) (live : 0 < (s.inode k).ref) (valid : (s.inode k).valid = true)
    {post : Unit → State → Prop} {stop : String → Prop}
    (done : ∀ d', Changed sb s.disk (s.inode k).inum (s.inode k).dinode.truncated d' →
      post () (s.setDinode k d' (s.inode k).dinode.truncated)) : Ends (itrunc sb k) s post stop := by
  obtain ⟨copy, type⟩ := sound.copies k live valid
  obtain ⟨d', ran, changed⟩ := Changed.of_itrunc sound.blocks (sound.inside k live) type
  rw [← copy] at ran changed
  unfold itrunc
  rw [ends_bind, ends_get, ran]
  exact done d' changed

/-- The last reference to an inode without links frees it, any other one is dropped. -/
theorem ends_iput (sound : Sound sb s) (live : 0 < (s.inode k).ref) {post : Unit → State → Prop} {stop : String → Prop}
    (held : (s.inode k).locked = true → stop "acquiresleep: held by the caller")
    (freed : (s.inode k).locked = false → (s.inode k).valid = true → (s.inode k).dinode.nlink = 0 → (s.inode k).ref = 1 →
      ∀ d' ip', Changed sb s.disk (s.inode k).inum ip' d' → ip'.type = 0 →
        post () ⟨d', update s.inode k { s.inode k with lock := none, valid := false, ref := 0, dinode := ip' }⟩)
    (dropped : (s.inode k).locked = false →
      ((s.inode k).valid = true → (s.inode k).dinode.nlink = 0 → 1 < (s.inode k).ref) →
        post () (s.setInode k { s.inode k with lock := none, ref := (s.inode k).ref - 1 })) :
    Ends (iput sb k) s post stop := by
  have allocated : (s.inode k).valid = true → (sb.dinode s.disk (s.inode k).inum).type ≠ 0 :=
    fun valid => (sound.copies k live valid).2
  unfold iput acquiresleep releasesleep iupdate
  simp only [ends_bind, ends_get, ends_ite, ends_throw, ends_modifyInode, State.setInode_self,
    State.setInode_setInode, State.setInode_disk, ends_modify]
  refine ⟨held, fun unlocked => ⟨fun unlinked => ⟨fun last => ?_, fun more => ?_⟩, fun linked => ?_⟩⟩
  · have unlocked : (s.inode k).locked = false := by simpa using unlocked
    have unlinked : (s.inode k).valid = true ∧ (s.inode k).dinode.nlink = 0 := by simpa using unlinked
    have entered : Sound sb (s.setInode k { s.inode k with lock := some .caller }) :=
      sound.same_inode (fun _ => live) rfl id rfl
    apply ends_itrunc entered
    · rw [State.setInode_self]
      exact live
    · rw [State.setInode_self]
      exact unlinked.1
    · intro d' changed
      simp only [State.setInode_self, State.setInode_disk] at changed
      have erased : Changed sb d' (s.inode k).inum { (s.inode k).dinode.truncated with type := 0 } _ :=
        .of_empty changed.blocks (sound.inside k live) (.inr (by rw [changed.self]; rfl)) rfl
      have done := freed unlocked unlinked.1 unlinked.2 last _ _ (changed.trans erased) rfl
      simp only [State.setInode_self, State.setDinode_self, State.setDinode_disk, State.setDinode_setInode,
        State.mk_setInode, State.setInode_inode, update_idem, last]
      exact done
  · apply dropped (by simpa using unlocked)
    intro _ _
    omega
  · apply dropped (by simpa using unlocked)
    intro valid nlink
    simp [valid, nlink] at linked

theorem Sound.iput (sound : Sound sb s) (live : 0 < (s.inode k).ref) {stop : String → Prop}
    (held : stop "acquiresleep: held by the caller") : Ends (iput sb k) s (fun _ s' => Sound sb s') stop := by
  apply ends_iput sound live fun _ => held
  · intro _ _ _ _ d' ip' changed type
    exact sound.changed live _ rfl changed (fun allocated => absurd type allocated) fun live => absurd live (Nat.lt_irrefl 0)
  · exact fun _ _ => sound.same_inode (fun _ => live) rfl id rfl

theorem ends_iupdate (sound : Sound sb s) (live : 0 < (s.inode k).ref) (valid : (s.inode k).valid = true)
    {f : Dinode → Dinode} (addrs : (f (s.inode k).dinode).addrs = (s.inode k).dinode.addrs)
    (type : (f (s.inode k).dinode).type = (s.inode k).dinode.type) (size : (f (s.inode k).dinode).size = (s.inode k).dinode.size)
    {post : Unit → State → Prop} {stop : String → Prop}
    (done : ∀ d', Changed sb s.disk (s.inode k).inum (f (s.inode k).dinode) d' → Keeps s.disk d' (s.inode k).dinode →
      Sound sb (s.setDinode k d' (f (s.inode k).dinode)) → post () (s.setDinode k d' (f (s.inode k).dinode))) :
    Ends (do modifyInode k (fun ip => { ip with dinode := f ip.dinode }); iupdate sb k) s post stop := by
  obtain ⟨copy, allocated⟩ := sound.copies k live valid
  have same : (s.inode k).dinode.addrs = (sb.dinode s.disk (s.inode k).inum).addrs := by rw [copy]
  have same_type : (s.inode k).dinode.type = (sb.dinode s.disk (s.inode k).inum).type := by rw [copy]
  obtain ⟨changed, keeps⟩ := Changed.of_put sound.blocks (sound.inside k live) allocated (addrs.trans same)
    (type.trans same_type)
  rw [← copy] at keeps
  have filled : Filled s.disk (s.inode k).dinode := by
    rw [copy]
    exact sound.filled _ (sound.inside k live) allocated
  have sound' := sound.changed live { s.inode k with dinode := f (s.inode k).dinode } rfl changed ?_ ?_
  · unfold iupdate
    simp only [ends_bind, ends_modifyInode, ends_modify, State.setInode_self, State.setInode_disk]
    exact done _ changed keeps sound'
  · intro _
    have kept := keeps.filled filled
    constructor
    · rw [size]
      exact kept.bound
    · intro j low
      rw [size] at low
      have here := kept.dense j low
      rw [addr, ref_congr addrs (fun _ => rfl)]
      exact here
  · exact fun _ _ => ⟨rfl, by rw [type, same_type]; exact allocated⟩

theorem ends_writei (sound : Sound sb s) (live : 0 < (s.inode k).ref) (valid : (s.inode k).valid = true)
    (regular : (s.inode k).dinode.type ≠ T_DEV) {src : Nat → UInt8} {off n : Uint} {post : Int → State → Prop}
    {stop : String → Prop} (refused : ¬ Accepted (s.inode k).dinode.size.toNat off.toNat n.toNat → post (-1) s)
    (full : Accepted (s.inode k).dinode.size.toNat off.toNat n.toNat →
      Full sb s.disk (sb.dinode s.disk) (s.inode k).inum (slotsOfBytes off.toNat (off.toNat + n.toNat)) →
        stop "balloc: out of blocks")
    (written : ∀ d' ip', Accepted (s.inode k).dinode.size.toNat off.toNat n.toNat →
      Written sb s.disk (s.inode k).inum off.toNat (off.toNat + n.toNat) (fun j => src (j - off.toNat)) d' ip' →
      Sound sb (s.setDinode k d' ip') → post n.toNat (s.setDinode k d' ip')) :
    Ends (writei sb devsw k src off n) s post stop := by
  obtain ⟨copy, allocated⟩ := sound.copies k live valid
  unfold writei
  rw [ends_bind, ends_get]
  by_cases accepted : Accepted (s.inode k).dinode.size.toNat off.toNat n.toNat
  · have filled := sound.filled _ (sound.inside k live) allocated
    have accepted' := accepted
    rw [copy] at accepted' regular
    rcases writei_accepted devsw src sound.blocks (sound.inside k live) allocated filled regular accepted' with
      ⟨d', ip', ran, result⟩ | ⟨failed, none⟩
    · rw [← copy] at ran
      rw [ran]
      have type : ip'.type = (sb.dinode s.disk (s.inode k).inum).type := by rw [result.fields]
      exact written d' ip' accepted result (sound.changed live _ rfl result.changed (fun _ => result.filled)
        fun _ _ => ⟨rfl, by rw [type]; exact allocated⟩)
    · rw [← copy] at failed
      rw [failed]
      exact full accepted none
  · rw [writei_refused devsw regular accepted]
    have same : s.setDinode k s.disk (s.inode k).dinode = s := by
      unfold State.setDinode
      rw [update_eq_self]
    exact (congrArg (post _) same).mpr (refused accepted)

theorem ends_readi (sound : Sound sb s) (live : 0 < (s.inode k).ref) (valid : (s.inode k).valid = true)
    (regular : (s.inode k).dinode.type ≠ T_DEV) {off n : Uint} {post : Int × List UInt8 → State → Prop}
    {stop : String → Prop} (refused : ¬ Readable (s.inode k).dinode.size.toNat off.toNat n.toNat → post (-1, []) s)
    (found : Readable (s.inode k).dinode.size.toNat off.toNat n.toNat →
      post ((min n.toNat ((s.inode k).dinode.size.toNat - off.toNat) : Nat),
        (List.range (min n.toNat ((s.inode k).dinode.size.toNat - off.toNat))).map fun j =>
          byte s.disk (s.inode k).dinode (off.toNat + j)) s) :
    Ends (readi sb devsw k off n) s post stop := by
  obtain ⟨copy, allocated⟩ := sound.copies k live valid
  have filled : Filled s.disk (s.inode k).dinode := by
    rw [copy]
    exact sound.filled _ (sound.inside k live) allocated
  have same : s.setDinode k s.disk (s.inode k).dinode = s := by
    unfold State.setDinode
    rw [update_eq_self]
  unfold readi
  rw [ends_bind, ends_get]
  by_cases readable : Readable (s.inode k).dinode.size.toNat off.toNat n.toNat
  · rw [readi_ok devsw filled regular readable]
    exact (congrArg (post _) same).mpr (found readable)
  · rw [readi_refused devsw regular readable]
    exact (congrArg (post _) same).mpr (refused readable)

theorem find_free (sb : Superblock) (d : Disk) :
    (∃ i, (List.range sb.ninodes).find? (fun i => decide (1 ≤ i ∧ (sb.dinode d i).type = 0)) = some i ∧
      i < sb.ninodes ∧ 1 ≤ i ∧ (sb.dinode d i).type = 0) ∨
      (List.range sb.ninodes).find? (fun i => decide (1 ≤ i ∧ (sb.dinode d i).type = 0)) = none := by
  cases found : (List.range sb.ninodes).find? fun i => decide (1 ≤ i ∧ (sb.dinode d i).type = 0) with
  | some i =>
    have here := List.find?_some found
    have small := List.mem_of_find?_eq_some found
    exact .inl ⟨i, rfl, List.mem_range.mp small, of_decide_eq_true here⟩
  | none => exact .inr rfl

theorem ends_ialloc (sound : Sound sb s) {type : Short} {post : Fin NINODE → State → Prop} {stop : String → Prop}
    (none : stop "ialloc: no inodes")
    (taken : ∀ i d', i < sb.ninodes → 1 ≤ i → (sb.dinode s.disk i).type = 0 →
      Changed sb s.disk i ⟨type, 0, 0, 0, 0, fun _ => 0⟩ d' → Sound sb { s with disk := d' } →
        Ends (iget i) { s with disk := d' } post stop) : Ends (ialloc sb type) s post stop := by
  unfold ialloc
  rw [ends_bind, ends_get]
  rcases find_free sb s.disk with ⟨i, found, small, positive, free⟩ | missing
  · rw [found]
    have changed : Changed sb s.disk i ⟨type, 0, 0, 0, 0, fun _ => 0⟩ _ := .of_empty sound.blocks small (.inl free) rfl
    apply taken i _ small positive free changed
    constructor
    · exact changed.blocks
    · intro j low
      by_cases here : j = i
      · subst here
        rw [changed.self]
        exact fun _ => filled_empty rfl
      · intro allocated
        rw [changed.dinodes j low here] at allocated ⊢
        exact (changed.keeps j low here allocated).filled (sound.filled j low allocated)
    · exact sound.inside
    · intro k live valid
      have copied := sound.copies k live valid
      have ne : (s.inode k).inum ≠ i := by
        intro same
        rw [same] at copied
        exact copied.2 free
      rw [changed.dinodes _ (sound.inside k live) ne]
      exact copied
    · exact sound.unique
  · rw [missing]
    exact none

end Xv6.Fs
