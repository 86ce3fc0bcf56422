import Xv6.Calls.Syscalls
import Xv6.Fs.Paths
import Xv6.Fs.Sound
import Xv6.Library.Tally

namespace Xv6.Fs

open Function Outcome Tally

variable {sb : Superblock} {devsw : Devsw}

/-- The lock of an entry that nobody but the caller holds -/
def own (held : Bool) : Option Holder := if held then some .caller else none

theorem own_free {held : Bool} (free : decide (own held = some .caller) = false) : held = false := by
  cases held
  · rfl
  · cases free

/-- The entries of the cache have `want` references and the caller holds the locks `locks`. Those in use are of different
inodes. -/
structure Refs (want : Fin NINODE → ℕ) (locks : Fin NINODE → Bool) (s : State) : Prop where
  refs : ∀ k, (s.inode k).ref = want k
  locks : ∀ k, (s.inode k).lock = own (locks k)
  unique : ∀ k l, 0 < (s.inode k).ref → 0 < (s.inode l).ref → (s.inode k).inum = (s.inode l).inum → k = l

/-- What is said of a run that stops in a panic: nothing. -/
def Stopped (_ : String) : Prop := True

theorem ends_itrunc_any {s : State} {k : Fin NINODE} {post : Unit → State → Prop}
    (done : ∀ d ip, post () (s.setDinode k d ip)) : Ends (itrunc sb k) s post Stopped := by
  unfold itrunc
  rw [ends_bind, ends_get, ends_bind, ends_liftExcept]
  cases sb.itrunc s.disk (s.inode k).inum (s.inode k).dinode with
  | ok r => exact done r.1 r.2
  | error e => exact True.intro

theorem ends_readi_any {s : State} {k : Fin NINODE} {off n : Uint} {post : Int × List UInt8 → State → Prop}
    (done : ∀ a d ip, post a (s.setDinode k d ip)) : Ends (readi sb devsw k off n) s post Stopped := by
  unfold readi
  rw [ends_bind, ends_get, ends_bind, ends_liftExcept]
  cases sb.readi devsw s.disk (s.inode k).dinode off n with
  | ok r => exact done r.1 r.2.1 r.2.2
  | error e => exact True.intro

theorem ends_writei_any {s : State} {k : Fin NINODE} {src : Nat → UInt8} {off n : Uint} {post : Int → State → Prop}
    (done : ∀ a d ip, post a (s.setDinode k d ip)) : Ends (writei sb devsw k src off n) s post Stopped := by
  unfold writei
  rw [ends_bind, ends_get, ends_bind, ends_liftExcept]
  cases sb.writei devsw s.disk (s.inode k).inum (s.inode k).dinode src off n with
  | ok r => exact done r.1 r.2.1 r.2.2
  | error e => exact True.intro

theorem ends_ilock_any {s : State} {k : Fin NINODE} {post : Unit → State → Prop}
    (done : (s.inode k).locked = false → 0 < (s.inode k).ref → ∀ valid ip,
      post () (s.setInode k { s.inode k with lock := some .caller, valid := valid, dinode := ip })) :
    Ends (ilock sb k) s post Stopped := by
  unfold ilock acquiresleep
  simp only [ends_bind, ends_get, ends_ite, ends_throw, ends_pure, ends_modifyInode, State.setInode_self,
    State.setInode_setInode]
  refine ⟨fun _ => True.intro, fun live => ⟨fun _ => True.intro, fun unlocked => ⟨fun _ => ⟨fun _ => True.intro, fun _ => ?_⟩,
    fun _ => ?_⟩⟩⟩
  · exact done (Bool.eq_false_iff.mpr unlocked) (by omega) _ _
  · exact done (Bool.eq_false_iff.mpr unlocked) (by omega) _ _

theorem ends_iunlock_any {s : State} {k : Fin NINODE} {post : Unit → State → Prop}
    (done : post () (s.setInode k { s.inode k with lock := none })) : Ends (iunlock k) s post Stopped := by
  unfold iunlock releasesleep
  simp only [ends_bind, ends_get, ends_ite, ends_throw, ends_modifyInode]
  exact ⟨fun _ => True.intro, fun _ => done⟩

theorem ends_iput_any {s : State} {k : Fin NINODE} {post : Unit → State → Prop}
    (done : (s.inode k).locked = false → ∀ d valid ip, post () ⟨d, update s.inode k
      { s.inode k with lock := none, valid := valid, ref := (s.inode k).ref - 1, dinode := ip }⟩) :
    Ends (iput sb k) s post Stopped := by
  unfold iput acquiresleep releasesleep iupdate
  simp only [ends_bind, ends_get, ends_ite, ends_throw, ends_modifyInode, State.setInode_self, State.setInode_setInode,
    State.setInode_disk, ends_modify]
  refine ⟨fun _ => True.intro, fun unlocked => ⟨fun _ => ⟨fun _ => ?_, fun _ => ?_⟩, fun _ => ?_⟩⟩
  · apply ends_itrunc_any
    intro d ip
    simp only [State.setInode_self, State.setDinode_self, State.setDinode_disk, State.setDinode_setInode,
      State.mk_setInode, State.setInode_inode, update_idem]
    exact done (Bool.eq_false_iff.mpr unlocked) _ _ _
  · exact done (Bool.eq_false_iff.mpr unlocked) _ _ _
  · exact done (Bool.eq_false_iff.mpr unlocked) _ _ _

namespace Refs

variable {want want' : Fin NINODE → ℕ} {locks locks' : Fin NINODE → Bool} {s s' : State} {k ip dp : Fin NINODE} {name : Chars}

theorem set_inode (inv : Refs want locks s) {d : Disk} {ip : Inode}
    (unique : ∀ l, l ≠ k → 0 < ip.ref → 0 < (s.inode l).ref → (s.inode l).inum ≠ ip.inum)
    (counted : update want k ip.ref = want') {held : Bool} (lock : ip.lock = own held) (locked : update locks k held = locks') :
    Refs want' locks' ⟨d, update s.inode k ip⟩ where
  refs l := by
    rw [← counted]
    dsimp only
    by_cases here : l = k
    · subst here
      rw [update_self, update_self]
    · rw [update_of_ne here, update_of_ne here]
      exact inv.refs l
  locks l := by
    rw [← locked]
    dsimp only
    by_cases here : l = k
    · subst here
      rw [update_self, update_self]
      exact lock
    · rw [update_of_ne here, update_of_ne here]
      exact inv.locks l
  unique l m := by
    dsimp only
    by_cases here : l = k <;> by_cases there : m = k
    · exact fun _ _ _ => here.trans there.symm
    · subst here
      rw [update_self, update_of_ne there]
      exact fun live live' same => absurd same.symm (unique m there live live')
    · subst there
      rw [update_self, update_of_ne here]
      exact fun live live' same => absurd same (unique l here live' live)
    · rw [update_of_ne here, update_of_ne there]
      exact inv.unique l m

theorem same_inode (inv : Refs want locks s) {d : Disk} {ip : Inode} (live : 0 < ip.ref → 0 < (s.inode k).ref)
    (inum : ip.inum = (s.inode k).inum) (counted : update want k ip.ref = want') {held : Bool} (lock : ip.lock = own held)
    (locked : update locks k held = locks') : Refs want' locks' ⟨d, update s.inode k ip⟩ := by
  apply inv.set_inode _ counted lock locked
  intro l ne live' live'' same
  exact ne (inv.unique l k live'' (live live') (same.trans inum))

theorem same_refs (inv : Refs want locks s) (k : Fin NINODE) : update want k (s.inode k).ref = want := by
  rw [inv.refs k, update_eq_self]

theorem more_refs (inv : Refs want locks s) (k : Fin NINODE) : update want k ((s.inode k).ref + 1) = want + one k := by
  rw [inv.refs k, add_one_eq]

theorem setDinode (inv : Refs want locks s) (d : Disk) (ip : Dinode) : Refs want locks (s.setDinode k d ip) :=
  inv.same_inode id rfl (inv.same_refs k) (inv.locks k) (update_eq_self k locks)

theorem with_disk (inv : Refs want locks s) (d : Disk) : Refs want locks { s with disk := d } := ⟨inv.refs, inv.locks, inv.unique⟩

theorem iget (inv : Refs want locks s) (inum : Nat) :
    Ends (iget inum) s (fun k s' => Refs (want + one k) locks s') Stopped := by
  apply ends_iget fun _ _ => True.intro
  · intro k live _
    exact inv.same_inode (fun _ => live) rfl (inv.more_refs k) (inv.locks k) (update_eq_self k locks)
  · intro k free away
    have first := inv.more_refs k
    rw [free] at first
    exact inv.set_inode (fun l _ _ live => away l live) first (inv.locks k) (update_eq_self k locks)

theorem idup (inv : Refs want locks s) (k : Fin NINODE) (live : 0 < want k) :
    Ends (idup k) s (fun ip s' => ip = k ∧ Refs (want + one ip) locks s') Stopped := by
  unfold Fs.idup
  rw [ends_bind, ends_modifyInode, ends_pure]
  rw [← inv.refs k] at live
  exact ⟨rfl, inv.same_inode (fun _ => live) rfl (inv.more_refs k) (inv.locks k) (update_eq_self k locks)⟩

theorem ilock (inv : Refs want locks s) :
    Ends (ilock sb k) s (fun _ s' => locks k = false ∧ Refs want (update locks k true) s') Stopped := by
  apply ends_ilock_any
  intro unlocked live valid ip
  rw [Inode.locked, inv.locks k] at unlocked
  have free : locks k = false := own_free unlocked
  exact ⟨free, inv.same_inode (fun _ => live) rfl (inv.same_refs k) rfl rfl⟩

theorem iunlock (inv : Refs want (update locks k true) s) (free : locks k = false) :
    Ends (iunlock k) s (fun _ s' => Refs want locks s') Stopped := by
  apply ends_iunlock_any
  apply inv.same_inode
  · exact id
  · rfl
  · exact inv.same_refs k
  · exact (congrArg own free).symm
  · rw [update_idem, update_eq_self]

theorem iput (inv : Refs (want + one k) locks s) : Ends (iput sb k) s (fun _ s' => Refs want locks s') Stopped := by
  apply ends_iput_any
  intro unlocked d valid ip
  have refs := inv.refs k
  rw [Pi.add_apply, one_self] at refs
  apply inv.same_inode
  · intro _
    omega
  · rfl
  · rw [refs, Nat.add_sub_cancel, update_add_one]
  · rw [Inode.locked, inv.locks k] at unlocked
    exact (congrArg own (own_free unlocked)).symm
  · exact update_eq_self k locks

theorem iunlockput (inv : Refs (want + one k) (update locks k true) s) (free : locks k = false) :
    Ends (iunlockput sb k) s (fun _ s' => Refs want locks s') Stopped := by
  unfold Fs.iunlockput
  rw [ends_bind]
  exact (inv.iunlock free).weaken fun _ _ inv' => inv'.iput

theorem readi (inv : Refs want locks s) (off n : Uint) :
    Ends (readi sb devsw k off n) s (fun _ s' => Refs want locks s') Stopped :=
  ends_readi_any fun _ d ip => inv.setDinode d ip

theorem writei (inv : Refs want locks s) (src : Nat → UInt8) (off n : Uint) :
    Ends (writei sb devsw k src off n) s (fun _ s' => Refs want locks s') Stopped :=
  ends_writei_any fun _ d ip => inv.setDinode d ip

theorem updateInode (inv : Refs want locks s) (f : Dinode → Dinode) :
    Ends (updateInode sb k f) s (fun _ s' => Refs want locks s') Stopped := by
  unfold Fs.updateInode iupdate
  rw [ends_bind, ends_modifyInode, ends_modify]
  exact (inv.setDinode (k := k) s.disk (f (s.inode k).dinode)).with_disk _

theorem scan (inv : Refs want locks s) (message : String) (test : Dirent → Bool) (fuel off : Nat) :
    Ends (scan sb devsw message test k fuel off) s (fun _ s' => Refs want locks s') Stopped := by
  induction fuel generalizing s off with
  | zero => exact inv
  | succ fuel ih =>
    unfold Fs.scan
    rw [ends_bind, ends_get, ends_ite]
    constructor
    · intro _
      rw [ends_bind]
      apply (inv.readi _ _).weaken
      rintro ⟨r, bytes⟩ s' inv'
      dsimp only
      rw [ends_ite, ends_ite]
      exact ⟨fun _ => True.intro, fun _ => ⟨fun _ => inv', fun _ => ih inv' _⟩⟩
    · exact fun _ => inv

theorem dirlookup (inv : Refs want locks s) (dp : Fin NINODE) (name : Chars) :
    Ends (dirlookup sb devsw dp name) s (fun r s' => match r with
      | none => Refs want locks s'
      | some (ip, _) => Refs (want + one ip) locks s') Stopped := by
  unfold Fs.dirlookup
  rw [ends_bind, ends_get]
  dsimp only
  rw [ends_ite]
  constructor
  · exact fun _ => True.intro
  · intro _
    rw [ends_bind]
    apply (inv.scan _ _ _ _).weaken
    rintro ⟨off, _ | de⟩ s' inv'
    · exact inv'
    · dsimp only
      rw [ends_bind]
      exact (inv'.iget _).weaken fun _ _ => id

theorem dirlink (inv : Refs want locks s) (dp : Fin NINODE) (name : Chars) (inum : Nat) :
    Ends (dirlink sb devsw dp name inum) s (fun _ s' => Refs want locks s') Stopped := by
  unfold Fs.dirlink
  rw [ends_bind]
  apply (inv.dirlookup dp name).weaken
  rintro (_ | ⟨ip, off⟩) s1 post
  · have inv1 : Refs want locks s1 := post
    dsimp only
    rw [ends_bind, ends_get, ends_bind]
    apply (inv1.scan _ _ _ _).weaken
    intro (off, found) s2 inv2
    dsimp only
    rw [ends_bind]
    apply (inv2.writei _ _ _).weaken
    intro r s3 inv3
    rw [ends_ite]
    exact ⟨fun _ => True.intro, fun _ => inv3⟩
  · have inv1 : Refs (want + one ip) locks s1 := post
    dsimp only
    rw [ends_bind]
    exact inv1.iput.weaken fun _ _ => id

theorem namexLoop (parent : Bool) {fuel : ℕ} {path : Chars} (inv : Refs (want + one ip) locks s) (enough : path.length < fuel) :
    Ends (namexLoop sb devsw parent fuel path ip name) s (fun r s' => match r with
      | none => Refs want locks s'
      | some (ip, _) => Refs (want + one ip) locks s') Stopped := by
  induction fuel generalizing s path ip name with
  | zero => exact absurd enough (Nat.not_lt_zero _)
  | succ fuel ih =>
    unfold Fs.namexLoop
    cases found : skipelem path with
    | none =>
      dsimp only
      rw [ends_ite]
      constructor
      · intro _
        rw [ends_bind]
        exact inv.iput.weaken fun _ _ => id
      · exact fun _ => inv
    | some next =>
      obtain ⟨element, rest⟩ := next
      have shorter := skipelem_shorter found
      dsimp only
      rw [ends_bind]
      apply inv.ilock.weaken
      rintro _ s1 ⟨free, inv1⟩
      rw [ends_bind, ends_get, ends_ite]
      constructor
      · intro _
        rw [ends_bind]
        exact (inv1.iunlockput free).weaken fun _ _ => id
      · intro _
        rw [ends_ite]
        constructor
        · intro _
          rw [ends_bind]
          exact (inv1.iunlock free).weaken fun _ _ => id
        · intro _
          rw [ends_bind]
          apply (inv1.dirlookup ip element).weaken
          rintro (_ | ⟨next, off⟩) s2 post
          · have inv2 : Refs (want + one ip) (update locks ip true) s2 := post
            dsimp only
            rw [ends_bind]
            exact (inv2.iunlockput free).weaken fun _ _ => id
          · have inv2 : Refs (want + one ip + one next) (update locks ip true) s2 := post
            rw [add_right_comm] at inv2
            dsimp only
            rw [ends_bind]
            apply (inv2.iunlockput free).weaken
            intro _ s3 inv3
            exact ih inv3 (by omega)

theorem namex (inv : Refs want locks s) {cwd : Fin NINODE} (live : 0 < want cwd) (path : Chars) (parent : Bool) :
    Ends (namex sb devsw cwd path parent) s (fun r s' => match r with
      | none => Refs want locks s'
      | some (ip, _) => Refs (want + one ip) locks s') Stopped := by
  unfold Fs.namex
  dsimp only
  rw [ends_ite]
  constructor
  · intro _
    rw [ends_bind]
    apply (inv.iget _).weaken
    intro ip s1 inv1
    exact inv1.namexLoop parent (Nat.lt_succ_self _)
  · intro _
    rw [ends_bind]
    apply (inv.idup cwd live).weaken
    intro ip s1 ⟨_, inv1⟩
    exact inv1.namexLoop parent (Nat.lt_succ_self _)

theorem namei (inv : Refs want locks s) {cwd : Fin NINODE} (live : 0 < want cwd) (path : Chars) :
    Ends (namei sb devsw cwd path) s (fun r s' => match r with
      | none => Refs want locks s'
      | some ip => Refs (want + one ip) locks s') Stopped := by
  unfold Fs.namei
  rw [ends_bind]
  apply (inv.namex live path false).weaken
  rintro (_ | ⟨ip, _⟩) s1 post
  · exact post
  · exact post

theorem nameiparent (inv : Refs want locks s) {cwd : Fin NINODE} (live : 0 < want cwd) (path : Chars) :
    Ends (nameiparent sb devsw cwd path) s (fun r s' => match r with
      | none => Refs want locks s'
      | some (ip, _) => Refs (want + one ip) locks s') Stopped := inv.namex live path true

theorem ialloc (inv : Refs want locks s) (type : Short) :
    Ends (ialloc sb type) s (fun k s' => Refs (want + one k) locks s') Stopped := by
  unfold Fs.ialloc
  rw [ends_bind, ends_get]
  cases (List.range sb.ninodes).find? fun inum => decide (1 ≤ inum ∧ (sb.dinode s.disk inum).type = 0) with
  | none => exact True.intro
  | some inum =>
    dsimp only
    rw [ends_bind, ends_set]
    exact (inv.with_disk _).iget inum

theorem isdirempty (inv : Refs want locks s) :
    Ends (isdirempty sb devsw dp) s (fun _ s' => Refs want locks s') Stopped := by
  unfold Fs.isdirempty
  rw [ends_bind, ends_get, ends_bind]
  exact (inv.scan _ _ _ _).weaken fun _ _ => id

theorem busy (inv : Refs want locks s) : Ends (busy sb devsw ip) s (fun _ s' => Refs want locks s') Stopped := by
  unfold Fs.busy
  rw [ends_bind, ends_get, ends_ite]
  constructor
  · intro _
    rw [ends_bind]
    exact inv.isdirempty.weaken fun _ _ => id
  · exact fun _ => inv

theorem unlinkBack (inv : Refs (want + one ip) locks s) :
    Ends (unlinkBack sb ip) s (fun _ s' => Refs want locks s') Stopped := by
  unfold Fs.unlinkBack
  rw [ends_bind]
  apply inv.ilock.weaken
  intro _ s1 ⟨free, inv1⟩
  rw [ends_bind]
  apply (inv1.updateInode _).weaken
  intro _ s2 inv2
  rw [ends_bind]
  exact (inv2.iunlockput free).weaken fun _ _ => id

theorem link (inv : Refs want locks s) {cwd : Fin NINODE} (live : 0 < want cwd) (old new : Chars) :
    Ends (link sb devsw cwd old new) s (fun _ s' => Refs want locks s') Stopped := by
  unfold Fs.link
  rw [ends_bind]
  apply (inv.namei live old).weaken
  rintro (_ | ip) s1 post
  · exact post
  · have inv1 : Refs (want + one ip) locks s1 := post
    dsimp only
    rw [ends_bind]
    apply inv1.ilock.weaken
    intro _ s2 ⟨free, inv2⟩
    rw [ends_bind, ends_get, ends_ite]
    constructor
    · intro _
      rw [ends_bind]
      exact (inv2.iunlockput free).weaken fun _ _ => id
    · intro _
      rw [ends_bind]
      apply (inv2.updateInode _).weaken
      intro _ s3 inv3
      rw [ends_bind]
      apply (inv3.iunlock free).weaken
      intro _ s4 inv4
      rw [ends_bind]
      apply (inv4.nameiparent (Nat.lt_of_lt_of_le live (Nat.le_add_right ..)) new).weaken
      rintro (_ | ⟨dp, name⟩) s5 post
      · exact Refs.unlinkBack post
      · have inv5 : Refs (want + one ip + one dp) locks s5 := post
        dsimp only
        rw [ends_bind]
        apply inv5.ilock.weaken
        intro _ s6 ⟨free', inv6⟩
        rw [ends_bind, ends_get, ends_bind]
        apply (inv6.dirlink dp name _).weaken
        intro r s7 inv7
        rw [ends_ite]
        constructor
        · intro _
          rw [ends_bind]
          apply (inv7.iunlockput free').weaken
          exact fun _ _ inv8 => inv8.unlinkBack
        · intro _
          rw [ends_bind]
          apply (inv7.iunlockput free').weaken
          intro _ s8 inv8
          rw [ends_bind]
          exact inv8.iput.weaken fun _ _ => id

/-- The second of two locks is not the first one. They can be given up in any order. -/
theorem second_lock (free : update locks dp true ip = false) : dp ≠ ip ∧ locks ip = false ∧
    update (update locks dp true) ip true = update (update locks ip true) dp true := by
  have ne : ip ≠ dp := by
    rintro rfl
    rw [update_self] at free
    cases free
  rw [update_of_ne ne] at free
  exact ⟨ne.symm, free, update_comm ne.symm ..⟩

theorem iunlockput_first (inv : Refs (want + one dp + one ip) (update (update locks dp true) ip true) s)
    (free : locks dp = false) (free' : update locks dp true ip = false) :
    Ends (Fs.iunlockput sb dp) s (fun _ s' => locks ip = false ∧ Refs (want + one ip) (update locks ip true) s') Stopped := by
  obtain ⟨ne, free_ip, swap⟩ := second_lock free'
  rw [add_right_comm, swap] at inv
  apply (inv.iunlockput _).weaken
  · exact fun _ _ inv' => ⟨free_ip, inv'⟩
  · rw [update_of_ne ne]
    exact free

theorem putBoth (inv : Refs (want + one dp + one ip) (update (update locks dp true) ip true) s) (free : locks dp = false)
    (free' : update locks dp true ip = false) {f : Dinode → Dinode} : Ends (do
      Fs.iunlockput sb dp
      Fs.updateInode sb ip f
      Fs.iunlockput sb ip
      return (0 : Int)) s (fun _ s' => Refs want locks s') Stopped := by
  rw [ends_bind]
  apply (inv.iunlockput_first free free').weaken
  intro _ s1 ⟨free_ip, inv1⟩
  rw [ends_bind]
  apply (inv1.updateInode _).weaken
  intro _ s2 inv2
  rw [ends_bind]
  exact (inv2.iunlockput free_ip).weaken fun _ _ => id

theorem unlink (inv : Refs want locks s) {cwd : Fin NINODE} (live : 0 < want cwd) (path : Chars) :
    Ends (unlink sb devsw cwd path) s (fun _ s' => Refs want locks s') Stopped := by
  unfold Fs.unlink
  rw [ends_bind]
  apply (inv.nameiparent live path).weaken
  rintro (_ | ⟨dp, name⟩) s1 post
  · exact post
  have inv1 : Refs (want + one dp) locks s1 := post
  dsimp only
  rw [ends_bind]
  apply inv1.ilock.weaken
  intro _ s2 ⟨free, inv2⟩
  rw [ends_ite]
  constructor
  · intro _
    rw [ends_bind]
    exact (inv2.iunlockput free).weaken fun _ _ => id
  intro _
  rw [ends_bind]
  apply (inv2.dirlookup dp name).weaken
  rintro (_ | ⟨ip, off⟩) s3 post
  · have inv3 : Refs (want + one dp) (update locks dp true) s3 := post
    dsimp only
    rw [ends_bind]
    exact (inv3.iunlockput free).weaken fun _ _ => id
  have inv3 : Refs (want + one dp + one ip) (update locks dp true) s3 := post
  dsimp only
  rw [ends_bind]
  apply inv3.ilock.weaken
  intro _ s4 ⟨free', inv4⟩
  rw [ends_bind, ends_get, ends_ite]
  constructor
  · exact fun _ => True.intro
  intro _
  rw [ends_bind]
  apply inv4.busy.weaken
  intro busy s5 inv5
  rw [ends_ite]
  constructor
  · intro _
    rw [ends_bind]
    apply (inv5.iunlockput free').weaken
    intro _ s6 inv6
    rw [ends_bind]
    exact (inv6.iunlockput free).weaken fun _ _ => id
  intro _
  rw [ends_bind]
  apply (inv5.writei _ _ _).weaken
  intro r s6 inv6
  rw [ends_ite]
  constructor
  · exact fun _ => True.intro
  intro _
  rw [ends_bind, ends_get, ends_ite]
  constructor
  · intro _
    rw [ends_bind]
    apply (inv6.updateInode _).weaken
    exact fun _ _ inv7 => inv7.putBoth free free'
  · exact fun _ => inv6.putBoth free free'

theorem createDots (inv : Refs want locks s) :
    Ends (createDots sb devsw dp ip) s (fun _ s' => Refs want locks s') Stopped := by
  unfold Fs.createDots
  rw [ends_bind]
  apply (inv.updateInode _).weaken
  intro _ s1 inv1
  rw [ends_bind, ends_get, ends_bind]
  apply (inv1.dirlink ip dot _).weaken
  intro r s2 inv2
  rw [ends_ite]
  constructor
  · exact fun _ => True.intro
  intro _
  rw [ends_bind, ends_get, ends_bind]
  apply (inv2.dirlink ip dotdot _).weaken
  intro r' s3 inv3
  rw [ends_ite]
  exact ⟨fun _ => True.intro, fun _ => inv3⟩

theorem create (inv : Refs want locks s) {cwd : Fin NINODE} (live : 0 < want cwd) (path : Chars) (type major minor : Short) :
    Ends (create sb devsw cwd path type major minor) s (fun r s' => match r with
      | none => Refs want locks s'
      | some ip => locks ip = false ∧ Refs (want + one ip) (update locks ip true) s') Stopped := by
  unfold Fs.create
  rw [ends_bind]
  apply (inv.nameiparent live path).weaken
  rintro (_ | ⟨dp, name⟩) s1 post
  · exact post
  have inv1 : Refs (want + one dp) locks s1 := post
  dsimp only
  rw [ends_bind]
  apply inv1.ilock.weaken
  intro _ s2 ⟨free, inv2⟩
  rw [ends_bind]
  apply (inv2.dirlookup dp name).weaken
  rintro (_ | ⟨ip, off⟩) s3 post
  · have inv3 : Refs (want + one dp) (update locks dp true) s3 := post
    dsimp only
    rw [ends_bind]
    apply (inv3.ialloc type).weaken
    intro ip s4 inv4
    rw [ends_bind]
    apply inv4.ilock.weaken
    intro _ s5 ⟨free', inv5⟩
    rw [ends_bind]
    apply (inv5.updateInode _).weaken
    intro _ s6 inv6
    have linked : ∀ {s : State}, Refs (want + one dp + one ip) (update (update locks dp true) ip true) s →
        Ends (do
          if (← Fs.dirlink sb devsw dp name ((← get).inode ip).inum) < 0 then throw "create: dirlink"
          Fs.iunlockput sb dp
          return some ip) s (fun r s' => match r with
            | none => Refs want locks s'
            | some ip => locks ip = false ∧ Refs (want + one ip) (update locks ip true) s') Stopped := by
      intro s inv
      rw [ends_bind, ends_get, ends_bind]
      apply (inv.dirlink dp name _).weaken
      intro r s7 inv7
      dsimp only
      rw [ends_ite]
      constructor
      · exact fun _ => True.intro
      · intro _
        rw [ends_bind]
        exact (inv7.iunlockput_first free free').weaken fun _ _ => id
    rw [ends_ite]
    constructor
    · intro _
      rw [ends_bind]
      exact inv6.createDots.weaken fun _ _ inv7 => linked inv7
    · exact fun _ => linked inv6
  · have inv3 : Refs (want + one dp + one ip) (update locks dp true) s3 := post
    rw [add_right_comm] at inv3
    dsimp only
    rw [ends_bind]
    apply (inv3.iunlockput free).weaken
    intro _ s4 inv4
    rw [ends_bind]
    apply inv4.ilock.weaken
    intro _ s5 ⟨free', inv5⟩
    rw [ends_bind, ends_get, ends_ite]
    constructor
    · exact fun _ => ⟨free', inv5⟩
    · intro _
      rw [ends_bind]
      exact (inv5.iunlockput free').weaken fun _ _ => id

theorem openInode (inv : Refs want locks s) {cwd : Fin NINODE} (live : 0 < want cwd) (path : Chars) (omode : BitVec 32) :
    Ends (openInode sb devsw cwd path omode) s (fun r s' => match r with
      | none => Refs want locks s'
      | some ip => locks ip = false ∧ Refs (want + one ip) (update locks ip true) s') Stopped := by
  unfold Fs.openInode
  rw [ends_ite]
  constructor
  · exact fun _ => inv.create live path T_FILE 0 0
  · intro _
    rw [ends_bind]
    apply (inv.namei live path).weaken
    rintro (_ | ip) s1 post
    · exact post
    · have inv1 : Refs (want + one ip) locks s1 := post
      dsimp only
      rw [ends_bind]
      apply inv1.ilock.weaken
      intro _ s2 ⟨free, inv2⟩
      rw [ends_bind, ends_get, ends_ite]
      constructor
      · intro _
        rw [ends_bind]
        exact (inv2.iunlockput free).weaken fun _ _ => id
      · exact fun _ => ⟨free, inv2⟩

theorem chdirInode {cwd : Fin NINODE} (inv : Refs (want + one cwd) locks s) (path : Chars) :
    Ends (chdirInode sb devsw cwd path) s (fun r s' => match r with
      | none => Refs (want + one cwd) locks s'
      | some ip => Refs (want + one ip) locks s') Stopped := by
  unfold Fs.chdirInode
  rw [ends_bind]
  have live : 0 < (want + one cwd) cwd := by
    rw [Pi.add_apply, one_self]
    omega
  apply (inv.namei live path).weaken
  rintro (_ | ip) s1 post
  · exact post
  · have inv1 : Refs (want + one cwd + one ip) locks s1 := post
    dsimp only
    rw [ends_bind]
    apply inv1.ilock.weaken
    intro _ s2 ⟨free, inv2⟩
    rw [ends_bind, ends_get, ends_ite]
    constructor
    · intro _
      rw [ends_bind]
      exact (inv2.iunlockput free).weaken fun _ _ => id
    · intro _
      rw [ends_bind]
      apply (inv2.iunlock free).weaken
      intro _ s3 inv3
      rw [add_right_comm] at inv3
      rw [ends_bind]
      exact inv3.iput.weaken fun _ _ => id

end Refs

end Xv6.Fs
