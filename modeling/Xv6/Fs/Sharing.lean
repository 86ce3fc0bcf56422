import Xv6.Library.Transition
import Xv6.Fs.Mkfs

namespace Xv6.Fs

open Function Bytes Outcome Transition

variable {α : Type} {sb : Superblock} {devsw : Devsw} {s s' : State} {k : Fin NINODE} {i : Nat}

inductive Act where
  | iget (inum : Nat)
  | idup (k : Fin NINODE)
  | ialloc (type : Short)
  | setNlink (k : Fin NINODE) (nlink : Short)
  | readi (k : Fin NINODE) (off n : Uint)
  | writei (k : Fin NINODE) (src : Nat → UInt8) (off n : Uint)
  | itrunc (k : Fin NINODE)
  | iput (k : Fin NINODE)

namespace Act

def run (sb : Superblock) (devsw : Devsw) : Act → Op Unit
  | iget inum => do let _ ← Fs.iget inum
  | idup k => do let _ ← Fs.idup k
  | ialloc type => do let _ ← Fs.ialloc sb type
  | setNlink k nlink => do
    ilock sb k
    modifyInode k fun ip => { ip with dinode := { ip.dinode with nlink := nlink } }
    iupdate sb k
    iunlock k
  | readi k off n => do
    ilock sb k
    let _ ← Fs.readi sb devsw k off n
    iunlock k
  | writei k src off n => do
    ilock sb k
    let _ ← Fs.writei sb devsw k src off n
    iunlock k
  | itrunc k => do
    ilock sb k
    Fs.itrunc sb k
    iunlock k
  | iput k => Fs.iput sb k

/-- Callers hold a reference to the inode, and pass numbers of inodes to `iget`. -/
def Allowed (sb : Superblock) (s : State) : Act → Prop
  | iget inum => inum < sb.ninodes
  | ialloc _ => True
  | idup k | setNlink k _ | readi k _ _ | writei k _ _ _ | itrunc k | iput k => 0 < (s.inode k).ref

instance (s : State) (a : Act) : Decidable (a.Allowed sb s) := by
  unfold Allowed
  split <;> infer_instance

def step (sb : Superblock) (devsw : Devsw) (s : State) (a : Act) (s' : State) : Prop :=
  a.Allowed sb s ∧ a.run sb devsw s = .ok ((), s')

def next (sb : Superblock) (devsw : Devsw) (s : State) (a : Act) : Option State :=
  if a.Allowed sb s then (a.run sb devsw s).toOption.map Prod.snd else none

theorem next_step {a : Act} (taken : next sb devsw s a = some s') : step sb devsw s a s' := by
  unfold next at taken
  split at taken
  · rename_i allowed
    cases ran : a.run sb devsw s with
    | ok r =>
      rw [ran] at taken
      exact ⟨allowed, ran.trans (congrArg (fun x => Except.ok ((), x)) (Option.some.inj taken))⟩
    | error e =>
      rw [ran] at taken
      cases taken
  · cases taken

end Act

/-- Not the panic of `bfree`. -/
def Other (e : String) : Prop := e ≠ "freeing free block"

instance (e : String) : Decidable (Other e) := inferInstanceAs (Decidable (e ≠ _))

theorem ends_locked (sound : Sound sb s) (live : 0 < (s.inode k).ref) (body : Op α)
    (kept : ∀ s, Sound sb s → 0 < (s.inode k).ref → (s.inode k).locked = true → (s.inode k).valid = true →
      Ends body s (fun _ s' => Sound sb s' ∧ 0 < (s'.inode k).ref ∧ (s'.inode k).locked = true) Other) :
    Ends (do ilock sb k; let _ ← body; iunlock k) s (fun _ s' => Sound sb s') Other := by
  rw [ends_bind]
  apply ends_ilock sound live (fun _ => by decide) (fun _ => by decide)
  intro _ type
  rw [ends_bind]
  apply (kept _ (sound.lock type) ?_ ?_ ?_).weaken
  · intro _ s' ⟨sound', live', locked⟩
    exact ends_iunlock live' locked (sound'.same_inode (fun _ => live') rfl id rfl)
  · rwa [State.setInode_self]
  · rw [State.setInode_self]
    rfl
  · rw [State.setInode_self]

theorem ends_device_write {src : Nat → UInt8} {off n : Uint} (device : (s.inode k).dinode.type = T_DEV)
    {stop : String → Prop} : Ends (writei sb devsw k src off n) s (fun _ s' => s' = s) stop := by
  have same : s.setDinode k s.disk (s.inode k).dinode = s := by
    unfold State.setDinode
    rw [update_eq_self]
  unfold writei Superblock.writei
  rw [ends_bind, ends_get, if_pos device]
  split
  · exact same
  · cases devsw.write (s.inode k).dinode.major.toNat <;> exact same

theorem ends_device_read {off n : Uint} (device : (s.inode k).dinode.type = T_DEV) {stop : String → Prop} :
    Ends (readi sb devsw k off n) s (fun _ s' => s' = s) stop := by
  have same : s.setDinode k s.disk (s.inode k).dinode = s := by
    unfold State.setDinode
    rw [update_eq_self]
  unfold readi Superblock.readi
  rw [ends_bind, ends_get, if_pos device]
  split
  · exact same
  · cases devsw.read (s.inode k).dinode.major.toNat <;> exact same

namespace Act

theorem sound (sound : Sound sb s) (a : Act) (allowed : a.Allowed sb s) :
    Ends (a.run sb devsw) s (fun _ s' => Sound sb s') Other := by
  cases a with
  | iget inum =>
    unfold run
    rw [ends_bind]
    exact sound.iget allowed (by decide)
  | idup k =>
    unfold run Fs.idup
    simp only [ends_bind, ends_modifyInode, ends_pure]
    exact sound.same_inode (fun _ => allowed) rfl id rfl
  | ialloc type =>
    unfold run
    rw [ends_bind]
    apply ends_ialloc sound (by decide)
    intro i d' small _ _ _ sound'
    exact sound'.iget small (by decide)
  | setNlink k nlink =>
    apply ends_locked sound allowed do
      modifyInode k fun ip => { ip with dinode := { ip.dinode with nlink := nlink } }
      iupdate sb k
    intro s sound live locked valid
    apply ends_iupdate (f := fun ip => { ip with nlink := nlink }) sound live valid rfl rfl rfl
    intro d' _ _ sound'
    rw [State.setDinode_self]
    exact ⟨sound', live, locked⟩
  | readi k off n =>
    apply ends_locked sound allowed _
    intro s sound live locked valid
    by_cases device : (s.inode k).dinode.type = T_DEV
    · apply (ends_device_read device).weaken
      intro _ s' same
      subst same
      exact ⟨sound, live, locked⟩
    · apply ends_readi sound live valid device
      · exact fun _ => ⟨sound, live, locked⟩
      · exact fun _ => ⟨sound, live, locked⟩
  | writei k src off n =>
    apply ends_locked sound allowed _
    intro s sound live locked valid
    by_cases device : (s.inode k).dinode.type = T_DEV
    · apply (ends_device_write device).weaken
      intro _ s' same
      subst same
      exact ⟨sound, live, locked⟩
    · apply ends_writei sound live valid device
      · exact fun _ => ⟨sound, live, locked⟩
      · exact fun _ _ => by decide
      · intro d' ip' _ _ sound'
        rw [State.setDinode_self]
        exact ⟨sound', live, locked⟩
  | itrunc k =>
    apply ends_locked sound allowed _
    intro s sound live locked valid
    apply ends_itrunc sound live valid
    intro d' changed
    have type := (sound.copies k live valid)
    rw [State.setDinode_self]
    refine ⟨sound.changed live _ rfl changed (fun _ => filled_empty rfl) ?_, live, locked⟩
    intro _ _
    refine ⟨rfl, ?_⟩
    rw [Dinode.truncated, type.1]
    exact type.2
  | iput k => exact sound.iput allowed (by decide)

/-- The blocks that `writei` allocates for inode `i` are in the range that it writes, and zero outside of it. -/
def NewZero (sb : Superblock) (d d' : Disk) (i lo hi : Nat) : Prop :=
  ∀ j, j < MAXFILE * BSIZE → addr d (sb.dinode d i) (j / BSIZE) = 0 → addr d' (sb.dinode d' i) (j / BSIZE) ≠ 0 →
    (∃ l, lo ≤ l ∧ l < hi ∧ l / BSIZE = j / BSIZE) ∧ (j < lo ∨ hi ≤ j → byte d' (sb.dinode d' i) j = 0)

theorem newZero (sound : Sound sb s) {src : Nat → UInt8} {off n : Uint} (live : 0 < (s.inode k).ref) :
    Ends ((writei k src off n).run sb devsw) s
      (fun _ s' => NewZero sb s.disk s'.disk (s.inode k).inum off.toNat (off.toNat + n.toNat)) Other := by
  unfold run
  rw [ends_bind]
  apply ends_ilock sound live (fun _ => by decide) (fun _ => by decide)
  intro _ type
  rw [ends_bind]
  have locked := sound.lock type
  have unlock : ∀ s' : State, 0 < (s'.inode k).ref → (s'.inode k).locked = true →
      NewZero sb s.disk s'.disk (s.inode k).inum off.toNat (off.toNat + n.toNat) → Ends (iunlock k) s'
        (fun _ s' => NewZero sb s.disk s'.disk (s.inode k).inum off.toNat (off.toNat + n.toNat)) Other :=
    fun s' live locked zero => ends_iunlock live locked zero
  have same : NewZero sb s.disk s.disk (s.inode k).inum off.toNat (off.toNat + n.toNat) :=
    fun _ _ none some => absurd none some
  have self : (s.setInode k { s.inode k with
      lock := some .caller, valid := true, dinode := sb.dinode s.disk (s.inode k).inum }).inode k = _ := State.setInode_self
  by_cases device : (sb.dinode s.disk (s.inode k).inum).type = T_DEV
  · apply (ends_device_write (by rw [self]; exact device)).weaken
    intro _ s' eq
    subst eq
    exact unlock _ (by rw [self]; exact live) (by rw [self]; rfl) same
  · apply ends_writei locked (by rw [self]; exact live) (by rw [self]) (by rw [self]; exact device)
    · exact fun _ => unlock _ (by rw [self]; exact live) (by rw [self]; rfl) same
    · exact fun _ _ => by decide
    · intro d' ip' _ written _
      rw [self] at written
      apply unlock _ (by rw [State.setDinode_self, self]; exact live) (by rw [State.setDinode_self, self]; rfl)
      intro j low none some
      rw [State.setDinode_disk, written.changed.self] at some ⊢
      exact ⟨written.fresh _ (block_lt low) none some, fun away => written.zero j low away none some⟩

end Act

theorem Sound.run {start : State} {past : List (State × Act)} (sound : Sound sb start)
    (path : Path (Act.step sb devsw) start past s) : Sound sb s :=
  path.always sound fun held taken => (Act.sound held _ taken.1).ok taken.2

/-- In every state between operations the block numbers of the inodes are those of the data blocks in use, each occurs
once, new blocks read as zero, and `bfree` does not panic. -/
theorem blocks_not_shared {start : State} {past : List (State × Act)} (sound : Sound sb start)
    (path : Path (Act.step sb devsw) start past s) :
    (∀ x b, refs sb s.disk (sb.dinode s.disk) x = some b → sb.DataBlock b ∧ sb.used s.disk b = true) ∧
    (∀ x y b, refs sb s.disk (sb.dinode s.disk) x = some b → refs sb s.disk (sb.dinode s.disk) y = some b → x = y) ∧
    (∀ b, sb.DataBlock b → sb.used s.disk b = true → ∃ x, refs sb s.disk (sb.dinode s.disk) x = some b) ∧
    (∀ k, 0 < (s.inode k).ref → (s.inode k).valid = true → (s.inode k).dinode = sb.dinode s.disk (s.inode k).inum) ∧
    (∀ k src off n s', Act.step sb devsw s (.writei k src off n) s' →
      Act.NewZero sb s.disk s'.disk (s.inode k).inum off.toNat (off.toNat + n.toNat)) ∧
    ∀ a : Act, a.Allowed sb s → a.run sb devsw s ≠ .error "freeing free block" := by
  have held := sound.run path
  refine ⟨held.blocks.exact.sound, held.blocks.exact.distinct, ?_, ?_, ?_, ?_⟩
  · exact fun b data in_use => held.blocks.exact.complete b ⟨data, in_use⟩
  · exact fun k live valid => (held.copies k live valid).1
  · exact fun k src off n s' taken => (Act.newZero held taken.1).ok taken.2
  · exact fun a allowed failed => (Act.sound held a allowed).error failed rfl

def firstFile : Fin NINODE := ⟨0, ninode_pos⟩

def secondFile : Fin NINODE := ⟨1, by decide⟩

/-- Two files are written, the first one in two blocks, which is then truncated and freed. -/
def writesRun : List Act :=
  [.ialloc T_FILE, .writei firstFile (fun _ => 7) 0 600, .ialloc T_FILE, .writei secondFile (fun _ => 9) 0 3,
    .itrunc firstFile, .iput firstFile]

theorem blocks_not_shared_of_write : ∃ past s, Path (Act.step Mkfs.sb noDevice) Mkfs.formatted past s ∧
    past.length = 6 ∧ refs Mkfs.sb s.disk (Mkfs.sb.dinode s.disk) (2, 0) = some 61 ∧
    (∀ b, Mkfs.sb.DataBlock b → Mkfs.sb.used s.disk b = true →
      ∃ x, refs Mkfs.sb s.disk (Mkfs.sb.dinode s.disk) x = some b) := by
  obtain ⟨past, s, path, test⟩ := replay_reaches (Act.next Mkfs.sb noDevice) Mkfs.formatted writesRun
    (fun past s => decide (past.length = 6 ∧ refs Mkfs.sb s.disk (Mkfs.sb.dinode s.disk) (2, 0) = some 61))
    (by decide +kernel)
  have path := path.mono Act.next_step
  have facts := of_decide_eq_true test
  exact ⟨past, s, path, facts.1, facts.2, (blocks_not_shared Mkfs.sound_formatted path).2.2.1⟩

end Xv6.Fs
