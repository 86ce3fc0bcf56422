import Xv6.Fs.Room
import Xv6.Fs.Sharing

namespace Xv6.Fs

open Function Bytes Outcome

variable {sb : Superblock} {devsw : Devsw} {s s' : State} {k : Fin NINODE} {i j : Nat} {asked : Finset (Nat × Nat)}

abbrev ByteArrayFile := List UInt8

namespace ByteArrayFile

/-- Bytes `off` to `off + n` are replaced, and the array grows where they end after it. -/
def writei (file : ByteArrayFile) (src : Nat → UInt8) (off n : Nat) : Int × ByteArrayFile :=
  if file.length < off ∨ 2 ^ 32 ≤ off + n ∨ MAXFILE * BSIZE < off + n then (-1, file)
  else (n, file.take off ++ (List.range n).map src ++ file.drop (off + n))

/-- The bytes from `off` to `off + n` or to the end of the array. -/
def readi (file : ByteArrayFile) (off n : Nat) : Int × List UInt8 :=
  if file.length < off ∨ 2 ^ 32 ≤ off + n then (-1, []) else (((file.drop off).take n).length, (file.drop off).take n)

end ByteArrayFile

def contents (sb : Superblock) (d : Disk) (i : Nat) : ByteArrayFile :=
  if i < sb.ninodes ∧ (sb.dinode d i).type ≠ 0 then (List.range (sb.dinode d i).size.toNat).map (byte d (sb.dinode d i)) else []

theorem contents_eq {d : Disk} (small : i < sb.ninodes) (allocated : (sb.dinode d i).type ≠ 0) :
    contents sb d i = (List.range (sb.dinode d i).size.toNat).map (byte d (sb.dinode d i)) :=
  if_pos ⟨small, allocated⟩

theorem splice_eq {old new src : Nat → UInt8} {size off n : Nat} (start : off ≤ size)
    (inside : ∀ k, off ≤ k → k < off + n → new k = src (k - off))
    (outside : ∀ k, k < size → k < off ∨ off + n ≤ k → new k = old k) :
    ((List.range size).map old).take off ++ (List.range n).map src ++ ((List.range size).map old).drop (off + n) =
      (List.range (max size (off + n))).map new := by
  apply List.ext_getElem
  · simp
    omega
  · intro k low low'
    have high : k < max size (off + n) := by simpa using low'
    rw [List.getElem_map, List.getElem_range]
    by_cases first : k < off
    · rw [outside k (by omega) (.inl first), List.getElem_append_left (by simp; omega), List.getElem_append_left (by simp; omega)]
      simp
    · by_cases second : k < off + n
      · rw [inside k (by omega) second, List.getElem_append_left (by simp; omega), List.getElem_append_right (by simp; omega)]
        simp [Nat.min_eq_left start]
      · rw [outside k (by omega) (.inr (by omega)), List.getElem_append_right (by simp; omega)]
        simp [Nat.min_eq_left start]
        congr 1
        omega

theorem slice_eq (f : Nat → UInt8) (size off n : Nat) :
    (((List.range size).map f).drop off).take n = (List.range (min n (size - off))).map fun k => f (off + k) := by
  apply List.ext_getElem
  · simp
  · intro k low low'
    simp

theorem Changed.refs {d d' : Disk} {ip' : Dinode} (changed : Changed sb d i ip' d') (ne : j ≠ i) (l : Nat) :
    refs sb d' (sb.dinode d') (j, l) = Fs.refs sb d (sb.dinode d) (j, l) := by
  unfold Fs.refs
  dsimp only
  by_cases inside : j < sb.ninodes ∧ (sb.dinode d j).type ≠ 0
  · rw [changed.dinodes j inside.1 ne, (changed.keeps j inside.1 ne inside.2).ref]
  · by_cases small : j < sb.ninodes
    · rw [changed.dinodes j small ne, if_neg fun h => inside ⟨h.1, h.2.1⟩, if_neg fun h => inside ⟨h.1, h.2.1⟩]
    · rw [if_neg fun h => small h.1, if_neg fun h => small h.1]

theorem Changed.contents {d d' : Disk} {ip' : Dinode} (changed : Changed sb d i ip' d') (ne : j ≠ i)
    (held : j < sb.ninodes → (sb.dinode d j).type ≠ 0 → Filled d (sb.dinode d j)) :
    contents sb d' j = Fs.contents sb d j := by
  unfold Fs.contents
  by_cases inside : j < sb.ninodes ∧ (sb.dinode d j).type ≠ 0
  · rw [changed.dinodes j inside.1 ne, if_pos inside, if_pos inside]
    apply List.map_congr_left
    intro k member
    have low := List.mem_range.mp member
    have filled := held inside.1 inside.2
    have bound := filled.bound
    exact (changed.keeps j inside.1 ne inside.2).byte (by omega) (filled.dense k low)
  · by_cases small : j < sb.ninodes
    · rw [changed.dinodes j small ne, if_neg inside, if_neg inside]
    · rw [if_neg fun h => small h.1, if_neg fun h => small h.1]

theorem Written.contents {d d' : Disk} {ip' : Dinode} {src : Nat → UInt8} {off n : Nat} (small : i < sb.ninodes)
    (allocated : (sb.dinode d i).type ≠ 0) (accepted : Accepted (sb.dinode d i).size.toNat off n)
    (written : Written sb d i off (off + n) (fun k => src (k - off)) d' ip') :
    contents sb d' i = ((Fs.contents sb d i).writei src off n).2 := by
  have type : ip'.type = (sb.dinode d i).type := by rw [written.fields]
  have size : ip'.size.toNat = max (sb.dinode d i).size.toNat (off + n) := by
    have start := accepted.1
    rw [written.size]
    split <;> omega
  unfold Accepted at accepted
  rw [contents_eq small (by rw [written.changed.self, type]; exact allocated), contents_eq small allocated,
    written.changed.self, ByteArrayFile.writei, if_neg, size]
  · exact (splice_eq accepted.1 written.bytes written.outside).symm
  · rw [List.length_map, List.length_range]
    omega

/-- Only the slots that the bytes are found through change, and these hold block numbers then. -/
theorem Written.refs {d d' : Disk} {ip' : Dinode} {lo hi l : Nat} {content : Nat → UInt8}
    (written : Written sb d i lo hi content d' ip') (away : l ∉ slotsOfBytes lo hi) :
    refs sb d' (sb.dinode d') (i, l) = Fs.refs sb d (sb.dinode d) (i, l) := by
  have type : ip'.type = (sb.dinode d i).type := by rw [written.fields]
  unfold Fs.refs
  dsimp only
  rw [written.changed.self, type, written.slots l away]

theorem Written.refs_taken {d d' : Disk} {ip' : Dinode} {lo hi l : Nat} {content : Nat → UInt8}
    (written : Written sb d i lo hi content d' ip') (small : i < sb.ninodes) (allocated : (sb.dinode d i).type ≠ 0)
    (bound : hi ≤ MAXFILE * BSIZE) (here : l ∈ slotsOfBytes lo hi) : Fs.refs sb d' (sb.dinode d') (i, l) ≠ none := by
  obtain ⟨k, low, high, member⟩ := mem_slotsOfBytes.mp here
  have slot : l < SLOTS := slotsOf_lt (block_lt (by omega)) member
  have type : ip'.type = (sb.dinode d i).type := by rw [written.fields]
  apply Option.isSome_iff_ne_none.mp
  apply Option.isSome_iff_exists.mpr
  refine ⟨ref d' ip' l, refs_eq_some.mpr ?_⟩
  rw [written.changed.self, type]
  exact ⟨⟨small, allocated, slot⟩, rfl, written.taken l here⟩

inductive Access where
  | readi (k : Fin NINODE) (off n : Uint)
  | writei (k : Fin NINODE) (src : Nat → UInt8) (off n : Uint)

namespace Access

def slot : Access → Fin NINODE
  | readi k _ _ | writei k _ _ _ => k

def run (sb : Superblock) (devsw : Devsw) : Access → Op (Int × List UInt8)
  | readi k off n => do
    ilock sb k
    let answer ← Fs.readi sb devsw k off n
    iunlock k
    return answer
  | writei k src off n => do
    ilock sb k
    let count ← Fs.writei sb devsw k src off n
    iunlock k
    return (count, [])

def onBytes (inum : Nat) (files : Nat → ByteArrayFile) : Access → (Int × List UInt8) × (Nat → ByteArrayFile)
  | readi _ off n => ((files inum).readi off.toNat n.toNat, files)
  | writei _ src off n =>
    ((((files inum).writei src off.toNat n.toNat).1, []), update files inum ((files inum).writei src off.toNat n.toNat).2)

/-- The slots that an access needs blocks for: those of the bytes that it writes. -/
def needs (inum : Nat) (files : Nat → ByteArrayFile) : Access → Finset (Nat × Nat)
  | readi _ _ _ => ∅
  | writei _ _ off n =>
    if (files inum).length < off.toNat ∨ 2 ^ 32 ≤ off.toNat + n.toNat ∨ MAXFILE * BSIZE < off.toNat + n.toNat then ∅
    else {inum} ×ˢ slotsOfBytes off.toNat (off.toNat + n.toNat)

end Access

/-- A reference to a regular file whose lock is free. -/
structure Opened (sb : Superblock) (s : State) (k : Fin NINODE) : Prop where
  live : 0 < (s.inode k).ref
  unlocked : (s.inode k).locked = false
  type : (sb.dinode s.disk (s.inode k).inum).type = T_FILE

/-- What an access that asks for blocks in some slots leaves as it is. -/
structure Stays (sb : Superblock) (asked : Finset (Nat × Nat)) (s s' : State) : Prop where
  opened : ∀ k, Opened sb s k → Opened sb s' k ∧ (s'.inode k).inum = (s.inode k).inum
  others : ∀ x, x ∉ asked → refs sb s'.disk (sb.dinode s'.disk) x = refs sb s.disk (sb.dinode s.disk) x
  keeps : ∀ x, refs sb s.disk (sb.dinode s.disk) x ≠ none → refs sb s'.disk (sb.dinode s'.disk) x ≠ none

namespace Stays

theorem of_read {ip : Inode} (inum : ip.inum = (s.inode k).inum) (ref : ip.ref = (s.inode k).ref)
    (locked : ip.locked = false) : Stays sb asked s (s.setInode k ip) where
  opened l opened := by
    by_cases here : l = k
    · subst here
      rw [State.setInode_self]
      refine ⟨⟨?_, ?_, ?_⟩, inum⟩
      · rw [State.setInode_self, ref]
        exact opened.live
      · rw [State.setInode_self, locked]
      · rw [State.setInode_self, inum]
        exact opened.type
    · rw [State.setInode_of_ne here]
      refine ⟨⟨?_, ?_, ?_⟩, rfl⟩
      · rw [State.setInode_of_ne here]
        exact opened.live
      · rw [State.setInode_of_ne here]
        exact opened.unlocked
      · rw [State.setInode_of_ne here]
        exact opened.type
  others _ _ := rfl
  keeps _ some := some

theorem of_write (sound : Sound sb s) (live : 0 < (s.inode k).ref) {lo hi : Nat} {content : Nat → UInt8} {d' : Disk}
    {ip' : Dinode} {ip : Inode} (written : Written sb s.disk (s.inode k).inum lo hi content d' ip')
    (allocated : (sb.dinode s.disk (s.inode k).inum).type ≠ 0) (bound : hi ≤ MAXFILE * BSIZE)
    (inum : ip.inum = (s.inode k).inum) (ref : ip.ref = (s.inode k).ref) (locked : ip.locked = false) :
    Stays sb ({(s.inode k).inum} ×ˢ slotsOfBytes lo hi) s ⟨d', update s.inode k ip⟩ where
  opened l opened := by
    have changed := written.changed
    dsimp only
    by_cases here : l = k
    · subst here
      rw [update_self]
      refine ⟨⟨?_, ?_, ?_⟩, inum⟩
      · dsimp only
        rw [update_self, ref]
        exact live
      · dsimp only
        rw [update_self, locked]
      · dsimp only
        rw [update_self, inum, changed.self, written.fields]
        exact opened.type
    · rw [update_of_ne here]
      have ne : (s.inode l).inum ≠ (s.inode k).inum := fun same => here (sound.unique l k opened.live live same)
      refine ⟨⟨?_, ?_, ?_⟩, rfl⟩
      · dsimp only
        rw [update_of_ne here]
        exact opened.live
      · dsimp only
        rw [update_of_ne here]
        exact opened.unlocked
      · dsimp only
        rw [update_of_ne here, changed.dinodes _ (sound.inside l opened.live) ne]
        exact opened.type
  others x away := by
    obtain ⟨j, l⟩ := x
    by_cases mine : j = (s.inode k).inum
    · subst mine
      exact written.refs fun member => away (Finset.mk_mem_product (Finset.mem_singleton_self _) member)
    · exact written.changed.refs mine l
  keeps x some := by
    obtain ⟨j, l⟩ := x
    by_cases mine : j = (s.inode k).inum
    · subst mine
      by_cases member : l ∈ slotsOfBytes lo hi
      · exact written.refs_taken (sound.inside k live) allocated bound member
      · rw [← written.refs member] at some
        exact some
    · rw [← written.changed.refs mine l] at some
      exact some

theorem mono {wider : Finset (Nat × Nat)} (stays : Stays sb asked s s') (sub : asked ⊆ wider) : Stays sb wider s s' :=
  ⟨stays.opened, fun x away => stays.others x fun member => away (sub member), stays.keeps⟩

theorem room (stays : Stays sb asked s s') :
    Room sb s'.disk (sb.dinode s'.disk) asked ↔ Room sb s.disk (sb.dinode s.disk) asked := Room.congr stays.others

end Stays

theorem ends_opened {α β : Type} (sound : Sound sb s) (opened : Opened sb s k) (body : Op α) (f : α → β)
    {post : β → State → Prop} {stop : String → Prop}
    (run : ∀ ip : Inode, ip = { s.inode k with lock := some .caller, valid := true, dinode := sb.dinode s.disk (s.inode k).inum } →
      Sound sb (s.setInode k ip) → Ends body (s.setInode k ip) (fun a s' => 0 < (s'.inode k).ref ∧ (s'.inode k).locked = true ∧
        post (f a) (s'.setInode k { s'.inode k with lock := none })) stop) :
    Ends (do ilock sb k; let a ← body; iunlock k; return f a) s post stop := by
  rw [ends_bind]
  apply ends_ilock sound opened.live
  · intro held
    rw [opened.unlocked] at held
    cases held
  · intro free
    rw [opened.type] at free
    cases free
  · intro _ type
    rw [ends_bind]
    apply (run _ rfl (sound.lock type)).weaken
    intro a s' ⟨live, locked, done⟩
    rw [ends_bind]
    exact ends_iunlock live locked done

theorem Sound.read (sound : Sound sb s) (opened : Opened sb s k) :
    Sound sb (s.setInode k { s.inode k with lock := none, valid := true, dinode := sb.dinode s.disk (s.inode k).inum }) := by
  apply Sound.set_inode sound
  · exact fun _ => sound.inside k opened.live
  · intro _ _
    refine ⟨rfl, ?_⟩
    rw [opened.type]
    decide
  · exact fun l ne live live' same => ne (sound.unique l k live' live same)

theorem Opened.length (sound : Sound sb s) (opened : Opened sb s k) :
    (contents sb s.disk (s.inode k).inum).length = (sb.dinode s.disk (s.inode k).inum).size.toNat := by
  rw [contents_eq (sound.inside k opened.live), List.length_map, List.length_range]
  rw [opened.type]
  decide

namespace Access

theorem ends_readi (asked : Finset (Nat × Nat)) (sound : Sound sb s) (opened : Opened sb s k) {off n : Uint} {stop : String → Prop} :
    Ends ((readi k off n).run sb devsw) s
      (fun answer s' => Sound sb s' ∧ Stays sb asked s s' ∧
        (answer, contents sb s'.disk) = (readi k off n).onBytes (s.inode k).inum (contents sb s.disk)) stop := by
  have length := opened.length sound
  apply ends_opened sound opened _ id
  intro ip eq locked
  have self : (s.setInode k ip).inode k = ip := State.setInode_self
  have regular : ip.dinode.type ≠ T_DEV := by
    rw [eq, opened.type]
    decide
  have live : 0 < ip.ref := by
    rw [eq]
    exact opened.live
  have size : ip.dinode.size.toNat = (sb.dinode s.disk (s.inode k).inum).size.toNat := by rw [eq]
  have entry : ({ ip with lock := none } : Inode) =
      { s.inode k with lock := none, valid := true, dinode := sb.dinode s.disk (s.inode k).inum } := by rw [eq]
  apply Fs.ends_readi locked
  · rwa [self]
  · rw [self, eq]
  · rwa [self]
  · rw [self]
    intro refused
    refine ⟨live, by rw [eq]; rfl, ?_⟩
    rw [State.setInode_setInode, entry]
    refine ⟨sound.read opened, .of_read rfl rfl rfl, ?_⟩
    show _ = (ByteArrayFile.readi _ _ _, contents sb s.disk)
    rw [ByteArrayFile.readi, if_pos]
    · rfl
    · unfold Readable at refused
      omega
  · rw [self]
    intro readable
    refine ⟨live, by rw [eq]; rfl, ?_⟩
    rw [State.setInode_setInode, entry]
    refine ⟨sound.read opened, .of_read rfl rfl rfl, ?_⟩
    have allocated : (sb.dinode s.disk (s.inode k).inum).type ≠ 0 := by
      rw [opened.type]
      decide
    show _ = (ByteArrayFile.readi _ _ _, contents sb s.disk)
    rw [ByteArrayFile.readi, if_neg]
    · rw [contents_eq (sound.inside k opened.live) allocated, slice_eq, List.length_map, List.length_range, size, eq]
      rfl
    · unfold Readable at readable
      omega

theorem needs_writei (src : Nat → UInt8) (sound : Sound sb s) (opened : Opened sb s k) {off n : Uint}
    (accepted : Accepted (sb.dinode s.disk (s.inode k).inum).size.toNat off.toNat n.toNat) :
    (writei k src off n).needs (s.inode k).inum (contents sb s.disk) =
      {(s.inode k).inum} ×ˢ slotsOfBytes off.toNat (off.toNat + n.toNat) := by
  have length := opened.length sound
  unfold Accepted at accepted
  apply if_neg
  omega

/-- What an access does when blocks are free for it. -/
structure Performed (sb : Superblock) (asked : Finset (Nat × Nat)) (a : Access) (s : State) (answer : Int × List UInt8)
    (s' : State) : Prop where
  sound : Sound sb s'
  stays : Stays sb asked s s'
  taken : ∀ x ∈ a.needs (s.inode a.slot).inum (contents sb s.disk), refs sb s'.disk (sb.dinode s'.disk) x ≠ none
  same : (answer, contents sb s'.disk) = a.onBytes (s.inode a.slot).inum (contents sb s.disk)

theorem ends_writei (sound : Sound sb s) (opened : Opened sb s k) {src : Nat → UInt8} {off n : Uint}
    (sub : (writei k src off n).needs (s.inode k).inum (contents sb s.disk) ⊆ asked) :
    Ends ((writei k src off n).run sb devsw) s (Performed sb asked (writei k src off n) s)
      fun e => e = "balloc: out of blocks" ∧ ¬ Room sb s.disk (sb.dinode s.disk) asked := by
  have length := opened.length sound
  have small := sound.inside k opened.live
  have allocated : (sb.dinode s.disk (s.inode k).inum).type ≠ 0 := by
    rw [opened.type]
    decide
  apply ends_opened sound opened _ fun count => (count, [])
  intro ip eq locked
  have self : (s.setInode k ip).inode k = ip := State.setInode_self
  have inum : ip.inum = (s.inode k).inum := by rw [eq]
  have regular : ip.dinode.type ≠ T_DEV := by
    rw [eq, opened.type]
    decide
  have live : 0 < ip.ref := by
    rw [eq]
    exact opened.live
  have size : ip.dinode.size.toNat = (sb.dinode s.disk (s.inode k).inum).size.toNat := by rw [eq]
  have entry : ({ ip with lock := none } : Inode) =
      { s.inode k with lock := none, valid := true, dinode := sb.dinode s.disk (s.inode k).inum } := by rw [eq]
  apply Fs.ends_writei locked
  · rwa [self]
  · rw [self, eq]
  · rwa [self]
  · rw [self]
    intro refused
    refine ⟨live, by rw [eq]; rfl, ?_⟩
    rw [State.setInode_setInode, entry]
    have nothing : (writei k src off n).needs (s.inode k).inum (contents sb s.disk) = ∅ := by
      apply if_pos
      unfold Accepted at refused
      omega
    refine ⟨sound.read opened, .of_read rfl rfl rfl, fun x member => ?_, ?_⟩
    · have member : x ∈ (writei k src off n).needs (s.inode k).inum (contents sb s.disk) := member
      rw [nothing] at member
      exact absurd member (Finset.notMem_empty x)
    have same : (contents sb s.disk (s.inode k).inum).writei src off.toNat n.toNat = (-1, contents sb s.disk (s.inode k).inum) := by
      rw [ByteArrayFile.writei, if_pos]
      unfold Accepted at refused
      omega
    show _ = ((((contents sb s.disk (s.inode k).inum).writei src off.toNat n.toNat).1, _),
      update (contents sb s.disk) (s.inode k).inum ((contents sb s.disk (s.inode k).inum).writei src off.toNat n.toNat).2)
    rw [same, update_eq_self]
    rfl
  · rw [self, inum, size]
    intro accepted full
    refine ⟨rfl, fun room => room.not_full (fun l member => ?_) full⟩
    apply sub
    rw [needs_writei _ sound opened accepted]
    exact Finset.mk_mem_product (Finset.mem_singleton_self _) member
  · intro d' ip' accepted written sound'
    rw [self] at accepted written
    rw [inum] at written
    have written : Written sb s.disk (s.inode k).inum off.toNat (off.toNat + n.toNat) (fun j => src (j - off.toNat)) d' ip' :=
      written
    have type : ip'.type = (sb.dinode s.disk (s.inode k).inum).type := by rw [written.fields]
    rw [State.setDinode_self, self, State.setDinode_setInode]
    refine ⟨live, by rw [eq]; rfl, ?_⟩
    have same : update (update s.inode k ip) k { ip with lock := none, dinode := ip' } =
        update s.inode k { ip with lock := none, dinode := ip' } := update_idem ..
    show Performed sb asked (writei k src off n) s _
      ⟨d', update (update s.inode k ip) k { ip with lock := none, dinode := ip' }⟩
    rw [same]
    rw [size] at accepted
    have needs := needs_writei src sound opened accepted
    rw [needs] at sub
    refine ⟨?_, .mono (.of_write sound opened.live written allocated accepted.2.2 inum (by rw [eq]) rfl) sub, ?_, ?_⟩
    · apply sound.changed opened.live { ip with lock := none, dinode := ip' } inum written.changed fun _ => written.filled
      intro _ _
      refine ⟨rfl, ?_⟩
      rw [type]
      exact allocated
    · intro x member
      have member : x ∈ (writei k src off n).needs (s.inode k).inum (contents sb s.disk) := member
      rw [needs, Finset.mem_product, Finset.mem_singleton] at member
      have taken := written.refs_taken small allocated accepted.2.2 member.2
      rwa [← member.1] at taken
    · show _ = ((((contents sb s.disk (s.inode k).inum).writei src off.toNat n.toNat).1, _),
        update (contents sb s.disk) (s.inode k).inum ((contents sb s.disk (s.inode k).inum).writei src off.toNat n.toNat).2)
      have count : ((contents sb s.disk (s.inode k).inum).writei src off.toNat n.toNat).1 = n.toNat := by
        rw [ByteArrayFile.writei, if_neg]
        unfold Accepted at accepted
        omega
      rw [count, ← written.contents small allocated accepted]
      congr 1
      funext j
      by_cases here : j = (s.inode k).inum
      · subst here
        rw [update_self]
      · rw [update_of_ne here]
        exact written.changed.contents here (sound.filled j)

theorem ends_run (sound : Sound sb s) (a : Access) (opened : Opened sb s a.slot)
    (sub : a.needs (s.inode a.slot).inum (contents sb s.disk) ⊆ asked) :
    Ends (a.run sb devsw) s (Performed sb asked a s)
      fun e => e = "balloc: out of blocks" ∧ ¬ Room sb s.disk (sb.dinode s.disk) asked := by
  cases a with
  | readi k off n =>
    apply (ends_readi asked sound opened).weaken
    intro answer s' ⟨sound', stays, same⟩
    exact ⟨sound', stays, fun x member => absurd member (Finset.notMem_empty x), same⟩
  | writei k src off n => exact ends_writei sound opened sub

def runAll (sb : Superblock) (devsw : Devsw) (accesses : List Access) : Op (List (Int × List UInt8)) :=
  accesses.mapM (run sb devsw)

/-- The same on byte arrays, with the inodes that the entries of the cache hold. -/
def allOnBytes (inum : Fin NINODE → Nat) : List Access → (Nat → ByteArrayFile) → List (Int × List UInt8) × (Nat → ByteArrayFile)
  | [], files => ([], files)
  | a :: accesses, files =>
    let (answer, files) := a.onBytes (inum a.slot) files
    let (answers, files) := allOnBytes inum accesses files
    (answer :: answers, files)

theorem allOnBytes_congr (inum inum' : Fin NINODE → Nat) {accesses : List Access} {f : Nat → ByteArrayFile}
    (same : ∀ a ∈ accesses, inum a.slot = inum' a.slot) : allOnBytes inum accesses f = allOnBytes inum' accesses f := by
  induction accesses generalizing f with
  | nil => rfl
  | cons a accesses ih =>
    rw [allOnBytes, allOnBytes, same a (.head _)]
    dsimp only
    rw [ih fun b member => same b (.tail _ member)]

/-- The slots that the accesses need blocks for, one after the other. -/
def allNeeds (inum : Fin NINODE → Nat) : List Access → (Nat → ByteArrayFile) → Finset (Nat × Nat)
  | [], _ => ∅
  | a :: accesses, files =>
    a.needs (inum a.slot) files ∪ allNeeds inum accesses (a.onBytes (inum a.slot) files).2

theorem allNeeds_congr (inum inum' : Fin NINODE → Nat) {accesses : List Access} {f : Nat → ByteArrayFile}
    (same : ∀ a ∈ accesses, inum a.slot = inum' a.slot) : allNeeds inum accesses f = allNeeds inum' accesses f := by
  induction accesses generalizing f with
  | nil => rfl
  | cons a accesses ih => rw [allNeeds, allNeeds, same a (.head _), ih fun b member => same b (.tail _ member)]

/-- What a sequence of accesses does when blocks are free for it. -/
structure PerformedAll (sb : Superblock) (asked : Finset (Nat × Nat)) (accesses : List Access) (s : State)
    (answers : List (Int × List UInt8)) (s' : State) : Prop where
  sound : Sound sb s'
  others : ∀ x, x ∉ asked → refs sb s'.disk (sb.dinode s'.disk) x = refs sb s.disk (sb.dinode s.disk) x
  keeps : ∀ x, refs sb s.disk (sb.dinode s.disk) x ≠ none → refs sb s'.disk (sb.dinode s'.disk) x ≠ none
  taken : ∀ x ∈ allNeeds (fun k => (s.inode k).inum) accesses (contents sb s.disk),
    refs sb s'.disk (sb.dinode s'.disk) x ≠ none
  same : (answers, contents sb s'.disk) = allOnBytes (fun k => (s.inode k).inum) accesses (contents sb s.disk)

theorem ends_runAll (devsw : Devsw) (sound : Sound sb s) (accesses : List Access)
    (opened : ∀ a ∈ accesses, Opened sb s a.slot)
    (sub : allNeeds (fun k => (s.inode k).inum) accesses (contents sb s.disk) ⊆ asked) :
    Ends (runAll sb devsw accesses) s (PerformedAll sb asked accesses s)
      fun e => e = "balloc: out of blocks" ∧ ¬ Room sb s.disk (sb.dinode s.disk) asked := by
  unfold runAll
  induction accesses generalizing s with
  | nil => exact ⟨sound, fun _ _ => rfl, fun _ => id, fun x member => absurd member (Finset.notMem_empty x), rfl⟩
  | cons a accesses ih =>
    rw [allNeeds] at sub
    obtain ⟨now, later⟩ := Finset.union_subset_iff.mp sub
    rw [List.mapM_cons, ends_bind]
    apply (ends_run sound a (opened a (.head _)) now).weaken
    intro answer s' performed
    have inums : ∀ b ∈ accesses, (s'.inode b.slot).inum = (s.inode b.slot).inum :=
      fun b later => (performed.stays.opened _ (opened b (.tail _ later))).2
    have needs : allNeeds (fun k => (s'.inode k).inum) accesses (contents sb s'.disk) =
        allNeeds (fun k => (s.inode k).inum) accesses (a.onBytes (s.inode a.slot).inum (contents sb s.disk)).2 := by
      rw [allNeeds_congr _ (fun k => (s.inode k).inum) inums, ← performed.same]
    have rest := ih performed.sound (fun b later => (performed.stays.opened _ (opened b (.tail _ later))).1) (needs ▸ later)
    rw [ends_bind]
    apply rest.mono
    · intro answers s'' done
      have same' := done.same
      rw [allOnBytes_congr _ (fun k => (s.inode k).inum) inums] at same'
      exact
        { sound := done.sound
          others := fun x away => (done.others x away).trans (performed.stays.others x away)
          keeps := fun x some => done.keeps x (performed.stays.keeps x some)
          taken := fun x member => by
            rcases Finset.mem_union.mp member with here | further
            · exact done.keeps x (performed.taken x here)
            · exact done.taken x (needs ▸ further)
          same := by
            show (answer :: answers, contents sb s''.disk) = _
            rw [allOnBytes, ← performed.same]
            dsimp only
            rw [← same'] }
    · exact fun e ⟨eq, full⟩ => ⟨eq, fun room => full (performed.stays.room.mpr room)⟩

end Access

/-- Every sequence of reads and writes of regular files has the answers and the effect that it has on byte arrays, where
    no other file changes, unless fewer blocks are free than its writes need: then it panics. -/
theorem files_are_byte_arrays (devsw : Devsw) (sound : Sound sb s) (accesses : List Access)
    (opened : ∀ a ∈ accesses, Opened sb s a.slot) :
    ((∃ answers s', Access.runAll sb devsw accesses s = .ok (answers, s') ∧
      (answers, contents sb s'.disk) = Access.allOnBytes (fun k => (s.inode k).inum) accesses (contents sb s.disk)) ∧
      (emptySlots sb s.disk (sb.dinode s.disk)
        (Access.allNeeds (fun k => (s.inode k).inum) accesses (contents sb s.disk))).card ≤ (freeBlocks sb s.disk).card) ∨
    Access.runAll sb devsw accesses s = .error "balloc: out of blocks" ∧
      (freeBlocks sb s.disk).card < (emptySlots sb s.disk (sb.dinode s.disk)
        (Access.allNeeds (fun k => (s.inode k).inum) accesses (contents sb s.disk))).card := by
  have ends := Access.ends_runAll devsw sound accesses opened (Finset.Subset.refl _)
  cases ran : Access.runAll sb devsw accesses s with
  | ok r =>
    have done := ends.ok ran
    refine .inl ⟨⟨r.1, r.2, rfl, done.same⟩, (Room.iff_free sound.blocks).mp ?_⟩
    exact (Room.congr done.others).mp (.of_taken done.sound.blocks done.taken)
  | error e =>
    obtain ⟨rfl, full⟩ := ends.error ran
    refine .inr ⟨rfl, ?_⟩
    by_contra enough
    exact full ((Room.iff_free sound.blocks).mpr (Nat.le_of_not_lt enough))

instance (s : State) (k : Fin NINODE) : Decidable (Opened sb s k) :=
  decidable_of_iff (0 < (s.inode k).ref ∧ (s.inode k).locked = false ∧ (sb.dinode s.disk (s.inode k).inum).type = T_FILE)
    ⟨fun h => ⟨h.1, h.2.1, h.2.2⟩, fun h => ⟨h.live, h.unlocked, h.type⟩⟩

/-- Two files are written, and one of them is read past a block and past its end. -/
def twoFiles : List Access :=
  [.writei firstFile (fun k => UInt8.ofNat k) 0 514, .writei secondFile (fun _ => 9) 0 3, .writei secondFile (fun _ => 9) 4 1,
    .readi firstFile 510 9]

/-- The files can be accessed, and the accesses answer as they should. -/
def twoFilesTest (s : State) : Bool :=
  decide ((∀ a ∈ twoFiles, Opened Mkfs.sb s a.slot) ∧
    (Access.runAll Mkfs.sb noDevice twoFiles s).toOption.map (fun r => r.1.map Prod.fst) = some [514, 3, -1, 4])

theorem files_are_byte_arrays_of_two : ∃ s answers s', Sound Mkfs.sb s ∧ (∀ a ∈ twoFiles, Opened Mkfs.sb s a.slot) ∧
    Access.runAll Mkfs.sb noDevice twoFiles s = .ok (answers, s') ∧
    (answers, contents Mkfs.sb s'.disk) =
      Access.allOnBytes (fun k => (s.inode k).inum) twoFiles (contents Mkfs.sb s.disk) ∧
    answers.map Prod.fst = [514, 3, -1, 4] := by
  obtain ⟨past, s, path, test⟩ := Transition.replay_reaches (Act.next Mkfs.sb noDevice) Mkfs.formatted
    [.ialloc T_FILE, .ialloc T_FILE] (fun _ s => twoFilesTest s) (by decide +kernel)
  have sound := Mkfs.sound_formatted.run (path.mono Act.next_step)
  obtain ⟨opened, ran⟩ := of_decide_eq_true test
  rcases files_are_byte_arrays noDevice sound twoFiles opened with ⟨⟨answers, s', ran', same⟩, -⟩ | ⟨failed, -⟩
  · rw [ran'] at ran
    exact ⟨s, answers, s', sound, opened, ran', same, Option.some.inj ran⟩
  · rw [failed] at ran
    cases ran

end Xv6.Fs
