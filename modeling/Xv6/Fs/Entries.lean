import Mathlib.Algebra.Ring.Nat
import Xv6.Library.Slots
import Xv6.Fs.Directory
import Xv6.Fs.Mkfs
import Xv6.Fs.Room

namespace Xv6.Fs

open Function Bytes Outcome

section

variable {sb : Superblock} {devsw : Devsw} {s s' : State} {k : Fin NINODE} {d d' : Disk} {ip ip' : Dinode}
  {name other : Chars} {i j n bn : Nat}

/-! ### Blocks for one more entry -/

/-- A slot of a directory: the name and the inode number if it is in use. -/
def slotAt (d : Disk) (ip : Dinode) (j : Nat) : Option (Chars × Short) :=
  if (entry d ip j).inum = 0 then none else some ((entry d ip j).name, (entry d ip j).inum)

/-- Inode `k` is a directory of `n` entries with distinct names that the caller has locked, and it holds the lock of no
    inode that is not in use. -/
structure Directory (sb : Superblock) (s : State) (k : Fin NINODE) (n : Nat) : Prop where
  sound : Sound sb s
  live : 0 < (s.inode k).ref
  valid : (s.inode k).valid = true
  locked : (s.inode k).locked = true
  type : (s.inode k).dinode.type = T_DIR
  size : (s.inode k).dinode.size.toNat = 16 * n
  distinct : Slots.Distinct (slotAt s.disk (s.inode k).dinode) n
  idle : ∀ l, (s.inode l).ref = 0 → (s.inode l).locked = false

/-- Where the name is in the directory, and its inode number. -/
def find (s : State) (k : Fin NINODE) (n : Nat) (name : Chars) : Option (Nat × Short) :=
  Slots.lookup (slotAt s.disk (s.inode k).dinode) (name.take DIRSIZ) n

/-- What `dirlookup` makes of that. -/
def answer : Option (Nat × Short) → Op (Option (Fin NINODE × Nat))
  | none => return none
  | some (j, inum) => do
    let ip ← iget inum.toNat
    return some (ip, 16 * j)

theorem slotAt_eq_some {name : Chars} {inum : Short} :
    slotAt d ip j = some (name, inum) ↔ (entry d ip j).inum ≠ 0 ∧ (entry d ip j).name = name ∧ (entry d ip j).inum = inum := by
  unfold slotAt
  split
  · rename_i unused
    constructor
    · intro some
      cases some
    · exact fun used => absurd unused used.1
  · rename_i used
    rw [Option.some.injEq, Prod.mk.injEq]
    exact (and_iff_right used).symm

namespace Directory

theorem regular (dir : Directory sb s k n) : (s.inode k).dinode.type ≠ T_DEV := by
  rw [dir.type]
  decide

theorem dirlookup_run (devsw : Devsw) (dir : Directory sb s k n) (string : 0 ∉ name) :
    dirlookup sb devsw k name s = answer (find s k n name) s := by
  have ends : Ends (dirlookup sb devsw k name) s (fun r s' => .ok (r, s') = answer (find s k n name) s)
      (fun e => .error e = answer (find s k n name) s) := by
    apply ends_dirlookup string dir.sound dir.live dir.valid dir.type dir.size
    · intro j low used same before
      have found : find s k n name = some (j, (entry s.disk (s.inode k).dinode j).inum) :=
        dir.distinct.lookup.mpr ⟨low, slotAt_eq_some.mpr ⟨used, same, rfl⟩⟩
      rw [found]
      unfold Ends answer
      dsimp only [bind, StateT.bind, Except.bind]
      cases iget (entry s.disk (s.inode k).dinode j).inum.toNat s with
      | ok r => rfl
      | error e => rfl
    · intro missing
      have absent : find s k n name = none := by
        rw [find, Slots.lookup_eq_none]
        intro j low inum here
        obtain ⟨used, same, -⟩ := slotAt_eq_some.mp here
        exact missing j low used same
      rw [absent]
      rfl
  cases ran : dirlookup sb devsw k name s with
  | ok r => exact ends.ok (show dirlookup sb devsw k name s = .ok (r.1, r.2) from ran)
  | error e => exact ends.error ran

end Directory

/-! ### Writing an entry -/

/-- Entry `j` of the directory becomes `de`; a new last entry makes the directory longer. -/
structure Stored (sb : Superblock) (s : State) (k : Fin NINODE) (n j : Nat) (de : Dirent) (s' : State) : Prop where
  sound : Sound sb s'
  same : ∀ l, l ≠ k → s'.inode l = s.inode l
  here : s'.inode k = { s.inode k with dinode := (s'.inode k).dinode }
  type : (s'.inode k).dinode.type = T_DIR
  size : (s'.inode k).dinode.size.toNat = 16 * max n (j + 1)
  entry : entry s'.disk (s'.inode k).dinode j = de
  others : ∀ l, l < n → l ≠ j → Fs.entry s'.disk (s'.inode k).dinode l = Fs.entry s.disk (s.inode k).dinode l

namespace Stored

variable {de : Dirent}

theorem directory (stored : Stored sb s k n j de s') (dir : Directory sb s k n)
    (distinct : Slots.Distinct (slotAt s'.disk (s'.inode k).dinode) (max n (j + 1))) : Directory sb s' k (max n (j + 1)) where
  sound := stored.sound
  live := by
    rw [stored.here]
    exact dir.live
  valid := by
    rw [stored.here]
    exact dir.valid
  locked := by
    rw [stored.here]
    exact dir.locked
  type := stored.type
  size := stored.size
  distinct := distinct
  idle l free := by
    by_cases same : l = k
    · subst same
      rw [stored.here] at free
      exact absurd dir.live (by rw [show (s.inode l).ref = 0 from free]; decide)
    · rw [stored.same l same] at free ⊢
      exact dir.idle l free

theorem slotAt_others (stored : Stored sb s k n j de s') {l : Nat} (low : l < n) (ne : l ≠ j) :
    slotAt s'.disk (s'.inode k).dinode l = slotAt s.disk (s.inode k).dinode l := by
  unfold slotAt
  rw [stored.others l low ne]

theorem put (stored : Stored sb s k n j de s') (place : j ≤ n) (empty : j < n → slotAt s.disk (s.inode k).dinode j = none)
    (used : de.inum ≠ 0) :
    Slots.Put (slotAt s.disk (s.inode k).dinode) n j de.name de.inum (slotAt s'.disk (s'.inode k).dinode) where
  place := place
  empty := empty
  here := by rw [slotAt, stored.entry, if_neg used]
  others _ low ne := stored.slotAt_others low ne

theorem clear (stored : Stored sb s k n j .empty s') :
    Slots.Clear (slotAt s.disk (s.inode k).dinode) n j (slotAt s'.disk (s'.inode k).dinode) where
  here := by
    rw [slotAt, stored.entry]
    exact if_pos rfl
  others _ low ne := stored.slotAt_others low ne

end Stored

/-! ### Adding a name -/

/-- Taking a reference to an inode and dropping it again. -/
def touch (sb : Superblock) (inum : Nat) : Op Int := do
  let ip ← iget inum
  iput sb ip
  return -1

/-- `dirlookup` answers every name from the map. -/
def Answers (sb : Superblock) (devsw : Devsw) (s : State) (k : Fin NINODE) (n : Nat) : Prop :=
  ∀ name, 0 ∉ name → dirlookup sb devsw k name s = answer (find s k n name) s

namespace Directory

theorem answers (dir : Directory sb s k n) : Answers sb devsw s k n := fun _ string => dir.dirlookup_run devsw string

end Directory

end

/-! ### A root directory with the entry "." -/

namespace Mkfs

def first : Fin NINODE := ⟨0, ninode_pos⟩

end Mkfs

end Xv6.Fs
