import Xv6.Calls.Files
import Xv6.Fs.Logged
import Xv6.Fs.Sharing
import Xv6.Log.Operations

namespace Xv6.Fs.Logged

open Function Tracing Outcome

/-- A call that runs sections between `begin_op` and `end_op`, with the blocks that each of them logs. -/
abbrev Sections := Traced (List Nat) String

/-- `max` of `filewrite`: a few blocks at a time. -/
def writeMax : Nat := ((Log.MAXOPBLOCKS - 1 - 1 - 2) / 2) * 512

/-- The file after `writei` has answered `r`. -/
def advance (f : File) (r : Int) : File := if r > 0 then { f with off := f.off + BitVec.ofInt 32 r } else f

section Code

variable (sb : Superblock) (devsw : Devsw)

/-- A pass of the loop of `filewrite`, from `begin_op` to `end_op`: the answer of `writei`, and the file with its offset. -/
def chunk (f : File) (addr : Nat → UInt8) (n1 : Int) (s : State) : Logging (Int × File × State) := do
  let (_, s) ← quiet (ilock sb f.ip s)
  let (r, d, ip) ← writei sb devsw s.disk (s.inode f.ip).inum (s.inode f.ip).dinode addr f.off (BitVec.ofInt 32 n1)
  let s := s.setDinode f.ip d ip
  let f := advance f r
  let (_, s) ← quiet (iunlock f.ip s)
  return (r, f, s)

/-- The loop of `filewrite` from byte `i` on. Each pass writes at least one byte, so `n` passes are enough. -/
def chunks (addr : Nat → UInt8) (n : Int) : Nat → Int → File → State → Sections (Int × File × State)
  | 0, i, f, s => return (i, f, s)
  | fuel + 1, i, f, s =>
    if i < n then do
      let n1 := min (n - i) writeMax
      let (r, f, s) ← (chunk sb devsw f (fun j => addr (i.toNat + j)) n1 s).gather
      if r < 0 then return (i, f, s)
      else if r ≠ n1 then quiet (.error "short filewrite")
      else chunks addr n fuel (i + r) f s
    else return (i, f, s)

/-- Write to file f. What `pipewrite` answers is a parameter: it logs nothing. -/
def filewrite (pipewrite : Nat → (Nat → UInt8) → Int → Except String Int) (f : File) (addr : Nat → UInt8) (n : Int)
    (s : State) : Sections (Int × File × State) :=
  if !f.writable then return (-1, f, s)
  else
    match f.type with
    | .FD_PIPE => do
      let r ← quiet (pipewrite f.pipe addr n)
      return (r, f, s)
    | .FD_INODE => do
      let (i, f, s) ← chunks sb devsw addr n n.toNat 0 f s
      return (if i = n then n else -1, f, s)
    | .FD_NONE => quiet (.error "filewrite")

end Code

variable {sb : Superblock} {devsw : Devsw} {s : State} {f : File} {addr : Nat → UInt8} {n n1 i : Int}

def dinodeOf (sb : Superblock) (s : State) (f : File) : Dinode := sb.dinode s.disk (s.inode f.ip).inum

/-- A file of a sound file system, whose offset is not past its end. A device has no end. -/
structure Ready (sb : Superblock) (s : State) (f : File) : Prop where
  sound : Sound sb s
  live : 0 < (s.inode f.ip).ref
  inside : (dinodeOf sb s f).type ≠ T_DEV → f.off.toNat ≤ (dinodeOf sb s f).size.toNat

theorem reports_run {α : Type} {x : Op α} {post : List Nat → α × State → Prop} {stop : List Nat → String → Prop} :
    Reports (quiet (x s)) post stop ↔ Ends x s (fun a s' => post [] (a, s')) (stop []) := by
  unfold Ends
  rw [reports_quiet]
  cases x s <;> rfl

theorem advance_ip (r : Int) : (advance f r).ip = f.ip := by
  unfold advance
  split <;> rfl

theorem toNat_ofInt {m : Int} (nonneg : 0 ≤ m) (small : m ≤ 3 * BSIZE) : (BitVec.ofInt 32 m).toNat = m.toNat := by
  unfold BSIZE at small
  rw [BitVec.toNat_ofInt]
  omega

namespace Ready

/-- The offset stays inside the file, which grows when the bytes are past its end. -/
theorem ends_writei (ready : Ready sb s f) (valid : (s.inode f.ip).valid = true) {src : Nat → UInt8} {m : Uint} :
    Ends (Fs.writei sb devsw f.ip src f.off m) s
      (fun r s' => Ready sb s' (advance f r) ∧ (s'.inode f.ip).locked = (s.inode f.ip).locked) fun _ => True := by
  obtain ⟨copy, allocated⟩ := ready.sound.copies f.ip ready.live valid
  by_cases device : (s.inode f.ip).dinode.type = T_DEV
  · apply (ends_device_write device).weaken
    intro r s' same
    subst same
    refine ⟨⟨ready.sound, ?_, ?_⟩, rfl⟩
    · rw [advance_ip]
      exact ready.live
    · unfold dinodeOf
      rw [advance_ip, ← copy]
      exact fun regular => absurd device regular
  · apply Fs.ends_writei ready.sound ready.live valid device
    · exact fun _ => ⟨ready, rfl⟩
    · exact fun _ _ => trivial
    · intro d' ip' accepted written sound
      have self : (s.setDinode f.ip d' ip').inode f.ip = { s.inode f.ip with dinode := ip' } := State.setDinode_self
      refine ⟨⟨sound, ?_, ?_⟩, ?_⟩
      · rw [advance_ip, self]
        exact ready.live
      · intro _
        unfold dinodeOf
        rw [advance_ip, self]
        show _ ≤ (sb.dinode d' (s.inode f.ip).inum).size.toNat
        rw [written.changed.self, written.size]
        rw [copy] at device
        have inside := ready.inside device
        unfold dinodeOf at inside
        unfold advance
        by_cases some : (m.toNat : Int) > 0
        · rw [if_pos some, if_pos (by omega)]
          show (f.off + BitVec.ofInt 32 m.toNat).toNat ≤ _
          have same : BitVec.ofInt 32 m.toNat = m := by simp
          rw [same, toNat_add accepted.2.1]
          exact Nat.le_max_right ..
        · rw [if_neg some]
          split
          · exact inside.trans (Nat.le_max_left ..)
          · exact inside
      · rw [self]
        rfl

end Ready

theorem Ready.unlock (ready : Ready sb s f) :
    Ready sb (s.setInode f.ip { s.inode f.ip with lock := none }) f := by
  have self : (s.setInode f.ip { s.inode f.ip with lock := none }).inode f.ip = { s.inode f.ip with lock := none } :=
    State.setInode_self
  constructor
  · exact ready.sound.same_inode id rfl id rfl
  · rw [self]
    exact ready.live
  · unfold dinodeOf
    rw [self]
    exact ready.inside

theorem reports_chunk (ready : Ready sb s f) (nonneg : 0 ≤ n1) (small : n1 ≤ 3 * BSIZE) :
    Reports (chunk sb devsw f addr n1 s) (fun t r => t.toFinset.card ≤ 10 ∧ Ready sb r.2.2 r.2.1)
      fun t _ => t.toFinset.card ≤ 10 := by
  have nothing : ([] : List Nat).toFinset.card ≤ 10 := by decide
  unfold chunk
  rw [reports_bind, reports_run]
  apply ends_ilock ready.sound ready.live
  · exact fun _ => nothing
  · exact fun _ => nothing
  · intro _ type
    have sound := ready.sound.lock type
    obtain ⟨s₁, eq⟩ : ∃ s₁, s₁ = s.setInode f.ip
      { s.inode f.ip with lock := some .caller, valid := true, dinode := sb.dinode s.disk (s.inode f.ip).inum } := ⟨_, rfl⟩
    have self : s₁.inode f.ip =
        { s.inode f.ip with lock := some .caller, valid := true, dinode := sb.dinode s.disk (s.inode f.ip).inum } := by
      rw [eq]
      exact State.setInode_self
    rw [← eq] at sound ⊢
    have copy : (s₁.inode f.ip).dinode = sb.dinode s₁.disk (s₁.inode f.ip).inum := by rw [self, eq]; rfl
    have allocated : (sb.dinode s₁.disk (s₁.inode f.ip).inum).type ≠ 0 := by rw [self, eq]; exact type
    have ready₁ : Ready sb s₁ f := by
      constructor
      · exact sound
      · rw [self]
        exact ready.live
      · unfold dinodeOf
        rw [self, eq]
        exact ready.inside
    have inum := sound.inside f.ip ready₁.live
    rw [reports_bind, copy]
    apply (reports_writei sound.blocks inum allocated (sound.filled _ inum allocated) ready₁.inside
      (by rw [toNat_ofInt nonneg small]; omega)).imp
    · intro t ⟨r, d', ip'⟩ ran few
      rw [result_writei, ← copy] at ran
      have after : Ends (Fs.writei sb devsw f.ip addr f.off (BitVec.ofInt 32 n1)) s₁ _ _ :=
        ready₁.ends_writei (by rw [self])
      unfold Fs.writei at after
      rw [ends_bind, ends_get, ran] at after
      obtain ⟨after, locked⟩ := after
      replace after : Ready sb (s₁.setDinode f.ip d' ip') (advance f r) := after
      rw [reports_bind, reports_run]
      apply ends_iunlock after.live (by rw [advance_ip, locked, self]; rfl)
      show (t ++ ([] ++ [])).toFinset.card ≤ 10 ∧ _
      rw [List.append_nil, List.append_nil]
      exact ⟨few, after.unlock⟩
    · exact fun t e _ few => few

def Fit (sections : List (List Nat)) : Prop := ∀ blocks ∈ sections, blocks.toFinset.card ≤ Log.MAXOPBLOCKS

namespace Fit

theorem nil : Fit [] := fun _ member => nomatch member

theorem cons {blocks : List Nat} {sections : List (List Nat)} (few : blocks.toFinset.card ≤ 10) (fit : Fit sections) :
    Fit ([blocks] ++ sections) :=
  List.forall_mem_cons.mpr ⟨few, fit⟩

end Fit

theorem reports_chunks (fuel : Nat) (ready : Ready sb s f) :
    Reports (chunks sb devsw addr n fuel i f s) (fun t _ => Fit t) fun t _ => Fit t := by
  induction fuel generalizing i f s with
  | zero => exact Fit.nil
  | succ fuel ih =>
    rw [chunks, reports_ite]
    constructor
    · intro more
      have limit : writeMax = 3 * BSIZE := rfl
      rw [reports_bind, reports_gather]
      apply (reports_chunk ready (by omega) (by omega)).imp
      · intro t ⟨r, f', s'⟩ _ ⟨few, ready'⟩
        rw [reports_ite, reports_ite]
        refine ⟨fun _ => .cons few .nil, fun _ => ⟨fun _ => .cons few .nil, fun _ => ?_⟩⟩
        apply (ih ready').imp
        · exact fun rest _ _ later => .cons few later
        · exact fun rest _ _ later => .cons few later
      · exact fun t e _ few => .cons few .nil
    · exact fun _ => Fit.nil

/-- Each section of `filewrite` logs at most MAXOPBLOCKS blocks, also when the call ends in a panic. -/
theorem filewrite_fits (devsw : Devsw) (pipewrite : Nat → (Nat → UInt8) → Int → Except String Int) (addr : Nat → UInt8)
    (n : Int) (ready : Ready sb s f) :
    ∀ blocks ∈ (filewrite sb devsw pipewrite f addr n s).trace, blocks.toFinset.card ≤ Log.MAXOPBLOCKS := by
  have reports : Reports (filewrite sb devsw pipewrite f addr n s) (fun t _ => Fit t) fun t _ => Fit t := by
    unfold filewrite
    rw [reports_ite]
    constructor
    · exact fun _ => Fit.nil
    · intro _
      cases f.type with
      | FD_NONE => exact Fit.nil
      | FD_PIPE =>
        dsimp only
        rw [reports_bind, reports_quiet]
        cases pipewrite f.pipe addr n <;> exact Fit.nil
      | FD_INODE =>
        dsimp only
        rw [reports_bind]
        apply (reports_chunks n.toNat ready).imp
        · intro t _ _ fit
          show Fit (t ++ [])
          rwa [List.append_nil]
        · exact fun t _ _ fit => fit
  exact reports.trace

/-- A new file is written in two sections. -/
theorem filewrite_fits_of_two : ∃ s f, Ready Mkfs.sb s f ∧
    (filewrite Mkfs.sb noDevice (fun _ _ _ => .ok (-1)) f (fun k => UInt8.ofNat k) 2000 s).trace.map
      (fun blocks => blocks.toFinset.card) = [5, 3] ∧
    ∀ blocks ∈ (filewrite Mkfs.sb noDevice (fun _ _ _ => .ok (-1)) f (fun k => UInt8.ofNat k) 2000 s).trace,
      blocks.toFinset.card ≤ Log.MAXOPBLOCKS := by
  let f : File := ⟨.FD_INODE, 1, true, true, 0, ⟨0, by decide⟩, 0⟩
  obtain ⟨past, s, path, test⟩ := Transition.replay_reaches (Act.next Mkfs.sb noDevice) Mkfs.formatted [.ialloc T_FILE]
    (fun _ s => decide (0 < (s.inode f.ip).ref ∧
      (filewrite Mkfs.sb noDevice (fun _ _ _ => .ok (-1)) f (fun k => UInt8.ofNat k) 2000 s).trace.map
        (fun blocks => blocks.toFinset.card) = [5, 3]))
    (by decide +kernel)
  obtain ⟨live, sections⟩ := of_decide_eq_true test
  have ready : Ready Mkfs.sb s f := ⟨Mkfs.sound_formatted.run (path.mono Act.next_step), live, fun _ => Nat.zero_le _⟩
  exact ⟨s, f, ready, sections, filewrite_fits noDevice _ _ 2000 ready⟩

end Xv6.Fs.Logged
