import Xv6.Calls.OpenFiles
import Xv6.Calls.References
import Xv6.Image.Build

namespace Xv6.Fs

open Function Outcome Tally Transition

variable {sb : Superblock} {devsw : Devsw}

/-- The cache entry that an open file holds a reference to. -/
def File.inode (file : File) : Option (Fin NINODE) := if 0 < file.ref ∧ file.type = .FD_INODE then some file.ip else none

theorem File.inode_of_other {file : File} (other : file.type ≠ .FD_INODE) : file.inode = none := if_neg fun h => other h.2

theorem File.inode_of_inode {file : File} (live : 0 < file.ref) (type : file.type = .FD_INODE) : file.inode = some file.ip :=
  if_pos ⟨live, type⟩

def Kernel.cwd (s : Kernel) (p : Fin NPROC) : Option (Fin NINODE) := (s.proc p).map Process.cwd

/-- The references to cache entries are those of open files and `extra`; `n` operations of the log are open. -/
structure Balanced (extra : Fin NINODE → ℕ) (locks : Fin NINODE → Bool) (n : Int) (cwd : Fin NPROC → Option (Fin NINODE))
    (s : Kernel) : Prop where
  cwd : s.cwd = cwd
  refs : Refs (tally (fun f => (s.file f).inode) + extra) locks s.fs
  outstanding : s.outstanding = n
  closed : ∀ f, (s.file f).ref = 0 → (s.file f).type = .FD_NONE

def unlocked (_ : Fin NINODE) : Bool := false

def Halted (_ : Halt) : Prop := True

namespace Balanced

variable {extra extra' : Fin NINODE → ℕ} {locks locks' : Fin NINODE → Bool} {n : Int} {cwd cwd' : Fin NPROC → Option (Fin NINODE)}
  {s s' : Kernel} {f : Fin NFILE} {p : Fin NPROC} {ip : Fin NINODE}

theorem frame (inv : Balanced extra locks n cwd s) (fs : s'.fs = s.fs) (outstanding : s'.outstanding = s.outstanding)
    (file : s'.file = s.file) (same : s'.cwd = cwd') : Balanced extra locks n cwd' s' where
  cwd := same
  refs := by
    rw [fs, file]
    exact inv.refs
  outstanding := outstanding.trans inv.outstanding
  closed := by
    rw [file]
    exact inv.closed

theorem with_outstanding (inv : Balanced extra locks n cwd s) (m : Int) :
    Balanced extra locks (n + m) cwd { s with outstanding := s.outstanding + m } where
  cwd := inv.cwd
  refs := inv.refs
  outstanding := by rw [inv.outstanding]
  closed := inv.closed

theorem begin_op (inv : Balanced extra locks n cwd s) :
    Balanced extra locks (n + 1) cwd { s with outstanding := s.outstanding + 1 } := inv.with_outstanding 1

theorem end_op (inv : Balanced extra locks (n + 1) cwd s) :
    Balanced extra locks n cwd { s with outstanding := s.outstanding - 1 } := by
  have ended := inv.with_outstanding (-1)
  rwa [add_neg_cancel_right] at ended

theorem with_fs (inv : Balanced extra locks n cwd s) {t : State}
    (refs : Refs (tally (fun f => (s.file f).inode) + extra') locks' t) : Balanced extra' locks' n cwd { s with fs := t } where
  cwd := inv.cwd
  refs := refs
  outstanding := inv.outstanding
  closed := inv.closed

theorem lift {α : Type} {x : Op α} {post : α → State → Prop} {post' : α → Kernel → Prop} (ends : Ends x s.fs post Stopped)
    (implies : ∀ a t, post a t → post' a { s with fs := t }) : Ends (fs x) s post' Halted := by
  rw [ends_fs]
  exact ends.mono implies fun _ _ => True.intro

theorem inodes_update (table : Fin NFILE → File) (f : Fin NFILE) (file : File) :
    (fun g => (update table f file g).inode) = update (fun g => (table g).inode) f file.inode := by
  funext g
  by_cases same : g = f
  · subst same
    rw [update_self, update_self]
  · rw [update_of_ne same, update_of_ne same]

theorem setFile (inv : Balanced extra locks n cwd s) (file : File) (closed : file.ref = 0 → file.type = .FD_NONE)
    (counted : tally (update (fun g => (s.file g).inode) f file.inode) + extra' = tally (fun g => (s.file g).inode) + extra) :
    Balanced extra' locks n cwd (s.setFile f file) where
  cwd := inv.cwd
  refs := by
    show Refs (tally (fun g => (update s.file f file g).inode) + extra') locks s.fs
    rw [inodes_update, counted]
    exact inv.refs
  outstanding := inv.outstanding
  closed g := by
    show (update s.file f file g).ref = 0 → (update s.file f file g).type = .FD_NONE
    by_cases same : g = f
    · subst same
      rw [update_self]
      exact closed
    · rw [update_of_ne same]
      exact inv.closed g

theorem same_file (inv : Balanced extra locks n cwd s) (file : File) (closed : file.ref = 0 → file.type = .FD_NONE)
    (same : file.inode = (s.file f).inode) : Balanced extra locks n cwd (s.setFile f file) := by
  apply inv.setFile file closed
  rw [same, update_eq_self]

theorem open_file (inv : Balanced (extra + one ip) locks n cwd s) (file : File) (live : 0 < file.ref)
    (empty : (s.file f).inode = none) (here : file.inode = some ip) : Balanced extra locks n cwd (s.setFile f file) := by
  apply inv.setFile file fun zero => absurd zero live.ne'
  have put := tally_put (g := fun g => (s.file g).inode) (a := f) empty ip
  rw [here, put, add_assoc, add_comm extra]

theorem close_file (inv : Balanced extra locks n cwd s) (here : (s.file f).inode = some ip) :
    Balanced (extra + one ip) locks n cwd (s.setFile f (s.file f).close) := by
  apply inv.setFile (s.file f).close fun _ => rfl
  have none : (s.file f).close.inode = none := File.inode_of_other nofun
  have drop := tally_drop (g := fun g => (s.file g).inode) (a := f) here
  rw [none, ← drop, add_assoc, add_comm extra]

theorem iput (inv : Balanced (extra + one ip) locks n cwd s) :
    Ends (fs (iput sb ip)) s (fun _ s' => Balanced extra locks n cwd s') Halted := by
  have refs := inv.refs
  rw [← add_assoc] at refs
  apply lift refs.iput
  exact fun _ t refs' => inv.with_fs refs'

theorem iunlock (inv : Balanced extra (update unlocked ip true) n cwd s) :
    Ends (fs (iunlock ip)) s (fun _ s' => Balanced extra unlocked n cwd s' ∧ s'.file = s.file) Halted := by
  apply lift (inv.refs.iunlock rfl)
  exact fun _ t refs => ⟨inv.with_fs refs, rfl⟩

theorem iunlockput (inv : Balanced (extra + one ip) (update unlocked ip true) n cwd s) :
    Ends (fs (iunlockput sb ip)) s (fun _ s' => Balanced extra unlocked n cwd s') Halted := by
  have refs := inv.refs
  rw [← add_assoc] at refs
  apply lift (refs.iunlockput rfl)
  exact fun _ t refs' => inv.with_fs refs'

theorem fileclose (inv : Balanced extra locks n cwd s) (f : Fin NFILE) :
    Ends (fileclose sb f) s (fun _ s' => Balanced extra locks n cwd s') Halted := by
  have other : (s.file f).type ≠ .FD_INODE → Balanced extra locks n cwd (s.setFile f (s.file f).close) := by
    intro type
    apply inv.same_file _ fun _ => rfl
    have none : (s.file f).close.inode = none := File.inode_of_other nofun
    rw [none, File.inode_of_other type]
  apply ends_fileclose
  · exact fun _ => True.intro
  · intro more
    apply inv.same_file
    · intro zero
      dsimp only at zero
      omega
    · unfold File.inode
      dsimp only
      have live : 0 < (s.file f).ref - 1 ↔ 0 < (s.file f).ref := by omega
      simp only [live]
  · intro _ type
    exact other (by rw [type]; nofun)
  · intro _ type
    have inv' := other (by rw [type]; nofun)
    unfold pipeclose
    rw [ends_bind, ends_get]
    dsimp only
    cases (s.setFile f (s.file f).close).pipe (s.file f).pipe with
    | none => exact True.intro
    | some p =>
      dsimp only
      rw [ends_bind, ends_modify, ends_ite]
      constructor
      · intro _
        unfold kfree
        rw [ends_modify]
        exact inv'.frame (by rfl) (by rfl) (by rfl) (by exact inv'.cwd)
      · exact fun _ => inv'.frame (by rfl) (by rfl) (by rfl) (by exact inv'.cwd)
  · intro last type
    have here : (s.file f).inode = some (s.file f).ip := File.inode_of_inode (by omega) type
    rw [ends_bind, ends_begin_op, ends_bind]
    apply (inv.close_file here).begin_op.iput.weaken
    intro _ s' inv'
    rw [ends_end_op]
    exact inv'.end_op

theorem filealloc (inv : Balanced extra locks n cwd s) :
    Ends filealloc s (fun r s' => Balanced extra locks n cwd s' ∧
      ∀ f, r = some f → (s.file f).ref = 0 ∧ (s.file f).type = .FD_NONE ∧ s' = s.setFile f { s.file f with ref := 1 }) Halted := by
  apply ends_filealloc
  · exact ⟨inv, nofun⟩
  · intro f free
    have type := inv.closed f free
    constructor
    · apply inv.same_file
      · exact nofun
      · have before : (s.file f).inode = none := File.inode_of_other (by rw [type]; nofun)
        rw [before]
        exact File.inode_of_other (by dsimp only; rw [type]; nofun)
    · rintro _ ⟨rfl⟩
      exact ⟨free, type, rfl⟩

theorem pipealloc (inv : Balanced extra locks n cwd s) :
    Ends (pipealloc sb) s (fun _ s' => Balanced extra locks n cwd s') Halted := by
  unfold Fs.pipealloc
  rw [ends_bind]
  apply inv.filealloc.weaken
  rintro (_ | f0) s1 ⟨inv1, first⟩
  · exact inv1
  obtain ⟨free0, type0, eq⟩ := first f0 rfl
  dsimp only
  rw [ends_bind]
  apply inv1.filealloc.weaken
  rintro (_ | f1) s2 ⟨inv2, second⟩
  · dsimp only
    rw [ends_bind]
    exact (inv2.fileclose f0).weaken fun _ _ => id
  obtain ⟨free1, type1, eq'⟩ := second f1 rfl
  dsimp only
  rw [ends_bind]
  apply ends_kalloc
  · intro _
    dsimp only
    rw [ends_bind]
    apply (inv2.fileclose f0).weaken
    intro _ s3 inv3
    rw [ends_bind]
    exact (inv3.fileclose f1).weaken fun _ _ => id
  · intro page next _
    dsimp only
    simp only [ends_bind, ends_modify, ends_modifyFile, ends_pure]
    have ne : f1 ≠ f0 := by
      rintro rfl
      rw [eq, Kernel.setFile_self] at free1
      cases free1
    have file0 : s2.file f0 = { s.file f0 with ref := 1 } := by
      rw [eq', Kernel.setFile_of_ne ne.symm, eq, Kernel.setFile_self]
    have file1 : s2.file f1 = { s1.file f1 with ref := 1 } := by rw [eq', Kernel.setFile_self]
    have none0 : (s2.file f0).inode = none := File.inode_of_other (by rw [file0]; dsimp only; rw [type0]; decide)
    have none1 : (s2.file f1).inode = none := File.inode_of_other (by rw [file1]; dsimp only; rw [type1]; decide)
    have made : Balanced extra locks n cwd ({ s2 with freelist := next }.setPipe page (some (Stream.pipealloc fun _ => 1))) :=
      inv2.frame (by rfl) (by rfl) (by rfl) (by exact inv2.cwd)
    have made0 := made.same_file (f := f0) { s2.file f0 with type := .FD_PIPE, readable := true, writable := false, pipe := page }
      (by rw [file0]; exact fun zero => absurd zero Nat.one_ne_zero)
      ((File.inode_of_other (show FileType.FD_PIPE ≠ .FD_INODE by decide)).trans none0.symm)
    apply made0.same_file
    · dsimp only
      rw [Kernel.setFile_of_ne ne]
      show (s2.file f1).ref = 0 → _
      rw [file1]
      exact fun zero => absurd zero Nat.one_ne_zero
    · have before := congrArg File.inode (update_of_ne ne { s2.file f0 with
        type := .FD_PIPE, readable := true, writable := false, pipe := page } s2.file)
      exact (File.inode_of_other (show FileType.FD_PIPE ≠ .FD_INODE by decide)).trans (before.trans none1).symm

theorem setFd (inv : Balanced extra locks n cwd s) (p : Fin NPROC) (fd : Fin NOFILE) (v : Option (Fin NFILE)) :
    Balanced extra locks n cwd (s.setProc p ((s.proc p).map fun pr => pr.setFd fd v)) := by
  apply inv.frame (by rfl) (by rfl) (by rfl)
  rw [← inv.cwd]
  funext q
  show ((update s.proc p _) q).map Process.cwd = (s.proc q).map Process.cwd
  by_cases same : q = p
  · subst same
    rw [update_self, Option.map_map]
    rfl
  · rw [update_of_ne same]

theorem setProc (inv : Balanced extra locks n cwd s) (p : Fin NPROC) (v : Option Process) :
    Balanced extra locks n (update cwd p (v.map Process.cwd)) (s.setProc p v) := by
  apply inv.frame (by rfl) (by rfl) (by rfl)
  rw [← inv.cwd]
  funext q
  show ((update s.proc p v) q).map Process.cwd = _
  by_cases same : q = p
  · subst same
    rw [update_self, update_self]
  · rw [update_of_ne same, update_of_ne same]
    rfl

theorem fdalloc (inv : Balanced extra locks n cwd s) (p : Fin NPROC) (f : Fin NFILE) :
    Ends (fdalloc p f) s (fun _ s' => Balanced extra locks n cwd s' ∧ s'.file = s.file) Halted := by
  unfold Fs.fdalloc
  rw [ends_bind, ends_get]
  cases (List.finRange NOFILE).find? fun fd => ((s.proc p).bind fun curproc => curproc.ofile fd).isNone with
  | none => exact ⟨inv, rfl⟩
  | some fd =>
    dsimp only
    rw [ends_bind, ends_setFd]
    exact ⟨inv.setFd p fd _, rfl⟩

theorem filedup (inv : Balanced extra locks n cwd s) (f : Fin NFILE) :
    Ends (filedup f) s (fun _ s' => Balanced extra locks n cwd s') Halted := by
  unfold Fs.filedup
  rw [ends_bind, ends_get]
  dsimp only
  rw [ends_ite]
  constructor
  · exact fun _ => True.intro
  · intro live
    rw [ends_modifyFile]
    apply inv.same_file
    · exact nofun
    · unfold File.inode
      dsimp only
      have positive : 0 < (s.file f).ref := by omega
      simp only [positive, Nat.succ_pos]

end Balanced

/-- Between system calls the references are those of open files and current directories. -/
def AtRest (s : Kernel) : Prop := Balanced (tally s.cwd) unlocked 0 s.cwd s

section Syscalls

variable {s : Kernel} {p : Fin NPROC} {curproc : Process}

theorem Balanced.atRest {extra : Fin NINODE → ℕ} {cwd : Fin NPROC → Option (Fin NINODE)}
    (inv : Balanced extra unlocked 0 cwd s) (same : extra = tally cwd) : AtRest s := by
  obtain rfl := inv.cwd
  obtain rfl := same
  exact inv

theorem Kernel.cwd_of (here : s.proc p = some curproc) : s.cwd p = some curproc.cwd := by
  unfold Kernel.cwd
  rw [here]
  rfl

theorem Kernel.cwd_live (here : s.proc p = some curproc) (want : Fin NINODE → ℕ) : 0 < (want + tally s.cwd) curproc.cwd := by
  have held := tally_pos (Kernel.cwd_of here)
  rw [Pi.add_apply]
  omega

theorem AtRest.logged {x : Op Int} (rest : AtRest s)
    (balanced : Ends x s.fs (fun _ t => Refs (tally (fun f => (s.file f).inode) + tally s.cwd) unlocked t) Stopped) :
    Ends (logged x) s (fun _ s' => AtRest s') Halted := by
  unfold Fs.logged
  rw [ends_bind, ends_begin_op, ends_bind]
  apply Balanced.lift
  · exact balanced
  · intro _ t refs
    rw [ends_bind, ends_end_op]
    exact ((Balanced.begin_op rest).with_fs refs).end_op.atRest rfl

theorem AtRest.sys_open (rest : AtRest s) (here : s.proc p = some curproc) (path : Option Chars) (omode : BitVec 32) :
    Ends (curproc.sys_open sb devsw p path omode) s (fun _ s' => AtRest s') Halted := by
  unfold Process.sys_open
  cases argstr path with
  | none => exact rest
  | some path =>
    dsimp only
    rw [ends_bind, ends_begin_op, ends_bind]
    apply Balanced.lift
    · exact rest.refs.openInode (Kernel.cwd_live here _) path omode
    rintro (_ | ip) t post
    · rw [ends_bind, ends_end_op]
      exact ((Balanced.begin_op rest).with_fs post).end_op.atRest rfl
    · obtain ⟨_, refs⟩ := post
      rw [add_assoc] at refs
      have inv1 := (Balanced.begin_op rest).with_fs refs
      dsimp only
      rw [ends_bind]
      apply inv1.filealloc.weaken
      rintro (_ | f) s2 ⟨inv2, taken⟩
      · dsimp only
        rw [ends_bind]
        apply inv2.iunlockput.weaken
        intro _ s3 inv3
        rw [ends_bind, ends_end_op]
        exact inv3.end_op.atRest rfl
      · obtain ⟨free, type, eq⟩ := taken f rfl
        dsimp only
        rw [ends_bind]
        apply (inv2.fdalloc p f).weaken
        rintro (_ | fd) s3 ⟨inv3, file⟩
        · dsimp only
          rw [ends_bind]
          apply (inv3.fileclose f).weaken
          intro _ s4 inv4
          rw [ends_bind]
          apply inv4.iunlockput.weaken
          intro _ s5 inv5
          rw [ends_bind, ends_end_op]
          exact inv5.end_op.atRest rfl
        · dsimp only
          rw [ends_bind]
          apply inv3.iunlock.weaken
          rintro _ s4 ⟨inv4, file'⟩
          rw [ends_bind, ends_end_op, ends_bind, ends_modifyFile]
          have opened : s4.file f = { s.file f with ref := 1 } := by
            rw [file', file, eq, Kernel.setFile_self]
          apply (inv4.end_op.open_file _ _ _ _).atRest rfl
          · show 0 < (s4.file f).ref
            rw [opened]
            exact Nat.one_pos
          · show (s4.file f).inode = none
            exact File.inode_of_other (by rw [opened]; dsimp only; rw [type]; nofun)
          · apply File.inode_of_inode _ rfl
            show 0 < (s4.file f).ref
            rw [opened]
            exact Nat.one_pos

theorem AtRest.sys_dup (rest : AtRest s) (fd : Option (Fin NOFILE)) :
    Ends (curproc.sys_dup p fd) s (fun _ s' => AtRest s') Halted := by
  unfold Process.sys_dup
  cases curproc.argfd fd with
  | none => exact rest
  | some file =>
    dsimp only
    rw [ends_bind]
    apply (Balanced.fdalloc rest p file.2).weaken
    rintro (_ | fd) s1 ⟨inv1, _⟩
    · exact inv1.atRest rfl
    · dsimp only
      rw [ends_bind]
      apply (inv1.filedup file.2).weaken
      exact fun _ _ inv2 => inv2.atRest rfl

theorem AtRest.sys_close (rest : AtRest s) (fd : Option (Fin NOFILE)) :
    Ends (curproc.sys_close sb p fd) s (fun _ s' => AtRest s') Halted := by
  unfold Process.sys_close
  cases curproc.argfd fd with
  | none => exact rest
  | some file =>
    dsimp only
    rw [ends_bind, ends_clearFd, ends_bind]
    apply ((Balanced.setFd rest p file.1 none).fileclose file.2).weaken
    exact fun _ _ inv' => inv'.atRest rfl

theorem AtRest.sys_pipe (rest : AtRest s) (valid : Bool) :
    Ends (Process.sys_pipe sb p valid) s (fun _ s' => AtRest s') Halted := by
  have undone : ∀ {s' : Kernel} (rf wf : Fin NFILE), Balanced (tally s.cwd) unlocked 0 s.cwd s' →
      Ends (do fileclose sb rf; fileclose sb wf; return (-1 : Int)) s' (fun _ s' => AtRest s') Halted := by
    intro s' rf wf inv
    rw [ends_bind]
    apply (inv.fileclose rf).weaken
    intro _ s1 inv1
    rw [ends_bind]
    exact (inv1.fileclose wf).weaken fun _ _ inv2 => inv2.atRest rfl
  unfold Process.sys_pipe
  cases valid with
  | false => exact rest
  | true =>
    simp only [Bool.not_true, Bool.false_eq_true, if_false]
    rw [ends_bind]
    apply (Balanced.pipealloc rest).weaken
    rintro (_ | ⟨rf, wf⟩) s1 inv1
    · exact inv1.atRest rfl
    · dsimp only
      rw [ends_bind]
      apply (inv1.fdalloc p rf).weaken
      rintro (_ | fd0) s2 ⟨inv2, _⟩
      · exact undone rf wf inv2
      · dsimp only
        rw [ends_bind]
        apply (inv2.fdalloc p wf).weaken
        rintro (_ | fd1) s3 ⟨inv3, _⟩
        · dsimp only
          rw [ends_bind, ends_clearFd]
          exact undone rf wf (inv3.setFd p fd0 none)
        · exact inv3.atRest rfl

theorem AtRest.sys_chdir (rest : AtRest s) (here : s.proc p = some curproc) (path : Option Chars) :
    Ends (curproc.sys_chdir sb devsw p path) s (fun _ s' => AtRest s') Halted := by
  have before := Kernel.cwd_of here
  have taken := tally_drop before
  have given : ∀ ip, tally (update s.cwd p (some ip)) = tally (update s.cwd p none) + one ip := by
    intro ip
    have put := tally_put (g := update s.cwd p none) (a := p) (update_self ..) ip
    rwa [update_idem] at put
  have begun := Balanced.begin_op rest
  unfold Process.sys_chdir Fs.logged
  simp only [ends_bind, ends_begin_op]
  cases argstr path with
  | none =>
    have refused : Ends (pure none : Op (Option (Fin NINODE))) s.fs (fun r t => r = none ∧
        Refs (tally (fun f => (s.file f).inode) + tally s.cwd) unlocked t) Stopped := ⟨rfl, rest.refs⟩
    apply Balanced.lift
    · exact refused
    rintro _ t ⟨rfl, refs⟩
    rw [ends_end_op]
    exact (begun.with_fs refs).end_op.atRest rfl
  | some path =>
    have refs := rest.refs
    rw [← taken, ← add_assoc] at refs
    apply Balanced.lift
    · exact refs.chdirInode path
    rintro (_ | ip) t refs
    · have refs : Refs (tally (fun f => (s.file f).inode) + tally (update s.cwd p none) + one curproc.cwd) unlocked t := refs
      rw [add_assoc, taken] at refs
      rw [ends_end_op]
      exact (begun.with_fs refs).end_op.atRest rfl
    · have refs : Refs (tally (fun f => (s.file f).inode) + tally (update s.cwd p none) + one ip) unlocked t := refs
      rw [add_assoc, ← given ip] at refs
      rw [ends_end_op]
      simp only [ends_pure, ends_modify, ends_bind]
      have moved := (begun.with_fs refs).end_op.setProc p (some { curproc with cwd := ip })
      rw [here]
      exact moved.atRest rfl

theorem AtRest.fork (rest : AtRest s) (here : s.proc p = some curproc) {child : Option (Fin NPROC × Int)}
    (free : ∀ np pid, child = some (np, pid) → s.proc np = none) :
    Ends (curproc.fork child) s (fun _ s' => AtRest s') Halted := by
  unfold Process.fork
  rcases child with _ | ⟨np, pid⟩
  · exact rest
  · dsimp only
    rw [ends_bind]
    apply (ends_forM (fun _ t => Balanced (tally s.cwd) unlocked 0 s.cwd t) rest ?_).weaken
    · intro _ s1 inv1
      rw [ends_bind]
      apply Balanced.lift
      · exact inv1.refs.idup curproc.cwd (Kernel.cwd_live here _)
      · rintro cwd t ⟨rfl, refs⟩
        rw [add_assoc] at refs
        rw [ends_bind, ends_modify]
        apply ((inv1.with_fs refs).setProc np _).atRest
        have empty : s.cwd np = none := by
          unfold Kernel.cwd
          rw [free np pid rfl]
          rfl
        exact (tally_put empty _).symm
    · intro _ i _ t _ inv
      cases curproc.ofile i with
      | none => exact inv
      | some f => exact inv.filedup f

theorem AtRest.exit (rest : AtRest s) (here : s.proc p = some curproc) :
    Ends (curproc.exit sb p) s (fun _ s' => AtRest s') Halted := by
  unfold Process.exit
  dsimp only
  rw [ends_ite]
  constructor
  · exact fun _ => True.intro
  · intro _
    rw [ends_bind]
    apply (ends_forM (fun _ t => Balanced (tally s.cwd) unlocked 0 s.cwd t) rest ?_).weaken
    · intro _ s1 inv1
      rw [← tally_drop (Kernel.cwd_of here)] at inv1
      rw [ends_bind, ends_begin_op, ends_bind]
      apply inv1.begin_op.iput.weaken
      intro _ s2 inv2
      rw [ends_bind, ends_end_op, ends_bind, ends_modify]
      exact (inv2.end_op.setProc p none).atRest rfl
    · intro _ i _ t _ inv
      cases curproc.ofile i with
      | none => exact inv
      | some f =>
        dsimp only
        rw [ends_bind]
        apply (inv.fileclose f).weaken
        intro _ t1 inv1
        rw [ends_clearFd]
        exact inv1.setFd p i none

theorem Refs.reads {want : Fin NINODE → ℕ} {locks : Fin NINODE → Bool} {t : State} {ip : Fin NINODE}
    (inv : Refs want locks t) (reads : List (Uint × Uint)) :
    Ends (reads.forM fun (off, n) => do let _ ← Fs.readi sb devsw ip off n) t (fun _ t' => Refs want locks t') Stopped := by
  apply ends_forM (fun _ t => Refs want locks t) inv
  intro _ (off, n) _ t1 _ inv1
  dsimp only
  rw [ends_bind]
  exact (inv1.readi off n).weaken fun _ _ => id

theorem AtRest.exec (rest : AtRest s) (here : s.proc p = some curproc) (path : Option Chars) (reads : List (Uint × Uint))
    (loaded built : Bool) : Ends (curproc.exec sb devsw path reads loaded built) s (fun _ s' => AtRest s') Halted := by
  unfold Process.exec
  cases argstr path with
  | none => exact rest
  | some path =>
    dsimp only
    rw [ends_bind, ends_begin_op, ends_bind]
    apply Balanced.lift
    · exact rest.refs.namei (Kernel.cwd_live here _) path
    rintro (_ | ip) t post
    · rw [ends_bind, ends_end_op]
      exact ((Balanced.begin_op rest).with_fs post).end_op.atRest rfl
    · have inv1 : Balanced (tally s.cwd + one ip) unlocked 1 s.cwd
          { s with outstanding := s.outstanding + 1, fs := t } := by
        have refs : Refs _ _ _ := post
        rw [add_assoc] at refs
        exact (Balanced.begin_op rest).with_fs refs
      dsimp only
      rw [ends_bind]
      apply Balanced.lift
      · exact inv1.refs.ilock
      rintro _ t2 ⟨_, refs2⟩
      have inv2 := inv1.with_fs refs2
      rw [ends_bind]
      apply Balanced.lift
      · exact inv2.refs.reads reads
      intro _ t3 refs3
      rw [ends_bind]
      apply (inv2.with_fs refs3).iunlockput.weaken
      intro _ s4 inv4
      rw [ends_bind, ends_end_op]
      exact inv4.end_op.atRest rfl

theorem Refs.createPut {want : Fin NINODE → ℕ} {t : State} (inv : Refs want unlocked t) {cwd : Fin NINODE} (live : 0 < want cwd)
    (path : Chars) (type major minor : Short) : Ends (do
      match ← Fs.create sb devsw cwd path type major minor with
      | none => return (-1 : Int)
      | some ip =>
        Fs.iunlockput sb ip
        return 0) t (fun _ t' => Refs want unlocked t') Stopped := by
  rw [ends_bind]
  apply (inv.create live path type major minor).weaken
  rintro (_ | ip) t1 post
  · exact post
  · obtain ⟨free, inv1⟩ := post
    dsimp only
    rw [ends_bind]
    exact (inv1.iunlockput free).weaken fun _ _ => id

theorem AtRest.run (rest : AtRest s) (here : s.proc p = some curproc) (c : Call) (allowed : c.Allowed s = true) :
    Ends (c.run sb devsw p curproc) s (fun _ s' => AtRest s') Halted := by
  have live := Kernel.cwd_live here (tally fun f => (s.file f).inode)
  cases c with
  | mkdir path =>
    apply rest.logged
    cases argstr path
    · exact rest.refs
    · exact rest.refs.createPut live _ T_DIR 0 0
  | mknod path device =>
    apply rest.logged
    cases argstr path
    · exact rest.refs
    · cases device
      · exact rest.refs
      · exact rest.refs.createPut live _ T_DEV _ _
  | «open» path omode => exact rest.sys_open here path omode
  | link old new =>
    show Ends (curproc.sys_link sb devsw old new) s _ Halted
    unfold Process.sys_link
    cases argstr old <;> cases argstr new
    · exact rest
    · exact rest
    · exact rest
    · exact rest.logged (rest.refs.link live _ _)
  | unlink path =>
    show Ends (curproc.sys_unlink sb devsw path) s _ Halted
    unfold Process.sys_unlink
    cases argstr path
    · exact rest
    · exact rest.logged (rest.refs.unlink live _)
  | chdir path => exact rest.sys_chdir here path
  | exec path reads loaded built => exact rest.exec here path reads loaded built
  | dup fd => exact rest.sys_dup fd
  | pipe valid => exact rest.sys_pipe valid
  | close fd => exact rest.sys_close fd
  | fork child =>
    apply rest.fork here
    rintro np pid rfl
    exact Option.isNone_iff_eq_none.mp allowed
  | exit => exact rest.exit here

end Syscalls

/-- References to cache entries balance, and nothing is left locked or begun. -/
structure InodesBalance (s : Kernel) : Prop where
  refs : ∀ k, (s.fs.inode k).ref =
    (Finset.univ.filter fun f => 0 < (s.file f).ref ∧ (s.file f).type = .FD_INODE ∧ (s.file f).ip = k).card +
      (Finset.univ.filter fun p => (s.proc p).map Process.cwd = some k).card
  unique : ∀ k l, 0 < (s.fs.inode k).ref → 0 < (s.fs.inode l).ref → (s.fs.inode k).inum = (s.fs.inode l).inum → k = l
  unlocked : ∀ k, (s.fs.inode k).lock = none
  log : s.outstanding = 0

theorem File.inode_eq_some {file : File} {k : Fin NINODE} :
    file.inode = some k ↔ 0 < file.ref ∧ file.type = .FD_INODE ∧ file.ip = k := by
  unfold File.inode
  rw [Option.ite_none_right_eq_some, Option.some.injEq, and_assoc]

section Runs

variable {s s' : Kernel} {e : Event}

theorem AtRest.balance (rest : AtRest s) : InodesBalance s where
  refs k := by
    rw [rest.refs.refs k, Pi.add_apply, tally_eq_card, tally_eq_card]
    simp only [File.inode_eq_some]
    rfl
  unique := rest.refs.unique
  unlocked := rest.refs.locks
  log := rest.outstanding

theorem AtRest.step (rest : AtRest s) (taken : e.step sb devsw s s') : AtRest s' := by
  cases e with
  | call p c =>
    obtain ⟨allowed, curproc, here, r, ran⟩ := Event.step_call.mp taken
    exact (rest.run here c allowed).ok ran
  | pages freelist =>
    obtain ⟨_, _, rfl⟩ := Event.step_pages.mp taken
    exact Balanced.frame rest (by rfl) (by rfl) (by rfl) (by rfl)

theorem AtRest.booted (d : Disk) (freelist : List Nat) : AtRest (booted d freelist) := by
  have cwd : (Fs.booted d freelist).cwd = update (fun _ => none) initproc (some ⟨0, by decide⟩) := by
    funext p
    unfold Kernel.cwd Fs.booted
    dsimp only
    by_cases first : p = initproc
    · subst first
      rw [update_self, update_self]
      rfl
    · rw [update_of_ne first, update_of_ne first]
      rfl
  have counted : tally (Fs.booted d freelist).cwd = one ⟨0, by decide⟩ := by
    rw [cwd, tally_put rfl, tally_none, zero_add]
  have files : tally (fun f => ((Fs.booted d freelist).file f).inode) = 0 := tally_none
  unfold AtRest
  rw [counted]
  constructor
  · rfl
  · rw [files, zero_add]
    constructor
    · intro k
      unfold Fs.booted
      dsimp only
      by_cases first : k = ⟨0, by decide⟩
      · subst first
        rw [update_self, one_self]
      · rw [update_of_ne first, one_of_ne first]
        rfl
    · intro k
      unfold Fs.booted
      dsimp only
      by_cases first : k = ⟨0, by decide⟩
      · subst first
        rw [update_self]
        rfl
      · rw [update_of_ne first]
        rfl
    · have only : ∀ k, 0 < ((Fs.booted d freelist).fs.inode k).ref → k = ⟨0, by decide⟩ := by
        intro k live
        by_contra other
        unfold Fs.booted at live
        dsimp only at live
        rw [update_of_ne other] at live
        exact absurd live (Nat.lt_irrefl 0)
      exact fun k l first second _ => (only k first).trans (only l second).symm
  · rfl
  · exact fun _ _ => rfl

/-- For every sequence of system calls, whether they succeed or fail. -/
theorem inode_references_balance {d : Disk} {freelist : List Nat} {past : List (Kernel × Event)}
    (path : Path (Event.step sb devsw) (booted d freelist) past s) : InodesBalance s := by
  have rest := path.always (I := AtRest) (.booted d freelist) fun rest taken => rest.step taken
  exact rest.balance

def child : Fin NPROC := ⟨1, by decide⟩

/-- A child is in the directory `d` that its parent removes, and opens files by names that are there and names that are not. -/
def removedRun : List Event :=
  [.call initproc (.mkdir (some [100])), .call initproc (.mkdir (some [100])), .call initproc (.fork (some (child, 2))),
    .call child (.chdir (some [100])), .call child (.link (some dot) (some [100])), .call child (.open (some dot) 0),
    .call initproc (.unlink (some [100])), .call child (.open (some dot) 0), .call child (.open (some [100]) 0),
    .call child (.unlink (some dotdot))]

theorem inode_references_balance_of_unlink : ∃ image past s, Mkfs.mkfs [] = .ok image ∧
    Path (Event.step Mkfs.sb noDevice) (booted image.disk []) past s ∧
      (∃ k, 3 ≤ (s.fs.inode k).ref) ∧ InodesBalance s := by
  have evaluated : (Mkfs.mkfs []).toOption.any (fun image =>
      (replay (Event.next Mkfs.sb noDevice) removedRun [] (booted image.disk [])).any fun r =>
        decide (3 ≤ (r.2.fs.inode ⟨1, by decide⟩).ref)) = true := by
    decide +kernel
  cases built : Mkfs.mkfs [] with
  | error e =>
    rw [built] at evaluated
    cases evaluated
  | ok image =>
    rw [built] at evaluated
    obtain ⟨past, s, path, passed⟩ := replay_reaches (Event.next Mkfs.sb noDevice) (booted image.disk []) removedRun
      (fun _ s => decide (3 ≤ (s.fs.inode ⟨1, by decide⟩).ref)) evaluated
    exact ⟨image, past, s, rfl, path, ⟨_, of_decide_eq_true passed⟩, inode_references_balance path⟩

end Runs

end Xv6.Fs
