import Xv6.Calls.Pipes

namespace Xv6.Fs

open Function Outcome Tally Transition Xv6.Stream

variable {sb : Superblock} {devsw : Devsw}

/-- The files have `want` references, and one without any is closed. -/
structure FileTable (want : Fin NFILE → ℕ) (file : Fin NFILE → File) : Prop where
  refs : ∀ f, (file f).ref = want f
  closed : ∀ f, (file f).ref = 0 → (file f).type = .FD_NONE
  modes : ∀ f, (file f).type = .FD_PIPE → (file f).readable = !(file f).writable

theorem FileTable.update {want : Fin NFILE → ℕ} {table : Fin NFILE → File} (files : FileTable want table) (f : Fin NFILE)
    (file : File) (closed : file.ref = 0 → file.type = .FD_NONE)
    (modes : file.type = .FD_PIPE → file.readable = !file.writable) :
    FileTable (update want f file.ref) (update table f file) where
  refs g := by
    by_cases same : g = f
    · subst same
      rw [update_self, update_self]
    · rw [update_of_ne same, update_of_ne same]
      exact files.refs g
  closed g := by
    by_cases same : g = f
    · subst same
      rw [update_self]
      exact closed
    · rw [update_of_ne same]
      exact files.closed g
  modes g := by
    by_cases same : g = f
    · subst same
      rw [update_self]
      exact modes
    · rw [update_of_ne same]
      exact files.modes g

/-- The files have `want` references, the processes are `proc`, and the pages `owned` are pipes or free. -/
structure Descriptors (want : Fin NFILE → ℕ) (proc : Fin NPROC → Option Process) (owned : Nat → Prop) (s : Kernel) :
    Prop where
  proc : s.proc = proc
  files : FileTable want s.file
  pipes : Pipes (fun f => (s.file f).pipeEnd) owned s.pipe s.freelist

/-- The panics of the file table are not met, and no page is used as a pipe after it was freed. -/
def Fair : Halt → Prop
  | .fs _ => True
  | .panic message => message ≠ "filedup" ∧ message ≠ "fileclose"
  | .stray => False

theorem Fair.only {e : Halt} (fair : Fair e) : e ≠ .panic "filedup" ∧ e ≠ .panic "fileclose" ∧ e ≠ .stray := by
  cases e with
  | fs message => exact ⟨nofun, nofun, nofun⟩
  | panic message =>
    refine ⟨?_, ?_, nofun⟩
    · rintro ⟨rfl⟩
      exact fair.1 rfl
    · rintro ⟨rfl⟩
      exact fair.2 rfl
  | stray => exact fair.elim

namespace Descriptors

variable {want : Fin NFILE → ℕ} {proc : Fin NPROC → Option Process} {owned : Nat → Prop} {s s' : Kernel}
  {f g : Fin NFILE} {p : Fin NPROC} {pr : Process}

theorem frame (inv : Descriptors want proc owned s) (file : s'.file = s.file) (pipe : s'.pipe = s.pipe)
    (freelist : s'.freelist = s.freelist) {proc' : Fin NPROC → Option Process} (same : s'.proc = proc') :
    Descriptors want proc' owned s' where
  proc := same
  files := by
    rw [file]
    exact inv.files
  pipes := by
    rw [file, pipe, freelist]
    exact inv.pipes

theorem with_fs (inv : Descriptors want proc owned s) (t : State) (n : Int) :
    Descriptors want proc owned { s with fs := t, outstanding := n } :=
  inv.frame (by rfl) (by rfl) (by rfl) (by exact inv.proc)

theorem with_proc (inv : Descriptors want proc owned s) (p : Fin NPROC) (v : Option Process) :
    Descriptors want (update proc p v) owned (s.setProc p v) := by
  apply inv.frame (by rfl) (by rfl) (by rfl)
  rw [← inv.proc]
  rfl

theorem ends_update (table : Fin NFILE → File) (f : Fin NFILE) (file : File) :
    (fun g => (update table f file g).pipeEnd) = update (fun g => (table g).pipeEnd) f file.pipeEnd := by
  funext g
  by_cases same : g = f
  · subst same
    rw [update_self, update_self]
  · rw [update_of_ne same, update_of_ne same]

theorem change (inv : Descriptors want proc owned s) (file : File) (pipe : Nat → Option Pipe) (freelist : List Nat)
    (closed : file.ref = 0 → file.type = .FD_NONE) (modes : file.type = .FD_PIPE → file.readable = !file.writable)
    (pipes : Pipes (update (fun g => (s.file g).pipeEnd) f file.pipeEnd) owned pipe freelist) :
    Descriptors (update want f file.ref) proc owned { s.setFile f file with pipe := pipe, freelist := freelist } where
  proc := inv.proc
  files := inv.files.update f file closed modes
  pipes := by
    show Pipes (fun g => (update s.file f file g).pipeEnd) owned pipe freelist
    rw [ends_update]
    exact pipes

theorem change_file (inv : Descriptors want proc owned s) (file : File) (closed : file.ref = 0 → file.type = .FD_NONE)
    (modes : file.type = .FD_PIPE → file.readable = !file.writable) (same : file.pipeEnd = (s.file f).pipeEnd) :
    Descriptors (update want f file.ref) proc owned (s.setFile f file) := by
  apply inv.change file s.pipe s.freelist closed modes
  rw [same, update_eq_self]
  exact inv.pipes

theorem count (inv : Descriptors want proc owned s) (n : ℕ) (closed : n = 0 → (s.file f).type = .FD_NONE) :
    Descriptors (update want f n) proc owned (s.setFile f { s.file f with ref := n }) :=
  inv.change_file { s.file f with ref := n } closed (inv.files.modes f) rfl

theorem add_one (inv : Descriptors want proc owned s) :
    Descriptors (want + one f) proc owned (s.setFile f { s.file f with ref := (s.file f).ref + 1 }) := by
  rw [add_one_eq, ← inv.files.refs f]
  exact inv.count _ fun zero => absurd zero (Nat.succ_ne_zero _)

theorem fs {α : Type} {x : Op α} (inv : Descriptors want proc owned s) :
    Ends (Fs.fs x) s (fun _ s' => Descriptors want proc owned s' ∧ s'.file = s.file) Fair := by
  rw [ends_fs]
  apply ends_any
  · exact fun _ t => ⟨inv.with_fs t s.outstanding, rfl⟩
  · exact fun _ => True.intro

theorem filealloc (inv : Descriptors want proc owned s) :
    Ends filealloc s (fun r s' => match r with
      | none => Descriptors want proc owned s'
      | some f => (s.file f).ref = 0 ∧ s' = s.setFile f { s.file f with ref := 1 } ∧
        Descriptors (want + one f) proc owned s') Fair := by
  apply ends_filealloc
  · exact inv
  · intro f free
    have counted := inv.add_one (f := f)
    rw [free] at counted
    exact ⟨free, rfl, counted⟩

theorem filedup (inv : Descriptors want proc owned s) (held : 0 < want f) :
    Ends (filedup f) s (fun _ s' => Descriptors (want + one f) proc owned s') Fair := by
  apply ends_filedup
  · intro free
    rw [inv.files.refs f] at free
    omega
  · exact inv.add_one

theorem pipeclose (inv : Descriptors (want + one f) proc owned s) (last : want f = 0) (type : (s.file f).type = .FD_PIPE) :
    Ends (pipeclose (s.file f).pipe (s.file f).writable) (s.setFile f (s.file f).close)
      (fun _ s' => Descriptors want proc owned s') Fair := by
  have here : (s.file f).pipeEnd = some ((s.file f).pipe, (s.file f).writable) := File.pipeEnd_of_pipe type
  obtain ⟨p, found⟩ := Option.isSome_iff_exists.mp (inv.pipes.live f _ _ here)
  have zero : update (want + one f) f (s.file f).close.ref = want := by
    have zero := update_add_one want f
    rwa [last] at zero
  have changed : ∀ pipe freelist, Pipes (update (fun g => (s.file g).pipeEnd) f none) owned pipe freelist →
      Descriptors want proc owned { s.setFile f (s.file f).close with pipe := pipe, freelist := freelist } := by
    intro pipe freelist pipes
    have changed := inv.change (f := f) (s.file f).close pipe freelist (fun _ => rfl) (fun same => absurd same (show FileType.FD_NONE ≠ .FD_PIPE by decide))
      (by rw [File.pipeEnd_close]; exact pipes)
    rwa [zero] at changed
  unfold Fs.pipeclose
  rw [ends_bind, ends_get]
  have still : (s.setFile f (s.file f).close).pipe (s.file f).pipe = some p := found
  rw [still]
  dsimp only
  rw [ends_bind, ends_modify, ends_ite]
  constructor
  · rintro ⟨reads, writes⟩
    have gone : ∀ v, side (Stream.pipeclose p (s.file f).writable) v = false := by
      intro v
      cases v with
      | false => exact reads
      | true => exact writes
    have freed := changed _ _ (inv.pipes.free here found gone)
    unfold kfree
    rw [ends_modify]
    show Descriptors want proc owned { s.setFile f (s.file f).close with
      pipe := update (update s.pipe _ _) _ none, freelist := _ }
    rw [update_idem]
    exact freed
  · intro some_left
    have left : ∃ v, side (Stream.pipeclose p (s.file f).writable) v = true := by
      by_contra none
      push Not at none
      exact some_left ⟨Bool.eq_false_iff.mpr (none false), Bool.eq_false_iff.mpr (none true)⟩
    exact changed _ _ (inv.pipes.close here found left)

theorem fileclose (sb : Superblock) (inv : Descriptors (want + one f) proc owned s) :
    Ends (fileclose sb f) s (fun _ s' => Descriptors want proc owned s') Fair := by
  have refs : (s.file f).ref = want f + 1 := by
    rw [inv.files.refs f, Pi.add_apply, one_self]
  have close : (s.file f).ref = 1 → (s.file f).type ≠ .FD_PIPE →
      Descriptors want proc owned (s.setFile f (s.file f).close) := by
    intro last type
    have closed := inv.change_file (f := f) (s.file f).close (fun _ => rfl) nofun
      (File.pipeEnd_close.trans (File.pipeEnd_of_other type).symm)
    have zero := update_add_one want f
    rw [show want f = 0 by omega] at zero
    exact zero ▸ closed
  apply ends_fileclose
  · intro free
    omega
  · intro more
    have counted := inv.count (f := f) (want f) (by omega)
    rw [update_add_one] at counted
    rw [refs, Nat.add_sub_cancel]
    exact counted
  · intro last type
    exact close last (by rw [type]; nofun)
  · intro last type
    exact inv.pipeclose (by omega) type
  · intro last type
    have closed := close last (by rw [type]; nofun)
    rw [ends_bind, ends_begin_op, ends_bind]
    apply (closed.with_fs s.fs (s.outstanding + 1)).fs.weaken
    intro _ s' ⟨inv', _⟩
    rw [ends_end_op]
    exact inv'.with_fs s'.fs (s'.outstanding - 1)

theorem make_pipe {page : Nat} {next : List Nat} {f0 f1 : Fin NFILE} {file0 file1 : File}
    (inv : Descriptors want proc owned s) (list : s.freelist = page :: next) (ne : f0 ≠ f1)
    (free0 : (s.file f0).pipeEnd = none) (free1 : (s.file f1).pipeEnd = none) (count0 : file0.ref = want f0)
    (count1 : file1.ref = want f1) (live0 : file0.ref ≠ 0) (live1 : file1.ref ≠ 0) (mode0 : file0.readable = !file0.writable)
    (mode1 : file1.readable = !file1.writable) (end0 : file0.pipeEnd = some (page, false))
    (end1 : file1.pipeEnd = some (page, true)) (data : Fin PIPESIZE → UInt8) :
    Descriptors want proc owned
      (({ s with freelist := next }.setPipe page (some (Stream.pipealloc data))).setFile f0 file0 |>.setFile f1 file1) where
  proc := inv.proc
  files := by
    have files := (inv.files.update f0 file0 (fun zero => absurd zero live0) fun _ => mode0).update f1 file1
      (fun zero => absurd zero live1) fun _ => mode1
    rwa [count0, count1, update_eq_self, update_eq_self] at files
  pipes := by
    have pipes := inv.pipes
    rw [list] at pipes
    have created := pipes.create ne free0 free1 data
    show Pipes (fun g => (update (update s.file f0 file0) f1 file1 g).pipeEnd) owned _ _
    rw [ends_update, ends_update, end0, end1]
    exact created

theorem closed_pipeEnd (inv : Descriptors want proc owned s) (free : (s.file f).ref = 0) : (s.file f).pipeEnd = none :=
  File.pipeEnd_of_other (by rw [inv.files.closed f free]; nofun)

theorem pipealloc (inv : Descriptors want proc owned s) :
    Ends (pipealloc sb) s (fun r s' => match r with
      | none => Descriptors want proc owned s'
      | some (rf, wf) => Descriptors (want + one rf + one wf) proc owned s') Fair := by
  unfold Fs.pipealloc
  rw [ends_bind]
  apply inv.filealloc.weaken
  rintro (_ | f0) s1 post
  · exact post
  · obtain ⟨free0, eq, inv1⟩ := post
    dsimp only
    rw [ends_bind]
    apply inv1.filealloc.weaken
    rintro (_ | f1) s2 post
    · rw [ends_bind]
      have back : Descriptors (want + one f0) proc owned s2 := post
      exact (back.fileclose sb).weaken fun _ _ => id
    · obtain ⟨free1, eq', inv2⟩ := post
      have ne : f0 ≠ f1 := by
        rintro rfl
        rw [eq, Kernel.setFile_self] at free1
        cases free1
      dsimp only
      rw [ends_bind]
      apply ends_kalloc
      · intro _
        rw [add_right_comm] at inv2
        dsimp only
        rw [ends_bind]
        apply (inv2.fileclose sb).weaken
        intro _ s3 inv3
        rw [ends_bind]
        exact (inv3.fileclose sb).weaken fun _ _ => id
      · intro page next list
        have file0 : s2.file f0 = { s.file f0 with ref := 1 } := by
          rw [eq', Kernel.setFile_of_ne ne, eq, Kernel.setFile_self]
        have file1 : s2.file f1 = { s.file f1 with ref := 1 } := by
          rw [eq', Kernel.setFile_self, eq, Kernel.setFile_of_ne ne.symm]
        have refs0 := inv2.files.refs f0
        have refs1 := inv2.files.refs f1
        rw [file0] at refs0
        rw [file1] at refs1
        have open0 := inv.closed_pipeEnd free0
        rw [eq, Kernel.setFile_of_ne ne.symm] at free1
        have open1 := inv.closed_pipeEnd free1
        dsimp only
        simp only [ends_bind, ends_modify, ends_modifyFile, ends_pure]
        apply inv2.make_pipe list ne
        · rw [file0]
          exact open0
        · rw [file1]
          exact open1
        · exact inv2.files.refs f0
        · show (update s2.file f0 _ f1).ref = _
          rw [update_of_ne ne.symm]
          exact inv2.files.refs f1
        · show (s2.file f0).ref ≠ 0
          rw [file0]
          exact Nat.one_ne_zero
        · show (update s2.file f0 _ f1).ref ≠ 0
          rw [update_of_ne ne.symm, file1]
          exact Nat.one_ne_zero
        · rfl
        · rfl
        · rfl
        · rfl

theorem fdalloc (inv : Descriptors want proc owned s) (here : proc p = some pr) :
    Ends (fdalloc p f) s (fun r s' => match r with
      | none => Descriptors want proc owned s'
      | some fd => pr.ofile fd = none ∧ Descriptors want (update proc p (some (pr.setFd fd (some f)))) owned s') Fair := by
  apply ends_fdalloc pr
  · rw [inv.proc]
    exact here
  · exact inv
  · exact fun fd free => ⟨free, inv.with_proc p _⟩

theorem with_outstanding (inv : Descriptors want proc owned s) (n : Int) :
    Descriptors want proc owned { s with outstanding := n } := inv.with_fs s.fs n

theorem logged {α : Type} {x : Op α} (inv : Descriptors want proc owned s) :
    Ends (logged x) s (fun _ s' => Descriptors want proc owned s') Fair := by
  unfold Fs.logged
  rw [ends_bind, ends_begin_op, ends_bind]
  apply (inv.with_outstanding _).fs.weaken
  intro _ s' ⟨inv', _⟩
  rw [ends_bind, ends_end_op]
  exact inv'.with_outstanding _

end Descriptors

end Xv6.Fs
