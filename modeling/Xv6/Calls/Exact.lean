import Xv6.Calls.Descriptors

namespace Xv6.Fs

open Function Outcome Tally Transition Xv6.Stream

variable {sb : Superblock} {devsw : Devsw}

/-- The references of the files are the descriptors of the processes. -/
def Exact (owned : Nat → Prop) (s : Kernel) : Prop := Descriptors (tally (slot s.proc)) s.proc owned s

section Syscalls

variable {owned : Nat → Prop} {s : Kernel} {p : Fin NPROC} {curproc : Process}

theorem Descriptors.exact {want : Fin NFILE → ℕ} {proc : Fin NPROC → Option Process}
    (inv : Descriptors want proc owned s) (same : want = tally (slot proc)) : Exact owned s := by
  obtain rfl := inv.proc
  obtain rfl := same
  exact inv

theorem Exact.logged {α : Type} {x : Op α} (exact' : Exact owned s) :
    Ends (logged x) s (fun _ s' => Exact owned s') Fair :=
  (Descriptors.logged exact').weaken fun _ _ inv => inv.exact rfl

theorem Exact.sys_open (exact' : Exact owned s) (here : s.proc p = some curproc) (path : Option Chars) (omode : BitVec 32) :
    Ends (curproc.sys_open sb devsw p path omode) s (fun _ s' => Exact owned s') Fair := by
  unfold Process.sys_open
  cases argstr path with
  | none => exact exact'
  | some path =>
    dsimp only
    rw [ends_bind, ends_begin_op, ends_bind]
    apply (exact'.with_outstanding _).fs.weaken
    rintro (_ | ip) s1 ⟨inv1, file1⟩
    · rw [ends_bind, ends_end_op]
      exact (inv1.with_outstanding _).exact rfl
    · dsimp only
      rw [ends_bind]
      apply inv1.filealloc.weaken
      rintro (_ | f) s2 post
      · dsimp only
        rw [ends_bind]
        apply (Descriptors.fs post).weaken
        rintro _ s3 ⟨inv3, _⟩
        rw [ends_bind, ends_end_op]
        exact (inv3.with_outstanding _).exact rfl
      · obtain ⟨free, eq, inv2⟩ := post
        dsimp only
        rw [ends_bind]
        have closed : (s2.file f).type = .FD_NONE := by
          rw [eq, Kernel.setFile_self]
          exact inv1.files.closed f free
        apply ends_fdalloc curproc
        · rw [inv2.proc]
          exact here
        · dsimp only
          rw [ends_bind]
          apply (inv2.fileclose sb).weaken
          intro _ s3 inv3
          rw [ends_bind]
          apply inv3.fs.weaken
          rintro _ s4 ⟨inv4, _⟩
          rw [ends_bind, ends_end_op]
          exact (inv4.with_outstanding _).exact rfl
        · intro fd empty
          have inv3 := inv2.with_proc p (some (curproc.setFd fd (some f)))
          dsimp only
          rw [ends_bind]
          apply ends_fs.mpr
          apply ends_any
          · intro _ t
            simp only [ends_bind, ends_end_op, ends_modifyFile, ends_pure]
            have opened := (inv3.with_fs t (s2.outstanding - 1)).change_file (f := f)
              { s2.file f with
                type := .FD_INODE, ip := ip, off := 0, readable := decide (omode &&& O_WRONLY = 0),
                writable := decide (omode &&& O_WRONLY ≠ 0 ∨ omode &&& O_RDWR ≠ 0) } ?_
              (fun same => absurd same (show FileType.FD_INODE ≠ .FD_PIPE by decide)) ?_
            · apply opened.exact
              rw [tally_setFd here empty]
              exact update_eq_iff.mpr ⟨inv2.files.refs f, fun _ _ => rfl⟩
            · intro free
              have held := inv2.files.refs f
              rw [Pi.add_apply, one_self] at held
              dsimp only at free
              omega
            · have before : (s2.file f).pipeEnd = none := File.pipeEnd_of_other (by rw [closed]; decide)
              exact (File.pipeEnd_of_other (show FileType.FD_INODE ≠ .FD_PIPE by decide)).trans before.symm
          · exact fun _ => True.intro

theorem argfd_some {fd : Option (Fin NOFILE)} {i : Fin NOFILE} {f : Fin NFILE} (found : curproc.argfd fd = some (i, f)) :
    curproc.ofile i = some f := by
  unfold Process.argfd at found
  cases fd with
  | none => cases found
  | some j =>
    obtain ⟨g, here, eq⟩ := Option.map_eq_some_iff.mp found
    cases eq
    exact here

theorem Exact.sys_dup (exact' : Exact owned s) (here : s.proc p = some curproc) (fd : Option (Fin NOFILE)) :
    Ends (curproc.sys_dup p fd) s (fun _ s' => Exact owned s') Fair := by
  unfold Process.sys_dup
  cases found : curproc.argfd fd with
  | none => exact exact'
  | some file =>
    obtain ⟨i, f⟩ := file
    dsimp only
    rw [ends_bind]
    apply (Descriptors.fdalloc exact' here).weaken
    rintro (_ | fd) s1 post
    · exact Descriptors.exact post rfl
    · obtain ⟨empty, inv1⟩ := post
      dsimp only
      rw [ends_bind]
      apply (inv1.filedup ?_).weaken
      · intro _ s2 inv2
        exact inv2.exact (tally_setFd here empty f).symm
      · apply tally_pos (a := (p, i))
        rw [slot_of here]
        exact argfd_some found

theorem Exact.sys_close (exact' : Exact owned s) (here : s.proc p = some curproc) (fd : Option (Fin NOFILE)) :
    Ends (curproc.sys_close sb p fd) s (fun _ s' => Exact owned s') Fair := by
  unfold Process.sys_close
  cases found : curproc.argfd fd with
  | none => exact exact'
  | some file =>
    obtain ⟨i, f⟩ := file
    dsimp only
    rw [ends_bind, ends_clearFd, here]
    have inv := Descriptors.with_proc exact' p (some (curproc.setFd i none))
    rw [← tally_clearFd here (argfd_some found)] at inv
    rw [ends_bind]
    apply (inv.fileclose sb).weaken
    intro _ s' inv'
    exact inv'.exact rfl

theorem Exact.sys_pipe (exact' : Exact owned s) (here : s.proc p = some curproc) (valid : Bool) :
    Ends (Process.sys_pipe sb p valid) s (fun _ s' => Exact owned s') Fair := by
  unfold Process.sys_pipe
  cases valid with
  | false => exact exact'
  | true =>
    simp only [Bool.not_true, Bool.false_eq_true, if_false]
    rw [ends_bind]
    apply (Descriptors.pipealloc exact').weaken
    rintro (_ | ⟨rf, wf⟩) s1 post
    · exact Descriptors.exact post rfl
    · dsimp only at post ⊢
      rw [ends_bind]
      apply (post.fdalloc here).weaken
      rintro (_ | fd0) s2 post2
      · dsimp only at post2 ⊢
        rw [add_right_comm] at post2
        rw [ends_bind]
        apply (post2.fileclose sb).weaken
        intro _ s3 inv3
        rw [ends_bind]
        apply (inv3.fileclose sb).weaken
        intro _ s4 inv4
        exact inv4.exact rfl
      · obtain ⟨empty0, inv2⟩ := post2
        have here2 : s2.proc p = some (curproc.setFd fd0 (some rf)) := by
          rw [inv2.proc, update_self]
        have counted := tally_setFd here empty0 rf
        dsimp only
        rw [ends_bind]
        apply (inv2.fdalloc (update_self ..)).weaken
        rintro (_ | fd1) s3 post3
        · dsimp only at post3 ⊢
          rw [ends_bind, ends_clearFd, post3.proc, update_self]
          have cleared := post3.with_proc p (some ((curproc.setFd fd0 (some rf)).setFd fd0 none))
          rw [add_right_comm] at cleared
          rw [ends_bind]
          apply (cleared.fileclose sb).weaken
          intro _ s4 inv4
          rw [ends_bind]
          apply (inv4.fileclose sb).weaken
          intro _ s5 inv5
          exact inv5.exact (tally_undo here empty0 rf).symm
        · obtain ⟨empty1, inv3⟩ := post3
          apply inv3.exact
          rw [tally_setFd (update_self ..) empty1, counted]

theorem Exact.fork (exact' : Exact owned s) (here : s.proc p = some curproc) {child : Option (Fin NPROC × Int)}
    (free : ∀ np pid, child = some (np, pid) → s.proc np = none) :
    Ends (curproc.fork child) s (fun _ s' => Exact owned s') Fair := by
  unfold Process.fork
  rcases child with _ | ⟨np, pid⟩
  · exact exact'
  · dsimp only
    rw [ends_bind]
    apply (ends_forM (fun done t =>
      Descriptors (tally (slot s.proc) + tally (reached curproc.ofile done)) s.proc owned t) ?_ ?_).weaken
    · intro _ s1 inv1
      rw [reached_all] at inv1
      rw [ends_bind]
      apply inv1.fs.weaken
      intro cwd s2 ⟨inv2, _⟩
      rw [ends_bind, ends_modify]
      apply (inv2.with_proc np _).exact
      rw [tally_fork (free np pid rfl)]
    · have none : reached curproc.ofile [] = fun _ => none := rfl
      rw [none, tally_none, add_zero]
      exact exact'
    · intro done i rest t all inv
      rw [reached_append]
      cases found : curproc.ofile i with
      | none =>
        rw [update_eq_self_iff.mpr (by rw [reached, if_neg (not_reached all)])]
        exact inv
      | some f =>
        rw [tally_put (by rw [reached, if_neg (not_reached all)]), ← add_assoc]
        apply inv.filedup
        have held : 0 < tally (slot s.proc) f := by
          apply tally_pos (a := (p, i))
          rw [slot_of here]
          exact found
        rw [Pi.add_apply]
        omega

theorem Exact.exit (exact' : Exact owned s) (here : s.proc p = some curproc) :
    Ends (curproc.exit sb p) s (fun _ s' => Exact owned s') Fair := by
  unfold Process.exit
  dsimp only
  rw [ends_ite]
  constructor
  · exact fun _ => ⟨by decide, by decide⟩
  · intro _
    rw [ends_bind]
    apply (ends_forM (fun done t => Exact owned t ∧
      t.proc = update s.proc p (some { curproc with ofile := ahead curproc.ofile done })) ?_ ?_).weaken
    · intro _ s1 ⟨inv1, proc1⟩
      rw [ahead_all] at proc1
      rw [ends_bind, ends_begin_op, ends_bind]
      apply (Descriptors.with_outstanding inv1 _).fs.weaken
      intro _ s2 ⟨inv2, _⟩
      rw [ends_bind, ends_end_op, ends_bind, ends_modify]
      apply ((inv2.with_outstanding _).with_proc p none).exact
      rw [slot_same]
      intro i
      rw [slot_of (by rw [proc1, update_self])]
      rfl
    · have all : ahead curproc.ofile [] = curproc.ofile := rfl
      rw [all]
      exact ⟨exact', by rw [← here, update_eq_self]⟩
    · intro done i rest t all ⟨inv, proc⟩
      have here' : t.proc p = some { curproc with ofile := ahead curproc.ofile done } := by rw [proc, update_self]
      have now : ahead curproc.ofile done i = curproc.ofile i := if_neg (not_reached all)
      have next : update t.proc p (some (Process.setFd { curproc with ofile := ahead curproc.ofile done } i none)) =
          update s.proc p (some { curproc with ofile := ahead curproc.ofile (done ++ [i]) }) := by
        rw [proc, update_idem, ahead_append]
        rfl
      cases found : curproc.ofile i with
      | none =>
        have same : ahead curproc.ofile (done ++ [i]) = ahead curproc.ofile done := by
          rw [ahead_append]
          exact update_eq_self_iff.mpr (now.trans found).symm
        rw [same]
        exact ⟨inv, proc⟩
      | some f =>
        have inv' : Descriptors _ t.proc owned t := inv
        rw [← tally_clearFd here' (now.trans found)] at inv'
        dsimp only
        rw [ends_bind]
        apply (inv'.fileclose sb).weaken
        intro _ t1 inv1
        rw [ends_clearFd, inv1.proc, here']
        have cleared := inv1.with_proc p (some (Process.setFd { curproc with ofile := ahead curproc.ofile done } i none))
        exact ⟨cleared.exact rfl, cleared.proc.trans next⟩

theorem Exact.sys_chdir (exact' : Exact owned s) (here : s.proc p = some curproc) (path : Option Chars) :
    Ends (curproc.sys_chdir sb devsw p path) s (fun _ s' => Exact owned s') Fair := by
  unfold Process.sys_chdir
  rw [ends_bind]
  apply (Descriptors.logged exact').weaken
  rintro (_ | ip) s1 inv1
  · exact inv1.exact rfl
  · dsimp only
    rw [ends_bind, ends_modify, inv1.proc, here]
    apply (inv1.with_proc p _).exact
    rw [slot_same]
    intro i
    rw [slot_of here]
    rfl

theorem Exact.exec (exact' : Exact owned s) (path : Option Chars) (reads : List (Uint × Uint)) (loaded built : Bool) :
    Ends (curproc.exec sb devsw path reads loaded built) s (fun _ s' => Exact owned s') Fair := by
  unfold Process.exec
  cases argstr path with
  | none => exact exact'
  | some path =>
    dsimp only
    rw [ends_bind, ends_begin_op, ends_bind]
    apply (Descriptors.with_outstanding exact' _).fs.weaken
    rintro (_ | ip) s1 ⟨inv1, _⟩
    · rw [ends_bind, ends_end_op]
      exact (inv1.with_outstanding _).exact rfl
    · dsimp only
      rw [ends_bind]
      apply inv1.fs.weaken
      intro _ s2 ⟨inv2, _⟩
      rw [ends_bind]
      apply inv2.fs.weaken
      intro _ s3 ⟨inv3, _⟩
      rw [ends_bind]
      apply inv3.fs.weaken
      intro _ s4 ⟨inv4, _⟩
      rw [ends_bind, ends_end_op]
      exact (inv4.with_outstanding _).exact rfl

theorem Exact.run (exact' : Exact owned s) (here : s.proc p = some curproc) (c : Call) (allowed : c.Allowed s = true) :
    Ends (c.run sb devsw p curproc) s (fun _ s' => Exact owned s') Fair := by
  cases c with
  | mkdir path => exact exact'.logged
  | mknod path device => exact exact'.logged
  | «open» path omode => exact exact'.sys_open here path omode
  | link old new =>
    show Ends (curproc.sys_link sb devsw old new) s _ Fair
    unfold Process.sys_link
    cases argstr old <;> cases argstr new
    · exact exact'
    · exact exact'
    · exact exact'
    · exact exact'.logged
  | unlink path =>
    show Ends (curproc.sys_unlink sb devsw path) s _ Fair
    unfold Process.sys_unlink
    cases argstr path
    · exact exact'
    · exact exact'.logged
  | chdir path => exact exact'.sys_chdir here path
  | exec path reads loaded built => exact exact'.exec path reads loaded built
  | dup fd => exact exact'.sys_dup here fd
  | pipe valid => exact exact'.sys_pipe here valid
  | close fd => exact exact'.sys_close here fd
  | fork child =>
    apply exact'.fork here
    rintro np pid rfl
    exact Option.isNone_iff_eq_none.mp allowed
  | exit => exact exact'.exit here

end Syscalls

end Xv6.Fs
