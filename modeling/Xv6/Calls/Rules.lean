import Xv6.Calls.Syscalls
import Xv6.Library.Outcome
import Xv6.Library.Tally

namespace Xv6.Fs

open Function Outcome Tally

variable {sb : Superblock} {s : Kernel} {stop : Halt → Prop} {p q : Fin NPROC} {fd : Fin NOFILE} {f g : Fin NFILE}
  {proc : Fin NPROC → Option Process} {pr : Process}

@[simp] theorem Kernel.setFile_self {file : File} : (s.setFile f file).file f = file := update_self ..

theorem Kernel.setFile_of_ne {file : File} (ne : g ≠ f) : (s.setFile f file).file g = s.file g := update_of_ne ne ..

@[simp] theorem Kernel.setFile_setFile {file file' : File} : (s.setFile f file).setFile f file' = s.setFile f file' := by
  unfold Kernel.setFile
  rw [update_idem]

@[simp] theorem ends_modifyFile {h : File → File} {post : Unit → Kernel → Prop} :
    Ends (modifyFile f h) s post stop ↔ post () (s.setFile f (h (s.file f))) := Iff.rfl

@[simp] theorem ends_setFd {post : Unit → Kernel → Prop} :
    Ends (setFd p fd (some f)) s post stop ↔ post () (s.setProc p ((s.proc p).map fun pr => pr.setFd fd (some f))) := Iff.rfl

@[simp] theorem ends_clearFd {post : Unit → Kernel → Prop} :
    Ends (setFd p fd none) s post stop ↔ post () (s.setProc p ((s.proc p).map fun pr => pr.setFd fd none)) := Iff.rfl

@[simp] theorem ends_begin_op {post : Unit → Kernel → Prop} :
    Ends begin_op s post stop ↔ post () { s with outstanding := s.outstanding + 1 } := Iff.rfl

@[simp] theorem ends_end_op {post : Unit → Kernel → Prop} :
    Ends end_op s post stop ↔ post () { s with outstanding := s.outstanding - 1 } := Iff.rfl

theorem ends_fs {α : Type} {x : Op α} {post : α → Kernel → Prop} :
    Ends (fs x) s post stop ↔ Ends x s.fs (fun a t => post a { s with fs := t }) fun message => stop (.fs message) := by
  unfold Ends fs
  cases x s.fs <;> rfl

theorem ends_any {σ ε α : Type} {x : StateT σ (Except ε) α} {s : σ} {post : α → σ → Prop} {stop : ε → Prop}
    (returns : ∀ a t, post a t) (fails : ∀ e, stop e) : Ends x s post stop := by
  unfold Ends
  cases x s with
  | ok r => exact returns r.1 r.2
  | error e => exact fails e

theorem ends_filealloc {post : Option (Fin NFILE) → Kernel → Prop} (full : post none s)
    (taken : ∀ f, (s.file f).ref = 0 → post (some f) (s.setFile f { s.file f with ref := 1 })) :
    Ends filealloc s post stop := by
  unfold filealloc
  rw [ends_bind, ends_get]
  cases found : (List.finRange NFILE).find? fun f => decide ((s.file f).ref = 0) with
  | none => exact full
  | some f =>
    have free := List.find?_some found
    exact taken f (of_decide_eq_true free)

theorem ends_filedup {post : Unit → Kernel → Prop} (free : (s.file f).ref = 0 → stop (.panic "filedup"))
    (counted : post () (s.setFile f { s.file f with ref := (s.file f).ref + 1 })) : Ends (filedup f) s post stop := by
  unfold filedup
  rw [ends_bind, ends_get]
  dsimp only
  rw [ends_ite]
  constructor
  · intro none
    exact free (by omega)
  · exact fun _ => counted

/-- The file after its last `fileclose`. -/
def File.close (file : File) : File := { file with ref := 0, type := .FD_NONE }

theorem ends_fileclose {post : Unit → Kernel → Prop} (free : (s.file f).ref = 0 → stop (.panic "fileclose"))
    (more : 1 < (s.file f).ref → post () (s.setFile f { s.file f with ref := (s.file f).ref - 1 }))
    (none : (s.file f).ref = 1 → (s.file f).type = .FD_NONE → post () (s.setFile f (s.file f).close))
    (pipe : (s.file f).ref = 1 → (s.file f).type = .FD_PIPE →
      Ends (pipeclose (s.file f).pipe (s.file f).writable) (s.setFile f (s.file f).close) post stop)
    (inode : (s.file f).ref = 1 → (s.file f).type = .FD_INODE →
      Ends (do begin_op; fs (iput sb (s.file f).ip); end_op) (s.setFile f (s.file f).close) post stop) :
    Ends (fileclose sb f) s post stop := by
  unfold fileclose
  rw [ends_bind, ends_get]
  dsimp only
  rw [ends_ite]
  constructor
  · intro dead
    exact free (by omega)
  · intro live
    rw [ends_bind, ends_modifyFile, ends_ite]
    constructor
    · intro last
      rw [ends_bind, ends_modifyFile, Kernel.setFile_self, Kernel.setFile_setFile, last]
      cases type : (s.file f).type with
      | FD_NONE => exact none last type
      | FD_PIPE => exact pipe last type
      | FD_INODE => exact inode last type
    · intro not_last
      exact more (by omega)

theorem ends_kalloc {post : Option Nat → Kernel → Prop} (out : s.freelist = [] → post none s)
    (taken : ∀ page next, s.freelist = page :: next → post (some page) { s with freelist := next }) :
    Ends kalloc s post stop := by
  unfold kalloc
  rw [ends_bind, ends_get]
  cases list : s.freelist with
  | nil => exact out list
  | cons page next => exact taken page next list

theorem ends_fdalloc (pr : Process) {post : Option (Fin NOFILE) → Kernel → Prop} (here : s.proc p = some pr)
    (full : post none s)
    (taken : ∀ fd, pr.ofile fd = none → post (some fd) (s.setProc p (some (pr.setFd fd (some f))))) :
    Ends (fdalloc p f) s post stop := by
  unfold fdalloc
  rw [ends_bind, ends_get, here]
  cases found : (List.finRange NOFILE).find? fun fd => ((some pr).bind fun curproc => curproc.ofile fd).isNone with
  | none => exact full
  | some fd =>
    have free := List.find?_some found
    dsimp only
    rw [ends_bind, ends_setFd, here]
    exact taken fd (Option.isNone_iff_eq_none.mp free)

theorem Event.step_call {devsw : Devsw} {s' : Kernel} {c : Call} : Event.step sb devsw s (.call p c) s' ↔
    c.Allowed s = true ∧ ∃ curproc, s.proc p = some curproc ∧ ∃ r, c.run sb devsw p curproc s = .ok (r, s') := by
  show (if c.Allowed s = true then _ else _) = some s' ↔ _
  rw [Option.ite_none_right_eq_some]
  apply and_congr_right
  intro _
  rw [Option.bind_eq_some_iff]
  apply exists_congr
  intro curproc
  apply and_congr_right
  intro _
  cases c.run sb devsw p curproc s with
  | error e => exact ⟨nofun, nofun⟩
  | ok r =>
    obtain ⟨a, t⟩ := r
    constructor
    · rintro ⟨rfl⟩
      exact ⟨a, rfl⟩
    · rintro ⟨_, ⟨rfl⟩⟩
      rfl

theorem Event.step_pages {devsw : Devsw} {s' : Kernel} {freelist : List Nat} :
    Event.step sb devsw s (.pages freelist) s' ↔
      freelist.Nodup ∧ (∀ page ∈ freelist, (s.pipe page).isNone = true) ∧ { s with freelist := freelist } = s' := by
  show (if _ then some _ else none) = some s' ↔ _
  rw [Option.ite_none_right_eq_some, Option.some.injEq, and_assoc]

/-- A descriptor of a process, as an entry of one table for all. -/
def slot (proc : Fin NPROC → Option Process) (x : Fin NPROC × Fin NOFILE) : Option (Fin NFILE) :=
  (proc x.1).bind fun pr => pr.ofile x.2

theorem slot_of (here : proc p = some pr) (fd : Fin NOFILE) : slot proc (p, fd) = pr.ofile fd := by
  unfold slot
  rw [here]
  rfl

theorem slot_setFd (here : proc p = some pr) (fd : Fin NOFILE) (v : Option (Fin NFILE)) :
    slot (update proc p (some (pr.setFd fd v))) = update (slot proc) (p, fd) v := by
  funext x
  obtain ⟨q, i⟩ := x
  by_cases same : q = p
  · subst same
    rw [slot_of (update_self ..)]
    unfold Process.setFd
    dsimp only
    by_cases at_fd : i = fd
    · subst at_fd
      rw [update_self, update_self]
    · rw [update_of_ne at_fd, update_of_ne (by simp [at_fd]), slot_of here]
  · unfold slot
    rw [update_of_ne same, update_of_ne (by simp [same])]

@[simp] theorem Process.setFd_self {v : Option (Fin NFILE)} : (pr.setFd fd v).ofile fd = v := update_self ..

theorem tally_setFd (here : proc p = some pr) (empty : pr.ofile fd = none) (f : Fin NFILE) :
    tally (slot (update proc p (some (pr.setFd fd (some f))))) = tally (slot proc) + one f := by
  rw [slot_setFd here]
  apply tally_put
  rw [slot_of here]
  exact empty

theorem tally_clearFd (here : proc p = some pr) (full : pr.ofile fd = some f) :
    tally (slot (update proc p (some (pr.setFd fd none)))) + one f = tally (slot proc) := by
  rw [slot_setFd here]
  apply tally_drop
  rw [slot_of here]
  exact full

theorem tally_undo (here : proc p = some pr) (empty : pr.ofile fd = none) (f : Fin NFILE) :
    tally (slot (update (update proc p (some (pr.setFd fd (some f)))) p (some ((pr.setFd fd (some f)).setFd fd none)))) =
      tally (slot proc) := by
  have taken : update proc p (some (pr.setFd fd (some f))) p = some (pr.setFd fd (some f)) := update_self ..
  have back := tally_clearFd taken Process.setFd_self
  rw [tally_setFd here empty] at back
  exact add_right_cancel back

theorem slot_same {v : Option Process} (same : ∀ i, (v.bind fun pr => pr.ofile i) = slot proc (p, i)) :
    slot (update proc p v) = slot proc := by
  funext x
  obtain ⟨q, i⟩ := x
  by_cases here : q = p
  · subst here
    rw [← same i]
    unfold slot
    rw [update_self]
  · unfold slot
    rw [update_of_ne here]

/-- The descriptors that a loop over all of them has reached. -/
def reached (ofile : Fin NOFILE → Option (Fin NFILE)) (done : List (Fin NOFILE)) (i : Fin NOFILE) : Option (Fin NFILE) :=
  if i ∈ done then ofile i else none

def ahead (ofile : Fin NOFILE → Option (Fin NFILE)) (done : List (Fin NOFILE)) (i : Fin NOFILE) : Option (Fin NFILE) :=
  if i ∈ done then none else ofile i

variable {ofile : Fin NOFILE → Option (Fin NFILE)} {done : List (Fin NOFILE)} {i : Fin NOFILE}

theorem reached_append : reached ofile (done ++ [i]) = update (reached ofile done) i (ofile i) := by
  funext j
  unfold reached
  by_cases same : j = i
  · subst same
    simp
  · simp [same]

theorem ahead_append : ahead ofile (done ++ [i]) = update (ahead ofile done) i none := by
  funext j
  unfold ahead
  by_cases same : j = i
  · subst same
    simp
  · simp [same]

theorem reached_all : reached ofile (List.finRange NOFILE) = ofile := by
  funext i
  exact if_pos (List.mem_finRange i)

theorem ahead_all : ahead ofile (List.finRange NOFILE) = fun _ => none := by
  funext i
  exact if_pos (List.mem_finRange i)

theorem not_reached {rest : List (Fin NOFILE)} (all : done ++ i :: rest = List.finRange NOFILE) : i ∉ done := by
  have nodup := List.nodup_finRange NOFILE
  rw [← all] at nodup
  exact fun member => (List.nodup_append.mp nodup).2.2 i member i (List.mem_cons_self ..) rfl

theorem tally_fork {np : Fin NPROC} (free : proc np = none) (pr : Process) :
    tally (slot (update proc np (some pr))) = tally (slot proc) + tally pr.ofile := by
  apply tally_row (x := np)
  · intro q i ne
    unfold slot
    rw [update_of_ne ne]
  · exact slot_of (update_self ..)
  · intro i
    unfold slot
    rw [free]
    rfl

end Xv6.Fs
