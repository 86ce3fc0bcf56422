import Xv6.Calls.Exact
import Xv6.Fs.Sharing

namespace Xv6.Fs

open Function Outcome Tally Transition Xv6.Stream

variable {sb : Superblock} {devsw : Devsw}

/-- A descriptor for reading from a pipe, or for writing into it. -/
def Refers (s : Kernel) (page : Nat) (writes : Bool) (x : Fin NPROC × Fin NOFILE) : Prop :=
  ∃ f, slot s.proc x = some f ∧ (s.file f).type = .FD_PIPE ∧ (s.file f).pipe = page ∧
    (s.file f).writable = writes ∧ (s.file f).readable = !writes

/-- References to open files are exact, and a page is a pipe as long as a descriptor refers to it. -/
structure OpenFiles (s : Kernel) : Prop where
  refs : ∀ f, (s.file f).ref = (Finset.univ.filter fun x => slot s.proc x = some f).card
  closed : ∀ f, (s.file f).ref = 0 → (s.file f).type = .FD_NONE ∧ ∀ x, slot s.proc x ≠ some f
  readers : ∀ page p, s.pipe page = some p → (p.readopen = true ↔ ∃ x, Refers s page false x)
  writers : ∀ page p, s.pipe page = some p → (p.writeopen = true ↔ ∃ x, Refers s page true x)
  pages : ∀ page, (s.pipe page).isSome = true ↔ ∃ writes x, Refers s page writes x
  nodup : s.freelist.Nodup
  apart : ∀ page ∈ s.freelist, s.pipe page = none

section Runs

variable {owned : Nat → Prop} {s s' : Kernel} {e : Event}

theorem Exact.referred (exact' : Exact owned s) (page : Nat) (w : Bool) :
    (∃ f, (s.file f).pipeEnd = some (page, w)) ↔ ∃ x, Refers s page w x := by
  constructor
  · rintro ⟨f, here⟩
    have type : (s.file f).type = .FD_PIPE := by
      by_contra other
      rw [File.pipeEnd_of_other other] at here
      cases here
    rw [File.pipeEnd_of_pipe type] at here
    cases here
    have live : 0 < tally (slot s.proc) f := by
      rw [← exact'.files.refs f]
      by_contra free
      have closed := exact'.files.closed f (by omega)
      rw [type] at closed
      cases closed
    obtain ⟨x, points⟩ := exists_of_tally_pos live
    exact ⟨x, f, points, type, rfl, rfl, exact'.files.modes f type⟩
  · rintro ⟨x, f, _, type, rfl, rfl, _⟩
    exact ⟨f, File.pipeEnd_of_pipe type⟩

theorem Exact.openFiles (exact' : Exact owned s) : OpenFiles s where
  refs f := (exact'.files.refs f).trans (tally_eq_card _ _)
  closed f free := by
    constructor
    · exact exact'.files.closed f free
    · intro x here
      have held := tally_pos here
      rw [← exact'.files.refs f] at held
      omega
  readers page p found := (exact'.pipes.sides page p found false).trans (exact'.referred page false)
  writers page p found := (exact'.pipes.sides page p found true).trans (exact'.referred page true)
  pages page := by
    constructor
    · intro pipe
      obtain ⟨p, found⟩ := Option.isSome_iff_exists.mp pipe
      obtain ⟨w, still⟩ := exact'.pipes.used page p found
      exact ⟨w, (exact'.referred page w).mp ((exact'.pipes.sides page p found w).mp still)⟩
    · rintro ⟨w, refers⟩
      obtain ⟨f, here⟩ := (exact'.referred page w).mpr refers
      exact exact'.pipes.live f page w here
  nodup := exact'.pipes.nodup
  apart := exact'.pipes.apart

theorem Exact.booted (d : Disk) {freelist : List Nat} (nodup : freelist.Nodup) :
    Exact (· ∈ freelist) (booted d freelist) := by
  have empty : slot (Fs.booted d freelist).proc = fun _ => none := by
    funext x
    unfold slot Fs.booted
    dsimp only
    by_cases first : x.1 = initproc
    · rw [first, update_self]
      rfl
    · rw [update_of_ne first]
      rfl
  unfold Exact
  rw [empty, tally_none]
  constructor
  · rfl
  · exact ⟨fun _ => rfl, fun _ _ => rfl, nofun⟩
  · constructor
    · nofun
    · nofun
    · nofun
    · nofun
    · exact nodup
    · exact fun _ _ => rfl
    · exact fun page => ⟨fun either => either.resolve_left nofun, .inr⟩

theorem Exact.pages (exact' : Exact owned s) {freelist : List Nat} (nodup : freelist.Nodup)
    (apart : ∀ page ∈ freelist, (s.pipe page).isNone = true) :
    Exact (fun page => (s.pipe page).isSome ∨ page ∈ freelist) { s with freelist := freelist } where
  proc := rfl
  files := exact'.files
  pipes := by
    constructor
    · exact exact'.pipes.sides
    · exact exact'.pipes.used
    · exact exact'.pipes.live
    · exact exact'.pipes.alone
    · exact nodup
    · exact fun page member => Option.isNone_iff_eq_none.mp (apart page member)
    · exact fun _ => Iff.rfl

theorem Exact.call (exact' : Exact owned s) {p : Fin NPROC} {c : Call} (taken : Event.step sb devsw s (.call p c) s') :
    Exact owned s' := by
  obtain ⟨allowed, curproc, here, r, ran⟩ := Event.step_call.mp taken
  exact (exact'.run here c allowed).ok ran

theorem Exact.step (exact' : Exact owned s) (taken : e.step sb devsw s s') : ∃ owned, Exact owned s' := by
  cases e with
  | call p c => exact ⟨owned, exact'.call taken⟩
  | pages freelist =>
    obtain ⟨nodup, apart, rfl⟩ := Event.step_pages.mp taken
    exact ⟨_, exact'.pages nodup apart⟩

/-- For every run of system calls. A page of a pipe is freed by a call that puts it on the free list once; after that no
call uses it as a pipe. -/
theorem open_files_exact {d : Disk} {freelist : List Nat} (nodup : freelist.Nodup) {past : List (Kernel × Event)}
    (path : Path (Event.step sb devsw) (booted d freelist) past s) :
    OpenFiles s ∧ ∀ p curproc c, s.proc p = some curproc → c.Allowed s = true →
      (∀ e, c.run sb devsw p curproc s = .error e → e ≠ .panic "filedup" ∧ e ≠ .panic "fileclose" ∧ e ≠ .stray) ∧
      ∀ s', Event.step sb devsw s (.call p c) s' → ∀ page, (s.pipe page).isSome = true → s'.pipe page = none →
        s.freelist.count page = 0 ∧ s'.freelist.count page = 1 := by
  have reached : ∃ owned, Exact owned s :=
    path.always (I := fun s => ∃ owned, Exact owned s) ⟨_, .booted d nodup⟩ fun ⟨_, exact'⟩ taken => exact'.step taken
  obtain ⟨owned, exact'⟩ := reached
  constructor
  · exact exact'.openFiles
  · intro p curproc c here allowed
    constructor
    · intro e failed
      exact Fair.only ((exact'.run here c allowed).error failed)
    · intro s' taken page pipe gone
      have after := exact'.call taken
      have free : page ∈ s'.freelist := by
        apply ((after.pipes.pages page).mpr ((exact'.pipes.pages page).mp (.inl pipe))).resolve_left
        rw [gone]
        nofun
      constructor
      · apply List.count_eq_zero.mpr
        intro member
        rw [exact'.pipes.apart page member] at pipe
        cases pipe
      · exact List.count_eq_one_of_mem after.pipes.nodup free

/-- A pipe is shared with a child, and each process closes one end. -/
theorem open_files_exact_of_pipe : ∃ past s, Path (Event.step Mkfs.sb noDevice) (booted (fun _ _ => 0) [7]) past s ∧
    s.freelist = [] ∧ OpenFiles s := by
  let child : Fin NPROC := ⟨1, by decide⟩
  let readEnd : Fin NOFILE := ⟨0, by decide⟩
  let writeEnd : Fin NOFILE := ⟨1, by decide⟩
  obtain ⟨past, s, path, test⟩ := replay_reaches (Event.next Mkfs.sb noDevice) (booted (fun _ _ => 0) [7])
    [.call initproc (.pipe true), .call initproc (.fork (some (child, 2))), .call initproc (.close (some readEnd)),
      .call child (.close (some writeEnd))]
    (fun _ s => s.freelist.isEmpty) (by decide +kernel)
  exact ⟨past, s, path, List.isEmpty_iff.mp test, (open_files_exact (by decide) path).1⟩

end Runs

end Xv6.Fs
