import Xv6.System.First

namespace Xv6

open CommandProgram Function Ledger

/-- What an access may do. The hardware treats the fetch of an instruction like a read. -/
inductive Access where
  | read
  | write
  | execute
  deriving DecidableEq

/-- The check of the hardware; `user` is the privilege level, and kernel code may not write where the
    entry does not say so either. -/
def Pte.allows (e : Pte) (user : Bool) (access : Access) : Bool :=
  e.p && (decide (access ≠ .write) || e.w) && (!user || e.u)

/-- The entry that the hardware finds for the address `va`. -/
def Proc.entry (p : Proc) (va : Nat) : Pte := (p.dir p.pgdir).pte (pageOf va)

def Proc.setEntry (p : Proc) (va : Nat) (e : Pte) : Proc :=
  p.setDir p.pgdir ((p.dir p.pgdir).setPte (pageOf va) e)

theorem Proc.entry_setEntry {p : Proc} {va : Nat} (has : (p.dir p.pgdir).Has (pageOf va)) (e : Pte) :
    (p.setEntry va e).entry va = e := by
  have read : (p.setEntry va e).entry va = ((p.dir p.pgdir).setPte (pageOf va) e).pte (pageOf va) := by
    simp [entry, setEntry, dir, setDir]
  rw [read, PgDir.pte_setPte has, update_self]

@[simp] theorem Proc.killed_setEntry (p : Proc) (va : Nat) (e : Pte) : (p.setEntry va e).killed = p.killed := rfl

theorem Pte.allows_opened (e : Pte) (user : Bool) (access : Access) :
    { e with w := true }.allows user access = (e.p && (!user || e.u)) := by
  simp [allows]

variable [KernelImage] {s s' : Shared} {p p' : Proc} {va : Nat} {user : Bool} {access : Access}

/-- How `COW_FAULT` ends, by what it finds. -/
inductive FaultRun (s : Shared) (p : Proc) (va : Nat) : Except Halt Unit → Shared → Proc → Prop where
  | absent (missing : ¬ (p.dir p.pgdir).Has (pageOf va)) : FaultRun s p va (.error .nullDeref) s p
  | foreign (has : (p.dir p.pgdir).Has (pageOf va)) (outside : ¬ Managed (p.entry va).addr) :
    FaultRun s p va (.error (.panic "getReferenceCount")) s p
  | uncounted (has : (p.dir p.pgdir).Has (pageOf va)) (managed : Managed (p.entry va).addr)
      (zero : s.kmem.page_rCount (p.entry va).addr = 0) :
    FaultRun s p va (.error (.panic "Error in COW_FAULT: Incorrect Reference Count")) s p
  | promoted (has : (p.dir p.pgdir).Has (pageOf va)) (managed : Managed (p.entry va).addr)
      (one : s.kmem.page_rCount (p.entry va).addr = 1) :
    FaultRun s p va (.ok ()) s (p.setEntry va { p.entry va with w := true })
  | copied (mem : Nat) (rest : List Nat) (has : (p.dir p.pgdir).Has (pageOf va))
      (managed : Managed (p.entry va).addr) (several : 1 < s.kmem.page_rCount (p.entry va).addr)
      (free : s.kmem.freelist = mem :: rest) :
    FaultRun s p va (.ok ()) (s.copied mem (p.entry va).addr) (p.setEntry va (.make mem permWU))
  | exhausted (has : (p.dir p.pgdir).Has (pageOf va)) (managed : Managed (p.entry va).addr)
      (several : 1 < s.kmem.page_rCount (p.entry va).addr) (free : s.kmem.freelist = []) :
    FaultRun s p va (.ok ()) s { p with killed := true }

theorem cowFault_run (s : Shared) (p : Proc) (va : Nat) :
    ∃ result s' p', Program.run (execute .cow) (cowFault p.pgdir va) (s, p) = (result, (s', p')) ∧
      FaultRun s p va result s' p' := by
  have look : Program.run (execute .cow) (cowLook p.pgdir va) (s, p) =
      (if ¬ (p.dir p.pgdir).Has (pageOf va) then .error .nullDeref
        else if ¬ Managed (p.entry va).addr then .error (.panic "getReferenceCount")
        else .ok (pageOf va, p.entry va, s.kmem.page_rCount (p.entry va).addr), (s, p)) := run_cowLook
  rw [cowFault_eq]
  by_cases has : (p.dir p.pgdir).Has (pageOf va)
  · by_cases managed : Managed (p.entry va).addr
    · rw [if_neg (not_not.mpr has), if_neg (not_not.mpr managed)] at look
      rw [Program.run_bind_ok look]
      rcases Nat.lt_trichotomy (s.kmem.page_rCount (p.entry va).addr) 1 with zero | one | several
      · have zero : s.kmem.page_rCount (p.entry va).addr = 0 := by omega
        rw [zero]
        exact ⟨_, _, _, run_cowAct_zero, .uncounted has managed zero⟩
      · rw [one]
        exact ⟨_, _, _, run_cowAct_promote, .promoted has managed one⟩
      · cases free : s.kmem.freelist with
        | nil => exact ⟨_, _, _, run_cowAct_kill several free, .exhausted has managed several free⟩
        | cons mem rest =>
          exact ⟨_, _, _, run_cowAct_copy several free managed, .copied mem rest has managed several free⟩
    · rw [if_neg (not_not.mpr has), if_pos managed] at look
      exact ⟨_, _, _, Program.run_bind_error look, .foreign has managed⟩
  · rw [if_pos has] at look
    exact ⟨_, _, _, Program.run_bind_error look, .absent has⟩

/-- `trap` returns when `COW_FAULT` does; it ends in `exit` for a process that is killed in user mode. -/
theorem trap_run {result : Except Halt Unit}
    (fault : Program.run (execute .cow) (cowFault p.pgdir va) (s, p) = (result, (s', p'))) :
    Program.run (execute .cow) (trap .cow user p.pgdir va) (s, p) =
      (result.map fun _ => p'.killed && user, (s', p')) := by
  unfold trap
  cases result with
  | error halt => exact Program.run_bind_error fault
  | ok done =>
    dsimp only
    rw [Program.run_bind_ok fault]
    rfl

/-- `COW_FAULT` gets as far as to a frame with a count. -/
def Countable (s : Shared) (p : Proc) (va : Nat) : Prop :=
  (p.dir p.pgdir).Has (pageOf va) ∧ Managed (p.entry va).addr ∧ 0 < s.kmem.page_rCount (p.entry va).addr

theorem FaultRun.countable {result : Except Halt Unit} (fault : FaultRun s p va result s' p') :
    result = .ok () ↔ Countable s p va := by
  cases fault with
  | absent missing => simp [Countable, missing]
  | foreign has outside => simp [Countable, outside]
  | uncounted has managed zero => simp [Countable, zero]
  | promoted has managed one => simp [Countable, has, managed, one]
  | copied mem rest has managed several free => simp [Countable, has, managed, Nat.zero_lt_of_lt several]
  | exhausted has managed several free => simp [Countable, has, managed, Nat.zero_lt_of_lt several]

/-- A write to a page that the user may read has become one that is allowed. -/
def Pte.Resolved (e e' : Pte) (access : Access) : Prop :=
  access = .write ∧ e.p = true ∧ e.u = true ∧ e'.allows true .write = true

omit [KernelImage] in
theorem Pte.resolved_iff {e e' : Pte} {access : Access} (opened : e.p = true ∧ e.u = true → e'.allows true .write = true) :
    e.Resolved e' access ↔ access = .write ∧ e.p = true ∧ e.u = true := by
  constructor
  · exact fun resolved => ⟨resolved.1, resolved.2.1, resolved.2.2.1⟩
  · exact fun ⟨write, present, unprivileged⟩ => ⟨write, present, unprivileged, opened ⟨present, unprivileged⟩⟩

/-- `trap` returns to user code that may now write, or with the process marked as killed. -/
def FaultHandled (s : Shared) (p : Proc) (va : Nat) (access : Access) : Prop :=
  ∃ exits s' p', Program.run (execute .cow) (trap .cow true p.pgdir va) (s, p) = (.ok exits, (s', p')) ∧
    ((p.entry va).Resolved (p'.entry va) access ∨ p'.killed = true)

/-- Which faults of user code are dealt with. All others end in a panic, in the use of the null pointer
    or in a return to the faulting instruction. -/
theorem user_fault_handled (s : Shared) (p : Proc) (va : Nat) (access : Access) :
    FaultHandled s p va access ↔ Countable s p va ∧
      ((access = .write ∧ (p.entry va).p = true ∧ (p.entry va).u = true) ∨ p.killed = true ∨
        (1 < s.kmem.page_rCount (p.entry va).addr ∧ s.kmem.freelist = [])) := by
  obtain ⟨result, s', p', run, fault⟩ := cowFault_run s p va
  have trapped : Program.run (execute .cow) (trap .cow true p.pgdir va) (s, p) = _ := trap_run run
  have only : FaultHandled s p va access ↔ result = .ok () ∧
      ((p.entry va).Resolved (p'.entry va) access ∨ p'.killed = true) := by
    unfold FaultHandled
    rw [trapped]
    cases result <;> simp [Except.map]
  rw [only, fault.countable, and_congr_right_iff]
  intro countable
  cases fault with
  | absent missing => exact absurd countable.1 missing
  | foreign has outside => exact absurd countable.2.1 outside
  | uncounted has managed zero => simp [Countable, zero] at countable
  | promoted has managed one =>
    rw [Proc.entry_setEntry has, Pte.resolved_iff fun both => by simp [Pte.allows, both]]
    simp [one]
  | copied mem rest has managed several free =>
    rw [Proc.entry_setEntry has, Pte.resolved_iff fun _ => rfl]
    simp [free]
  | exhausted has managed several free => simp [several, free]

/-- Any process that reads the first page of the kernel half brings the kernel down. -/
theorem kernel_read_panics {x : PgDir} (occupied : Occupied p x) :
    (p.entry kernBase).allows true .read = false ∧
      Program.run (execute .cow) (trap .cow true p.pgdir kernBase) (s, p) =
        (.error (.panic "getReferenceCount"), (s, p)) := by
  have entry : p.entry kernBase = .make 0 permW := by
    have first := kmapPte_direct (f := 0) (by decide)
    have installed := occupied.kernel userPages (le_refl _)
    have page : pageOf kernBase = userPages := by decide
    rw [Proc.entry, occupied.dir, page, installed]
    exact first
  refine ⟨by rw [entry]; rfl, ?_⟩
  obtain ⟨result, s', p', run, fault⟩ := cowFault_run s p kernBase
  have has : (p.dir p.pgdir).Has (pageOf kernBase) := by
    apply PgDir.has_of_present
    show (p.entry kernBase).p = true
    rw [entry]
    rfl
  have outside : ¬ Managed (p.entry kernBase).addr := by
    rw [entry]
    exact foreign_zero
  cases fault with
  | absent missing => exact absurd has missing
  | foreign has outside => exact trap_run run
  | uncounted has managed zero => exact absurd managed outside
  | promoted has managed one => exact absurd managed outside
  | copied mem rest has managed several free => exact absurd managed outside
  | exhausted has managed several free => exact absurd managed outside

omit [KernelImage] in
/-- The child of a first `fork` reads the memory of the kernel. -/
theorem user_fault_unhandled :
    let _ := builtImage
    ∃ c : System (Fin 2), Reach .cow (fun _ _ => True) c ∧ c.state 1 = .live ∧ c.parent 1 = some 0 ∧
      ((c.proc 1).entry kernBase).allows true .read = false ∧
      Program.run (execute .cow) (trap .cow true (c.proc 1).pgdir kernBase) (c.shared, c.proc 1) =
        (.error (.panic "getReferenceCount"), (c.shared, c.proc 1)) ∧
      ¬ FaultHandled c.shared (c.proc 1) kernBase .read := by
  let _ := builtImage
  obtain ⟨c, x, y, twins⟩ : ∃ c x y, Pair (fun _ _ => True) (0 : Fin 2) 1 c x y := pair_reached (by decide)
    fun _ => trivial
  obtain ⟨refused, panics⟩ := kernel_read_panics (s := c.shared) twins.child
  refine ⟨c, twins.reach, twins.forked.1, twins.forked.2, refused, panics, ?_⟩
  rintro ⟨exits, s', p', done, _⟩
  rw [panics] at done
  simp at done

/-- `trap` exits the process, or the entry permits the access now. -/
def Progress (user : Bool) (access : Access) (va : Nat) (exits : Bool) (p' : Proc) : Prop :=
  exits = true ∨ (p'.entry va).allows user access = true

/-- Which faults come to an end, and which of these are progress. After the others the same
    instruction faults again. -/
theorem fault_progress (s : Shared) (p : Proc) (va : Nat) (user : Bool) (access : Access)
    (refused : (p.entry va).allows user access = false) :
    ((∃ exits s' p', Program.run (execute .cow) (trap .cow user p.pgdir va) (s, p) = (.ok exits, (s', p'))) ↔
      Countable s p va) ∧
    ∀ exits s' p', Program.run (execute .cow) (trap .cow user p.pgdir va) (s, p) = (.ok exits, (s', p')) →
      (Progress user access va exits p' ↔
        (s.kmem.page_rCount (p.entry va).addr = 1 ∧ (p.entry va).p = true ∧ (user = true → (p.entry va).u = true)) ∨
        (user = true ∧ p.killed = true) ∨
        (1 < s.kmem.page_rCount (p.entry va).addr ∧ (s.kmem.freelist ≠ [] ∨ user = true))) := by
  obtain ⟨result, s₁, p₁, run, fault⟩ := cowFault_run s p va
  rw [trap_run run, ← fault.countable]
  constructor
  · cases result <;> simp [Except.map]
  · intro exits s' p' done
    cases result with
    | error halt => simp [Except.map] at done
    | ok done' =>
      simp only [Except.map, Prod.mk.injEq, Except.ok.injEq] at done
      obtain ⟨rfl, rfl, rfl⟩ := done
      unfold Progress
      cases fault with
      | promoted has managed one =>
        rw [Proc.entry_setEntry has, Pte.allows_opened]
        cases user
        · simp [one]
        · simp [one, or_comm]
      | copied mem rest has managed several free =>
        rw [Proc.entry_setEntry has]
        simp [Pte.allows, Pte.make, permWU, several, free]
      | exhausted has managed several free =>
        have unchanged : ({ p with killed := true } : Proc).entry va = p.entry va := rfl
        have shared : s.kmem.page_rCount (p.entry va).addr ≠ 1 := by omega
        rw [unchanged, refused]
        cases user
        · simp [several, free, shared]
        · simp [several]

/-- A process whose page 0 is mapped without write permission. -/
def Proc.sharing : Proc where
  kstack := 1030
  pgdir := 1031
  sz := pgSize
  killed := false
  dirs := update (fun _ => none) 1031 (some ((PgDir.empty.setPde 0 1032).setPte 0 ⟨1024, true, false, true⟩))
  kpages := [1030]

omit [KernelImage] in
/-- Its write comes to an end and is progress when the frame has two users and there is a free page. -/
theorem fault_progress_of_write :
    let _ := builtImage
    (∃ exits s' p', Program.run (execute .cow) (trap .cow true 1031 0)
      (⟨⟨[1025], 1, fun _ => 2⟩, fun _ => Shared.junk⟩, Proc.sharing) = (.ok exits, (s', p'))) ∧
    ∀ exits s' p', Program.run (execute .cow) (trap .cow true 1031 0)
      (⟨⟨[1025], 1, fun _ => 2⟩, fun _ => Shared.junk⟩, Proc.sharing) = (.ok exits, (s', p')) →
      Progress true .write 0 exits p' := by
  let _ := builtImage
  have both := fault_progress ⟨⟨[1025], 1, fun _ => 2⟩, fun _ => Shared.junk⟩ Proc.sharing 0 true .write (by decide)
  refine ⟨both.1.mpr ⟨by decide, by decide, by decide⟩, fun exits s' p' done => ?_⟩
  exact (both.2 exits s' p' done).mpr (.inr (.inr ⟨by decide, .inr rfl⟩))

/-- A process that reads a page which only the kernel uses, such as its own page directory, changes nothing
    by the fault. -/
theorem own_read_faults {x : PgDir} (occupied : Occupied p x) (alive : p.killed = false) {f : Nat} (managed : Managed f)
    (one : s.kmem.page_rCount f = 1) :
    (p.entry ((userPages + f) * pgSize)).allows true .read = false ∧
      Program.run (execute .cow) (trap .cow true p.pgdir ((userPages + f) * pgSize)) (s, p) =
        (.ok false, (s, p)) := by
  have page : pageOf ((userPages + f) * pgSize) = userPages + f := by
    unfold pageOf pgSize
    omega
  have entry : p.entry ((userPages + f) * pgSize) = .make f permW := by
    rw [Proc.entry, occupied.dir, page, occupied.kernel _ (Nat.le_add_right ..)]
    exact kmapPte_managed managed
  refine ⟨by rw [entry]; rfl, ?_⟩
  obtain ⟨result, s', p', run, fault⟩ := cowFault_run s p ((userPages + f) * pgSize)
  generalize (userPages + f) * pgSize = va at *
  have has : (p.dir p.pgdir).Has (pageOf va) := by
    apply PgDir.has_of_present
    show (p.entry va).p = true
    rw [entry]
    rfl
  have frame : (p.entry va).addr = f := by rw [entry]; rfl
  have same : p.setEntry va { p.entry va with w := true } = p := by
    have kept : { p.entry va with w := true } = p.entry va := by rw [entry]; rfl
    rw [kept, Proc.setEntry, Proc.entry, PgDir.setPte_self, occupied.dir, Proc.setDir_self occupied.at_pgdir]
  rw [trap_run run]
  cases fault with
  | absent missing => exact absurd has missing
  | foreign has outside => exact absurd (frame ▸ managed) outside
  | uncounted has managed zero =>
    rw [frame] at zero
    omega
  | promoted has managed one =>
    rw [same, alive]
    rfl
  | copied mem rest has managed several free =>
    rw [frame] at several
    omega
  | exhausted has managed several free =>
    rw [frame] at several
    omega

omit [KernelImage] in
/-- The first process reads its own page directory, again and again. -/
theorem fault_without_progress :
    let _ := builtImage
    ∃ c : System (Fin 1), ∃ va, Reach .cow (fun _ _ => True) c ∧ c.state 0 = .live ∧ va < 2 ^ 32 ∧
      ((c.proc 0).entry va).allows true .read = false ∧
      Program.run (execute .cow) (trap .cow true (c.proc 0).pgdir va) (c.shared, c.proc 0) =
        (.ok false, (c.shared, c.proc 0)) ∧
      ¬ Progress true .read va false (c.proc 0) := by
  let _ := builtImage
  obtain ⟨c, x, first⟩ : ∃ c x, First .cow (fun _ _ => True) (0 : Fin 1) [] c x :=
    first_reached .cow (fun _ _ => True) 0 (by decide) fun _ => Shared.junk
  obtain ⟨mark, calm⟩ := first.sane.calm
  have live : c.state 0 = .live := by rw [first.state, update_self]
  obtain ⟨owned, managed⟩ := calm.owns_dir first.occupied.at_pgdir
  have one := calm.count_owner rfl owned
  obtain ⟨refused, loops⟩ := own_read_faults first.occupied (first.sane.alive 0 live) managed one
  have range := managed.lt_frames
  refine ⟨c, (userPages + (c.proc 0).pgdir) * pgSize, first.reach, live, ?_, refused, loops, ?_⟩
  · rw [frames_eq] at range
    rw [userPages_eq]
    unfold pgSize
    omega
  · rintro (wrong | allowed)
    · exact absurd wrong (by decide)
    · rw [refused] at allowed
      exact absurd allowed (by decide)

end Xv6
