import Xv6.Books.Calm
import Xv6.Cow.Clients

namespace Xv6

open CommandProgram Function Ledger Discipline

/-- The command does not take away the last count of a frame without freeing it. -/
def Lossless (command : Cmd) (s : Shared) : Prop := ∀ f, command = .dRCount f → s.kmem.page_rCount f ≠ 1

section

variable [KernelImage]

variable {s : Shared} {f : Nat}

/-- If nobody counts the frame, then it is on the free list. -/
def Found (s : Shared) (f : Nat) : Prop := s.kmem.page_rCount f = 0 → f ∈ s.kmem.freelist

/-- Every managed frame that nobody counts is on the free list. -/
def Complete (s : Shared) : Prop := ∀ f, Managed f → s.kmem.page_rCount f = 0 → f ∈ s.kmem.freelist

theorem booted_complete (ram : Nat → Page) : Complete (booted .cow ram) := by
  intro f managed zero
  have boot := booted_booted .cow ram
  rw [boot.page_rCount rfl] at zero
  rw [boot.freelist]
  exact (mem_bootPages f).mpr ⟨managed, fun kpgdir => absurd zero (by rw [kpgdirCount, if_pos kpgdir]; decide)⟩

section

omit [KernelImage]

theorem Shared.kfree_last {s : Shared} {pa : Nat} (last : s.kmem.page_rCount pa ≤ 1) :
    (s.kfree .cow pa).kmem = ⟨pa :: s.kmem.freelist, s.kmem.free_pages + 1, update s.kmem.page_rCount pa 0⟩ := by
  rcases Nat.lt_or_ge 0 (s.kmem.page_rCount pa) with one | zero
  · have none : s.kmem.page_rCount pa - 1 = 0 := by omega
    simp [Shared.kfree, one, none]
  · have none : s.kmem.page_rCount pa = 0 := by omega
    have same : update s.kmem.page_rCount pa 0 = s.kmem.page_rCount := by rw [← none, update_eq_self]
    simp [Shared.kfree, none, same]

theorem Shared.kfree_shared {s : Shared} {pa : Nat} (several : 1 < s.kmem.page_rCount pa) :
    s.kfree .cow pa = { s with kmem :=
      { s.kmem with page_rCount := update s.kmem.page_rCount pa (s.kmem.page_rCount pa - 1) } } := by
  have positive : 0 < s.kmem.page_rCount pa := by omega
  have some : s.kmem.page_rCount pa - 1 ≠ 0 := by omega
  simp [Shared.kfree, positive, some]

theorem Found.kalloc (found : Found s f) : Found (s.kalloc .cow).2 f := by
  intro zero
  cases free : s.kmem.freelist with
  | nil =>
    simp only [Shared.kalloc, free] at zero ⊢
    exact free ▸ found zero
  | cons r next =>
    simp only [Shared.kalloc, free] at zero ⊢
    have other : f ≠ r := by
      intro same
      simp [same] at zero
    have member := found (by simpa [other] using zero)
    simpa [free, other] using member

theorem Found.kfree (found : Found s f) (pa : Nat) : Found (s.kfree .cow pa) f := by
  intro zero
  rcases Nat.lt_or_ge 1 (s.kmem.page_rCount pa) with several | last
  · rw [Shared.kfree_shared several] at zero ⊢
    by_cases same : f = pa
    · subst same
      simp only [update_self] at zero
      omega
    · exact found (by simpa [same] using zero)
  · rw [Shared.kfree_last last] at zero ⊢
    by_cases same : f = pa
    · simp [same]
    · exact List.mem_cons_of_mem pa (found (by simpa [same] using zero))

theorem Found.iRCount (found : Found s f) (pa : Nat) : Found (s.iRCount pa) f := by
  intro zero
  by_cases same : f = pa
  · subst same
    simp [Shared.iRCount] at zero
  · exact found (by simpa [Shared.iRCount, same] using zero)

theorem Found.dRCount (found : Found s f) {pa : Nat} (several : s.kmem.page_rCount pa ≠ 1) : Found (s.dRCount pa) f := by
  intro zero
  by_cases same : f = pa
  · subst same
    simp only [Shared.dRCount, update_self] at zero
    split at zero <;> omega
  · exact found (by simpa [Shared.dRCount, same] using zero)

/-- Only `d_rCount` can lose a frame, and only by taking away its last count. -/
theorem execute_found {command : Cmd} {p : Proc} (found : Found s f) (lossless : Lossless command s) :
    Found (execute .cow command (s, p)).2.1 f := by
  cases command
  case kalloc => exact found.kalloc
  case kfree pa => exact found.kfree pa
  case freePte pgdir v pa => exact found.kfree pa
  case iRCount pa => exact found.iRCount pa
  case dRCount pa => exact found.dRCount (lossless pa rfl)
  all_goals exact found

end

theorem execute_complete {command : Cmd} {p : Proc} (complete : Complete s) (lossless : Lossless command s) :
    Complete (execute .cow command (s, p)).2.1 :=
  fun f managed => execute_found (complete f managed) lossless

end

variable [KernelImage] {ι : Type} [Fintype ι] [DecidableEq ι]

section

omit [Fintype ι]

theorem Run.complete {c : Clients ι} (run : Run Lossless c) : Complete c.shared := by
  induction run with
  | boot ram =>
    dsimp only
    exact booted_complete ram
  | start _ _ _ complete => exact complete
  | issue _ _ permitted complete => exact execute_complete complete permitted
  | give _ _ _ _ _ complete => exact complete

theorem Run.weaken {permits weaker : Cmd → Shared → Prop} (implies : ∀ command s, permits command s → weaker command s)
    {c : Clients ι} (run : Run permits c) : Run weaker c := by
  induction run with
  | boot ram => exact .boot ram
  | start _ idle allowed weak => exact .start weak idle allowed
  | issue _ current permitted weak => exact .issue weak current (implies _ _ permitted)
  | give _ different idle idle' at_d weak => exact .give weak different idle idle' at_d

/-- A thread executes the first part of its operation while the others wait. -/
theorem Run.advance {permits : Cmd → Shared → Prop} {α : Type} {program : Vm α} {rest : α → Vm Unit} {c : Clients ι}
    {t : ι} (run : Run permits c) (current : c.left t = program >>= rest) {reached : α → Shared × Proc → Prop}
    (along : Program.Along (execute .cow) (fun command s => permits command s.1) reached program (c.shared, c.own t))
    {value : α} {s' : Shared} {p' : Proc}
    (done : Program.run (execute .cow) program (c.shared, c.own t) = (.ok value, (s', p'))) :
    Run permits ⟨s', update c.own t p', update c.left t (rest value)⟩ := by
  induction program generalizing c with
  | ret _ =>
    simp only [Program.run_ret, Prod.mk.injEq, Except.ok.injEq] at done
    obtain ⟨rfl, rfl, rfl⟩ := done
    rw [Program.ret_bind] at current
    rw [← current, update_eq_self, update_eq_self]
    exact run
  | fail error => simp at done
  | call command next ih =>
    rw [Program.along_call] at along
    rw [Program.call_bind] at current
    have step := Run.issue run current along.1
    have later := ih (execute .cow command (c.shared, c.own t)).1 step (by simp [Threads.issue])
      (by simpa [Threads.issue] using along.2) (by simpa [Threads.issue] using done)
    simpa [Threads.issue] using later

theorem Run.perform {permits : Cmd → Shared → Prop} {program : Vm Unit} {c : Clients ι} {t : ι}
    (run : Run permits c) (current : c.left t = program) {reached : Unit → Shared × Proc → Prop}
    (along : Program.Along (execute .cow) (fun command s => permits command s.1) reached program (c.shared, c.own t))
    {s' : Shared} {p' : Proc}
    (done : Program.run (execute .cow) program (c.shared, c.own t) = (.ok (), (s', p'))) :
    Run permits ⟨s', update c.own t p', update c.left t (.ret ())⟩ := by
  have whole : c.left t = program >>= Program.ret := by rw [current, Program.bind_ret]
  exact run.advance whole along done

end

/-- The kernel keeps the frame for itself: a page directory, a page table or a page of its own. -/
def KernelOwned (own : ι → Proc) (f : Nat) : Prop :=
  ∃ t, f ∈ (own t).kpages ∨ ∃ d x, (own t).dirs d = some x ∧ (f = d ∨ ∃ i < npdEntries, x.pde i = some f)

omit [KernelImage] in
theorem pdeRefs_pos {o : Option Nat} {k : Kind} {f : Nat} (positive : 0 < pdeRefs o k f) : o = some f := by
  cases o with
  | none => simp [pdeRefs] at positive
  | some pa =>
    by_cases same : k = .owner ∧ f = pa
    · rw [same.2]
    · simp [pdeRefs, unit, same] at positive

omit [KernelImage] in
theorem pteRefs_pos {e : Pte} {k : Kind} {f : Nat} (positive : 0 < e.refs k f) : e.p = true ∧ e.addr = f := by
  cases present : e.p
  · simp [Pte.refs_zero present] at positive
  · rw [Pte.refs_present present] at positive
    refine ⟨rfl, ?_⟩
    by_contra other
    have different : f ≠ e.addr := fun same => other same.symm
    simp [unit, different] at positive

omit [KernelImage] [Fintype ι] [DecidableEq ι] in
/-- What the tables of a process refer to is mapped or a frame of the kernel. -/
theorem refs_accounted {own : ι → Proc} {t : ι} {k : Kind} {f : Nat} (positive : 0 < (own t).refs k f) :
    (∃ d v e, Mapped own t d v e ∧ e.addr = f) ∨ KernelOwned own f := by
  by_cases table : 0 < ∑ d ∈ Finset.range frames, dirRefs d ((own t).dirs d) k f
  · obtain ⟨d, _, some⟩ := FiniteSums.exists_of_sum_pos table
    cases at_d : (own t).dirs d with
    | none => simp [at_d, dirRefs] at some
    | some x =>
      rw [at_d] at some
      simp only [dirRefs, PgDir.refs] at some
      by_cases directory : 0 < unit .owner d k f
      · have same : f = d := by
          by_contra other
          simp [unit, other] at directory
        exact .inr ⟨t, .inr ⟨d, x, at_d, .inl same⟩⟩
      · by_cases entry : 0 < ∑ i ∈ Finset.range npdEntries, pdeRefs (x.pde i) k f
        · obtain ⟨i, inside, here⟩ := FiniteSums.exists_of_sum_pos entry
          exact .inr ⟨t, .inr ⟨d, x, at_d, .inr ⟨i, Finset.mem_range.mp inside, pdeRefs_pos here⟩⟩⟩
        · have page : 0 < ∑ v ∈ Finset.range userPages, (x.pte v).refs k f := by omega
          obtain ⟨v, inside, here⟩ := FiniteSums.exists_of_sum_pos page
          have shown := pteRefs_pos here
          exact .inl ⟨d, v, x.pte v, ⟨Finset.mem_range.mp inside, shown.1, x, at_d, rfl⟩, shown.2⟩
  · have kept : 0 < (own t).kpages.count f := by
      unfold Proc.refs at positive
      split at positive <;> omega
    exact .inr ⟨t, .inl (List.count_pos_iff.mp kept)⟩

def Clients.Idle (c : Clients ι) : Prop := ∀ t, c.left t = .ret ()

/-- Every managed frame is free, mapped or a frame of the kernel, and only free frames have no count. -/
structure NoneLost (c : Clients ι) : Prop where
  found : ∀ f, Managed f → f ∈ c.shared.kmem.freelist ∨
    (∃ t d v e, Mapped c.own t d v e ∧ e.addr = f) ∨ KernelOwned c.own f ∨ Kpgdir f
  counted : ∀ f, Managed f → c.shared.kmem.page_rCount f = 0 → f ∈ c.shared.kmem.freelist

theorem Run.calm {permits : Cmd → Shared → Prop} {c : Clients ι} (run : Run permits c) (idle : c.Idle) :
    ∃ mark, (clientSetting ι).Calm c.shared c.own mark := by
  obtain ⟨gh, ⟨count, mark, inv⟩, outlines⟩ := run.sound
  refine ⟨mark, inv.calm fun t => ?_⟩
  have rested := outlines t
  rwa [idle t, outline_ret] at rested

end Xv6
