import Xv6.Cow.Frames
import Xv6.Cow.Isolation
import Xv6.Memory.Steps
import Xv6.Memory.Uses

namespace Xv6

open CommandProgram Function Ledger Discipline

section Counting

variable {f : Nat}

/-- How many entries of the user half map frame `f`. -/
def PgDir.maps (x : PgDir) (f : Nat) : Nat :=
  ∑ v ∈ Finset.range userPages, if (x.pte v).p = true ∧ (x.pte v).addr = f then 1 else 0

/-- How often frame `f` is the page of the directory itself or of a page table. -/
def PgDir.owns (d : Nat) (x : PgDir) (f : Nat) : Nat :=
  (if f = d then 1 else 0) + ∑ i ∈ Finset.range npdEntries, if x.pde i = some f then 1 else 0

def Proc.maps (p : Proc) (f : Nat) : Nat :=
  ∑ d ∈ Finset.range frames, match p.dirs d with
    | none => 0
    | some x => x.maps f

def Proc.owns (p : Proc) (f : Nat) : Nat :=
  p.kpages.count f + ∑ d ∈ Finset.range frames, match p.dirs d with
    | none => 0
    | some x => x.owns d f

theorem held_pte (e : Pte) (f : Nat) : held e.refs f = if e.p = true ∧ e.addr = f then 1 else 0 := by
  cases present : e.p
  · simp [held, Pte.refs, present]
  · by_cases same : e.addr = f
    · subst same
      cases writable : e.w <;> simp [held, Pte.refs, present, writable, unit]
    · have other : f ≠ e.addr := fun equal => same equal.symm
      cases writable : e.w <;> simp [held, Pte.refs, present, writable, unit, same, other]

theorem held_pde (o : Option Nat) (f : Nat) : held (pdeRefs o) f = if o = some f then 1 else 0 := by
  cases o with
  | none => simp [held, pdeRefs]
  | some pa =>
    by_cases same : pa = f
    · subst same
      simp [held, pdeRefs, unit]
    · have other : f ≠ pa := fun equal => same equal.symm
      simp [held, pdeRefs, unit, same, other]

theorem held_owner (d f : Nat) : held (unit .owner d) f = if f = d then 1 else 0 := by
  by_cases same : f = d <;> simp [held, unit, same]

theorem held_dir (d : Nat) (x : PgDir) (f : Nat) : held (x.refs d) f = x.maps f + x.owns d f := by
  have pages : x.maps f = ∑ v ∈ Finset.range userPages, held (x.pte v).refs f := by
    simp only [PgDir.maps, held_pte]
  have tables : x.owns d f = held (unit .owner d) f + ∑ i ∈ Finset.range npdEntries, held (pdeRefs (x.pde i)) f := by
    simp only [PgDir.owns, held_pde, held_owner]
  rw [pages, tables]
  simp only [held, PgDir.refs, Finset.sum_add_distrib]
  omega

theorem held_proc (p : Proc) (f : Nat) : held p.refs f = p.maps f + p.owns f := by
  have dirs : ∀ d, held (dirRefs d (p.dirs d)) f =
      (match p.dirs d with
        | none => 0
        | some x => x.maps f) + match p.dirs d with
        | none => 0
        | some x => x.owns d f := by
    intro d
    cases p.dirs d with
    | none => simp [held, dirRefs]
    | some x => simp only [dirRefs, held_dir]
  have split : held p.refs f = (∑ d ∈ Finset.range frames, held (dirRefs d (p.dirs d)) f) + p.kpages.count f := by
    simp only [held, Proc.refs, Finset.sum_add_distrib, if_true, reduceCtorEq, if_false]
    omega
  rw [split]
  simp only [dirs, Finset.sum_add_distrib, Proc.maps, Proc.owns]
  omega

end Counting

variable [KernelImage] {ι : Type} [Fintype ι] [DecidableEq ι]

/-- What a sequence of whole operations reaches from boot, one after the other. -/
inductive Sequence : Shared → (ι → Proc) → Prop where
  | boot (ram : Nat → Page) : Sequence (booted .cow ram) fun _ => .unused
  | perform {s s' : Shared} {own : ι → Proc} {t : ι} {o : VmOp} {p' : Proc} (sequence : Sequence s own)
      (allowed : o.Allowed (own t))
      (done : Program.run (execute .cow) o.program (s, own t) = (.ok (), (s', p'))) :
      Sequence s' (update own t p')
  | give {s : Shared} {own : ι → Proc} {t u : ι} {d : Nat} {x : PgDir} (sequence : Sequence s own)
      (different : t ≠ u) (at_d : (own t).dirs d = some x) :
      Sequence s (update (update own t ((own t).dropDir d)) u ((own u).setDir d x))

/-- The counts are exact: as many entries of page tables as there are, and the uses by the kernel, with `kpgdir` among them. -/
structure Exact (s : Shared) (own : ι → Proc) : Prop where
  count : ∀ f, Managed f → s.kmem.page_rCount f = (∑ t, (own t).maps f) + (∑ t, (own t).owns f) + kpgdirCount f
  free : ∀ f, Managed f → s.kmem.freelist.count f = if s.kmem.page_rCount f = 0 then 1 else 0
  length : s.kmem.free_pages = s.kmem.freelist.length

omit [KernelImage] in
theorem harmless_lossless {command : Cmd} (s : Shared × Proc) (harmless : Harmless command) :
    Lossless command s.1 := by
  rintro f rfl
  exact absurd harmless id

/-- With nobody else running, the count that `COW_FAULT` has read is still there when it gives its own back. -/
theorem cowFault_lossless {s : Shared} {p : Proc} {pgdir va : Nat}
    (in_use : ((p.dir pgdir).pte (pageOf va)).addr ∉ s.kmem.freelist) :
    Program.Along (execute .cow) (fun command s => Lossless command s.1) (fun _ _ => True)
      (cowFault pgdir va) (s, p) := by
  have quiet : ∀ {command : Cmd} {s : Shared}, Harmless command → Lossless command s :=
    fun harmless => harmless_lossless (_, p) harmless
  unfold cowFault
  apply along_walk
  case holds => exact quiet trivial
  case missing => exact fun _ => Program.along_fail
  intro _
  apply along_pte (by exact quiet trivial)
  generalize (p.dir pgdir).pte (pageOf va) = e at in_use ⊢
  unfold getRCount
  by_cases managed : Managed e.addr
  · rw [if_pos managed]
    apply along_count (by exact quiet trivial)
    by_cases none : s.kmem.page_rCount e.addr < 1
    · rw [if_pos none]
      exact along_panic
    · rw [if_neg none]
      by_cases one : s.kmem.page_rCount e.addr = 1
      · rw [if_pos one]
        rw [← Program.bind_ret (ask _)]
        exact along_ask (quiet trivial) (along_pure trivial)
      · rw [if_neg one]
        apply along_kalloc (by exact quiet trivial)
        cases free : s.kmem.freelist with
        | nil =>
          simp only [Shared.kalloc, free]
          rw [← Program.bind_ret (ask _)]
          exact along_ask (quiet trivial) (along_pure trivial)
        | cons r next =>
          have other : e.addr ≠ r := by
            intro same
            simp [free, same] at in_use
          simp only [Shared.kalloc, free]
          refine along_ask (quiet trivial) (along_ask (quiet trivial) ?_)
          rw [dRCount, if_pos managed, ← Program.bind_ret (ask _)]
          refine along_ask ?_ (along_pure trivial)
          intro f same
          cases same
          show update s.kmem.page_rCount r 1 e.addr ≠ 1
          rwa [update_of_ne other]
  · rw [if_neg managed]
    exact along_panic

theorem VmOp.harmless {o : VmOp} (noFault : ∀ pgdir va, o ≠ .cowFault pgdir va) : o.program.Uses Harmless := by
  have discard : ∀ {α : Type} {program : Vm α}, program.Uses Harmless → (discard program).Uses Harmless :=
    fun uses => Program.uses_bind uses fun _ => uses_pure
  cases o with
  | setupkvm => exact discard setupkvm_uses
  | allocuvm pgdir oldsz newsz => exact discard allocuvm_uses
  | deallocuvm pgdir oldsz newsz => exact discard (Freeing.uses deallocuvm_uses)
  | clearpteu pgdir uva => exact clearpteu_uses
  | copyuvm pgdir sz => exact discard copyuvm_uses
  | cowFault pgdir va => exact absurd rfl (noFault pgdir va)
  | freevm pgdir => exact Freeing.uses freevm_uses
  | kalloc =>
    refine Program.uses_bind (uses_ask trivial) fun page => ?_
    cases page
    · exact uses_pure
    · exact uses_ask trivial
  | kfree pa => exact Program.uses_bind (uses_ask trivial) fun _ => Freeing.uses kfree_uses
  | write pgdir va byte => exact discard (Freeing.uses userWrite_uses)

omit [DecidableEq ι] in
theorem VmOp.lossless {S : Setting ι} {s : Shared} {own : ι → Proc} {mark : Nat → Mark} (calm : S.Calm s own mark)
    {t : ι} {o : VmOp} (allowed : o.Allowed (own t)) :
    Program.Along (execute .cow) (fun command s => Lossless command s.1) (fun _ _ => True) o.program (s, own t) := by
  by_cases fault : ∃ pgdir va, o = .cowFault pgdir va
  · obtain ⟨pgdir, va, rfl⟩ := fault
    obtain ⟨count, inv⟩ := calm
    obtain ⟨x, at_d⟩ := Option.ne_none_iff_exists'.mp allowed.1
    have present := allowed.2.2
    apply cowFault_lossless
    rw [Proc.dir_of at_d] at present ⊢
    exact inv.mapped_not_free (t := t) at_d allowed.2.1 present
  · push Not at fault
    exact (VmOp.harmless fault).along (fun _ s => harmless_lossless s) _

/-- Whole operations one after the other are one way to interleave their steps. -/
theorem Sequence.run {s : Shared} {own : ι → Proc} (sequence : Sequence s own) :
    Run Lossless ⟨s, own, fun _ => .ret ()⟩ := by
  induction sequence with
  | boot ram => exact .boot ram
  | @perform s s' own t o p' _ allowed done run =>
    obtain ⟨mark, calm⟩ := run.calm fun _ => rfl
    have started := Run.start (t := t) run rfl allowed
    have finished := started.perform (update_self t _ _) (VmOp.lossless calm allowed) done
    simpa only [update_idem, update_eq_self] using finished
  | give _ different at_d run => exact .give run different rfl rfl at_d

end Xv6
