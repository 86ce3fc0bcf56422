import Xv6.Cow.Exact

namespace Xv6

open CommandProgram Function Ledger Discipline

section

variable [KernelImage] {α : Type} {program : Vm α} {s s' : Shared} {p p' : Proc} {result : Except Halt α}

theorem Complete.ran (complete : Complete s) (uses : program.Uses Harmless)
    (done : Program.run (execute .cow) program (s, p) = (result, (s', p'))) : Complete s' := by
  have along : Program.Along (execute .cow) (fun command state => Lossless command state.1) (fun _ _ => True) program (s, p) :=
    uses.along (fun _ state => harmless_lossless state) _
  have kept := along.invariant (fun _ (state : Shared × Proc) (whole : Complete state.1) lossless =>
    execute_complete whole lossless) complete
  rwa [done] at kept

/-- A page that is not on the free list afterwards has not been freed, and keeps its bytes. -/
theorem execute_byteless {κ : Kernel} {command : Cmd} {state : Shared × Proc} {f : Nat}
    (busy : f ∉ (execute κ command state).2.1.kmem.freelist) (byteless : Byteless command) :
    (execute κ command state).2.1.ram f = state.1.ram f := by
  have freed : ∀ pa, f ∉ (state.1.kfree κ pa).kmem.freelist → (state.1.kfree κ pa).ram f = state.1.ram f := by
    intro pa busy
    cases κ
    · rcases Nat.lt_or_ge 1 (state.1.kmem.page_rCount pa) with several | last
      · rw [Shared.kfree_shared several]
      · have ram : (state.1.kfree .cow pa).ram = update state.1.ram pa Shared.junk := by
          have none : state.1.kmem.page_rCount pa = 0 ∨ state.1.kmem.page_rCount pa = 1 := by omega
          rcases none with zero | one
          · simp [Shared.kfree, zero]
          · simp [Shared.kfree, one]
        rw [Shared.kfree_last last] at busy
        rw [ram, update_of_ne (List.ne_of_not_mem_cons busy)]
    · exact update_of_ne (List.ne_of_not_mem_cons busy) ..
  cases command with
  | kalloc =>
    show (state.1.kalloc κ).2.ram f = state.1.ram f
    unfold Shared.kalloc
    split
    · rfl
    · cases κ <;> rfl
  | kfree pa => exact freed pa busy
  | freePte pgdir v pa => exact freed pa busy
  | memset pa byte => exact byteless.elim
  | memmove dst src => exact byteless.elim
  | store pa off bytes => exact byteless.elim
  | _ => rfl

theorem Byteless.ran {κ : Kernel} (uses : program.Uses Byteless) {f : Nat} {reached : α → Shared × Proc → Prop}
    (busy : Program.Along (execute κ) (fun command state => f ∉ (execute κ command state).2.1.kmem.freelist) reached program (s, p))
    (done : Program.run (execute κ) program (s, p) = (result, (s', p'))) : s'.ram f = s.ram f := by
  have along : Program.Along (execute κ) (fun command _ => Byteless command) (fun _ _ => True) program (s, p) :=
    uses.along (fun _ _ allowed => allowed) (s, p)
  have kept := (along.and busy).invariant (fun _ (state : Shared × Proc) (same : state.1.ram f = s.ram f) allowed =>
    (execute_byteless allowed.2 allowed.1).trans same) rfl
  rwa [done] at kept

end

variable [KernelImage] {ι : Type} [Fintype ι] [DecidableEq ι]
variable {S : Setting ι} {s s' : Shared} {own : ι → Proc} {mark mark' : Nat → Mark} {p' : Proc} {gh' : Gh} {t : ι} {f : Nat}

theorem Sequence.calm (sequence : Sequence s own) : ∃ mark, (clientSetting ι).Calm s own mark :=
  sequence.run.calm fun _ => rfl

namespace Setting

theorem Calm.with_fields (calm : S.Calm s own mark) (dirs : p'.dirs = (own t).dirs) (kpages : p'.kpages = (own t).kpages) :
    S.Calm s (update own t p') mark := by
  refine calm.fields fun u => ?_
  by_cases here : u = t
  · rw [here, update_self]
    exact ⟨dirs, kpages⟩
  · rw [update_of_ne here]
    exact ⟨rfl, rfl⟩

section

omit [DecidableEq ι]

theorem Calm.free_iff (calm : S.Calm s own mark) (cow : S.kernel = .cow) (complete : Complete s) :
    f ∈ s.kmem.freelist ↔ Managed f ∧ s.kmem.page_rCount f = 0 := by
  constructor
  · intro free
    obtain ⟨count, inv⟩ := calm
    have agrees := inv.agrees
    rw [cow] at agrees
    have available : Available f := inv.books.free_managed f free
    have zero : count f = 0 := inv.books.free_count f free
    exact ⟨available.1, (agrees.1.at_available available).trans zero⟩
  · exact fun ⟨managed, zero⟩ => complete f managed zero

theorem Calm.free_list (calm : S.Calm s own mark) (cow : S.kernel = .cow) :
    s.kmem.freelist.Nodup ∧ s.kmem.free_pages = s.kmem.freelist.length := by
  obtain ⟨count, inv⟩ := calm
  have agrees := inv.agrees
  rw [cow] at agrees
  exact ⟨inv.books.nodup, agrees.2⟩

end

end Setting

/-- The allocator has what it had, and so have its pages that are not free. -/
structure Restored (s s' : Shared) : Prop where
  counts : s'.kmem.page_rCount = s.kmem.page_rCount
  free : ∀ f, f ∈ s'.kmem.freelist ↔ f ∈ s.kmem.freelist
  free_pages : s'.kmem.free_pages = s.kmem.free_pages
  contents : ∀ f, Available f → f ∉ s.kmem.freelist → s'.ram f = s.ram f

/-- A process that ends with references to the same frames as before has changed nothing for the allocator. -/
theorem Setting.Change.restored (change : S.Change s own mark t s' p' gh' mark') (calm : S.Calm s own mark)
    (cow : S.kernel = .cow) (complete : Complete s) (complete' : Complete s')
    (same : ∀ f, held p'.refs f = held (own t).refs f) (sees : SeesAs (own t, .calm s mark) (p', gh')) : Restored s s' := by
  have counts : s'.kmem.page_rCount = s.kmem.page_rCount := by
    funext f
    rw [change.calm.count cow, calm.count cow, totalHeld_eq_sum, totalHeld_eq_sum]
    refine congrArg (· + kpgdirCount f) (Finset.sum_congr rfl fun u _ => ?_)
    rw [account_calm, account_calm]
    by_cases here : u = t
    · rw [here, update_self, same]
    · rw [update_of_ne here]
  have free : ∀ f, f ∈ s'.kmem.freelist ↔ f ∈ s.kmem.freelist := by
    intro f
    rw [change.calm.free_iff cow complete', calm.free_iff cow complete, counts]
  obtain ⟨nodup, length⟩ := calm.free_list cow
  obtain ⟨nodup', length'⟩ := change.calm.free_list cow
  refine ⟨counts, free, ?_, fun f available busy => ?_⟩
  · rw [length', length]
    exact ((List.perm_ext_iff_of_nodup nodup' nodup).mpr free).length_eq
  · have counted : s.kmem.page_rCount f ≠ 0 := fun none => busy (complete f available.1 none)
    obtain ⟨u, holds⟩ := calm.holder cow available.2 counted
    by_cases here : u = t
    · subst here
      have holds' : Held (p', gh') f := by
        refine Nat.lt_of_lt_of_le ?_ (held_refs_le_account gh')
        rw [same, ← account_calm (own u) s mark]
        exact holds
      have seen := change.seen f holds'
      have kept := sees f holds
      rw [seen] at kept
      exact kept
    · exact (change.others u here f holds).1

end Xv6
