import Xv6.Cow.Sharers

namespace Xv6

open CommandProgram Function Ledger Discipline

section Faults

variable [KernelImage] {ι : Type} [Fintype ι] [DecidableEq ι]
variable {s : Shared} {own : ι → Proc} {t u : ι} {d d' : Nat} {x x' : PgDir}

omit [KernelImage] in
theorem Shared.copied_freelist {r src : Nat} {next : List Nat} (free : s.kmem.freelist = r :: next) :
    (s.copied r src).kmem.freelist = next := by
  simp [Shared.copied, Shared.kalloc, free, Shared.setPage, Shared.dRCount]

omit [KernelImage] [Fintype ι] [DecidableEq ι] in
theorem KernelOwned.before {own own' : ι → Proc} {f : Nat} (owned : KernelOwned own' f)
    (kpages : ∀ t, (own' t).kpages = (own t).kpages)
    (tables : ∀ t d y, (own' t).dirs d = some y → ∃ x, (own t).dirs d = some x ∧ y.pde = x.pde) :
    KernelOwned own f := by
  obtain ⟨t, kept | ⟨d, y, at_d, part⟩⟩ := owned
  · exact ⟨t, .inl (kpages t ▸ kept)⟩
  · obtain ⟨x, before, same⟩ := tables t d y at_d
    exact ⟨t, .inr ⟨d, x, before, same ▸ part⟩⟩

omit [KernelImage] in
/-- A process with one table whose page 0 now leads elsewhere does not map what no other page of it mapped. -/
theorem unmapped_after {p : Proc} {d e v r f : Nat} {x y : PgDir} (dirs : p.dirs = update (fun _ => none) d (some x))
    (present : (x.pte 0).p = true) (other : r ≠ f)
    (only : ∀ v, v < userPages → (x.pte v).p = true → (x.pte v).addr = f → v = 0)
    (at_e : (p.setDir d (x.setPte 0 (.make r permWU))).dirs e = some y) (user : v < userPages)
    (shown : (y.pte v).p = true) : (y.pte v).addr ≠ f := by
  rw [Proc.setDir_dirs, dirs, update_idem] at at_e
  by_cases own : e = d
  · subst own
    rw [update_self] at at_e
    cases at_e
    rw [PgDir.pte_setPte (PgDir.has_of_present present)] at shown ⊢
    by_cases zero : v = 0
    · subst zero
      rw [update_self]
      exact other
    · rw [update_of_ne zero] at shown ⊢
      exact fun same => zero (only v user shown same)
  · rw [update_of_ne own] at at_e
    exact absurd at_e (by simp)

omit [KernelImage] in
theorem tables_kept {p : Proc} {e v r : Nat} {y : PgDir} (at_d : p.dirs d = some x)
    (at_e : (p.setDir d (x.setPte v (.make r permWU))).dirs e = some y) : ∃ z, p.dirs e = some z ∧ y.pde = z.pde := by
  rw [Proc.setDir_dirs] at at_e
  by_cases own : e = d
  · subst own
    rw [update_self] at at_e
    cases at_e
    exact ⟨x, at_d, PgDir.pde_setPte ..⟩
  · rw [update_of_ne own] at at_e
    exact ⟨y, at_e, rfl⟩

/-- Two sharers that both have copied page 0, after both had seen the count 2: `f` is the page that they shared. -/
structure Doubled (c : Clients ι) (t u : ι) (d d' f r r' : Nat) (own : ι → Proc) (x x' : PgDir) : Prop where
  run : Run (fun _ _ => True) c
  idle : c.Idle
  tables : c.own = update (update own t ((own t).setDir d (x.setPte 0 (.make r permWU)))) u
    ((own u).setDir d' (x'.setPte 0 (.make r' permWU)))
  fresh : r ≠ f
  fresh' : r' ≠ f
  gone : f ∉ c.shared.kmem.freelist

theorem Twins.copy (different : t ≠ u) (twins : Twins s own t u d d' x x') :
    ∃ c r r', Doubled c t u d d' (x.pte 0).addr r r' own x x' := by
  have at_d : (own t).dirs d = some x := by rw [twins.dirs, update_self]
  have at_d' : (own u).dirs d' = some x' := by rw [twins.dirs', update_self]
  have shared := twins.shared different
  obtain ⟨r, r', next, free⟩ : ∃ r r' next, s.kmem.freelist = r :: r' :: next := by
    match list : s.kmem.freelist, twins.stock with
    | r :: r' :: next, _ => exact ⟨r, r', next, rfl⟩
  have several := shared.several
  -- both processes fault and look at the count
  have start : Run (fun _ _ => True) ⟨s, own, fun _ => .ret ()⟩ := twins.sequence.run.weaken fun _ _ _ => trivial
  have fault : Run (fun _ _ => True) ⟨s, own, update (fun _ => .ret ()) t (cowFault d 0)⟩ :=
    .start (o := .cowFault d 0) start rfl ⟨by simp [at_d], by decide, by rw [Proc.dir_of at_d]; exact twins.present⟩
  have fault' : Run (fun _ _ => True)
      ⟨s, own, update (update (fun _ => .ret ()) t (cowFault d 0)) u (cowFault d' 0)⟩ :=
    .start (o := .cowFault d' 0) fault (by simp [different.symm])
      ⟨by simp [at_d'], by decide, by rw [Proc.dir_of at_d']; exact twins.present'⟩
  have look : Program.run (execute .cow) (cowLook d 0) (s, own t) =
      (.ok (0, x.pte 0, s.kmem.page_rCount (x.pte 0).addr), (s, own t)) := by
    rw [run_cowLook, Proc.dir_of at_d, if_neg fun missing => missing (PgDir.has_of_present twins.present),
      if_neg fun wild => wild shared.available.1]
    rfl
  have look' : Program.run (execute .cow) (cowLook d' 0) (s, own u) =
      (.ok (0, x'.pte 0, s.kmem.page_rCount (x.pte 0).addr), (s, own u)) := by
    have managed := shared.available.1
    rw [← twins.same] at managed ⊢
    rw [run_cowLook, Proc.dir_of at_d', if_neg fun missing => missing (PgDir.has_of_present twins.present'),
      if_neg fun wild => wild managed]
    rfl
  have now : (update (update (fun _ => .ret ()) t (cowFault d 0)) u (cowFault d' 0) : ι → Vm Unit) t =
      cowLook d 0 >>= cowAct d := by
    rw [update_of_ne different, update_self, cowFault_eq]
  have looked := fault'.advance now (Program.along_true _ _) look
  have now' : (update (update (update (fun _ => .ret ()) t (cowFault d 0)) u (cowFault d' 0)) t
      (cowAct d (0, x.pte 0, s.kmem.page_rCount (x.pte 0).addr)) : ι → Vm Unit) u = cowLook d' 0 >>= cowAct d' := by
    rw [update_of_ne different.symm, update_self, cowFault_eq]
  rw [update_eq_self] at looked
  have looked' := looked.advance now' (Program.along_true _ _) look'
  dsimp only at looked'
  rw [update_eq_self] at looked'
  -- both copy
  have act : Program.run (execute .cow) (cowAct d (0, x.pte 0, s.kmem.page_rCount (x.pte 0).addr)) (s, own t) = _ :=
    run_cowAct_copy several free shared.available.1
  have acted := looked'.perform (t := t) (by simp [different]) (Program.along_true _ _) act
  have managed' : Managed (x'.pte 0).addr := by
    rw [twins.same]
    exact shared.available.1
  have act' : Program.run (execute .cow) (cowAct d' (0, x'.pte 0, s.kmem.page_rCount (x.pte 0).addr))
      (s.copied r (x.pte 0).addr, own u) = _ := run_cowAct_copy several (Shared.copied_freelist free) managed'
  have acted' := acted.perform (t := u) ((update_of_ne different.symm ..).trans (update_self ..))
    (Program.along_true _ _) (by
      simp only [update_of_ne different.symm]
      exact act')
  dsimp only at acted'
  have final : update (update own t ((own t).setDir d (((own t).dir d).setPte 0 (.make r permWU)))) u
      ((own u).setDir d' (((own u).dir d').setPte 0 (.make r' permWU))) =
      update (update own t ((own t).setDir d (x.setPte 0 (.make r permWU)))) u
        ((own u).setDir d' (x'.setPte 0 (.make r' permWU))) := by
    rw [Proc.dir_of at_d, Proc.dir_of at_d']
  rw [final] at acted'
  refine ⟨_, r, r', acted', fun v => ?_, rfl, ?_, ?_, ?_⟩
  · by_cases isU : v = u
    · simp [isU]
    · by_cases isT : v = t
      · simp [isT, different]
      · simp [isT, isU]
  · exact fun same => shared.in_use (by simp [free, same])
  · exact fun same => shared.in_use (by simp [free, same])
  · intro member
    dsimp only at member
    rw [Shared.copied_freelist (Shared.copied_freelist free)] at member
    exact shared.in_use (by simp [free, member])

/-- The frame is left to nobody: its count has gone down to 0, and nothing has freed it. -/
theorem Doubled.lost {c : Clients ι} {r r' : Nat} (different : t ≠ u) (twins : Twins s own t u d d' x x')
    (copied : Doubled c t u d d' (x.pte 0).addr r r' own x x') : ¬ NoneLost c := by
  intro none_lost
  have at_d : (own t).dirs d = some x := by rw [twins.dirs, update_self]
  have at_d' : (own u).dirs d' = some x' := by rw [twins.dirs', update_self]
  have shared := twins.shared different
  have gone := copied.gone
  have found := none_lost.found _ shared.available.1
  rw [copied.tables] at found
  rcases found with member | ⟨v, e, w, _, ⟨user, shown, y, at_e, rfl⟩, same⟩ | owned | kpgdir
  · exact gone member
  · by_cases isU : v = u
    · rw [isU, update_self] at at_e
      exact unmapped_after twins.dirs' twins.present' copied.fresh' shared.only' at_e user shown same
    · rw [update_of_ne isU] at at_e
      by_cases isT : v = t
      · rw [isT, update_self] at at_e
        exact unmapped_after twins.dirs twins.present copied.fresh shared.only at_e user shown same
      · rw [update_of_ne isT, twins.others v isT isU] at at_e
        exact absurd at_e (by simp [Proc.unused])
  · refine shared.unowned (owned.before (fun v => ?_) fun v e y at_e => ?_)
    · by_cases isU : v = u
      · subst isU
        simp [Proc.setDir]
      · by_cases isT : v = t
        · subst isT
          simp [isU, Proc.setDir]
        · simp [isU, isT]
    · by_cases isU : v = u
      · subst isU
        rw [update_self] at at_e
        exact tables_kept at_d' at_e
      · rw [update_of_ne isU] at at_e
        by_cases isT : v = t
        · subst isT
          rw [update_self] at at_e
          exact tables_kept at_d at_e
        · rw [update_of_ne isT] at at_e
          exact ⟨y, at_e, rfl⟩
  · exact shared.available.2 kpgdir

omit [KernelImage] [Fintype ι] [DecidableEq ι] in
theorem mapped_copy {own : ι → Proc} {p : Proc} {r : Nat} (here : own t = p.setDir d (x.setPte 0 (.make r permWU)))
    (present : (x.pte 0).p = true) : Mapped own t d 0 (.make r permWU) where
  user := by decide
  present := rfl
  entry := by
    refine ⟨x.setPte 0 (.make r permWU), ?_, ?_⟩
    · rw [here, Proc.setDir_dirs, update_self]
    · rw [PgDir.pte_setPte (PgDir.has_of_present present), update_self]

end Faults

section Isolation

variable [KernelImage] {ι : Type} [Fintype ι] [DecidableEq ι]

/-- Copy-on-write isolates the processes in every state that any interleaving reaches. -/
theorem cow_isolation {c : Clients ι} (run : Run (fun _ _ => True) c) : Isolated c := by
  constructor
  case sole => exact fun t d v e mapped writable u d' v' e' mapped' => run.sole mapped writable mapped'
  case in_use =>
    rintro t d v e ⟨user, present, x, at_d, rfl⟩
    obtain ⟨gh, ⟨count, mark, inv⟩, _⟩ := run.sound
    exact inv.mapped_not_free (t := t) at_d user present
  case step => exact fun t command next current u other d v e mapped => run.bytes_kept current other mapped
  case write =>
    intro t d va byte written s' p' own user done u d' v' e' mapped' different
    obtain ⟨x, at_d⟩ := Option.ne_none_iff_exists'.mp own
    rw [userWrite_run, Proc.dir_of at_d] at done
    split at done
    case isTrue permitted =>
      simp only [Bool.and_eq_true] at permitted
      have apart : e'.addr ≠ (x.pte (pageOf va)).addr := by
        intro same
        obtain ⟨rfl, rfl, rfl⟩ := run.sole ⟨user, permitted.1.1, x, at_d, rfl⟩ permitted.1.2 mapped' same
        exact different rfl
      simp only [Prod.mk.injEq] at done
      rw [← done.2.1]
      simp [Shared.setPage, apart]
    case isFalse =>
      simp only [Prod.mk.injEq] at done
      rw [done.2.1]

omit [KernelImage] in
/-- Two processes share a page, fault on it at the same time and both copy it. -/
theorem cow_isolation_of_two_faults :
    letI := builtImage
    ∃ (c : Clients (Fin 2)) (d d' : Nat) (e e' : Pte), Run (fun _ _ => True) c ∧ Isolated c ∧ Mapped c.own 0 d 0 e ∧
      Mapped c.own 1 d' 0 e' ∧ e.w = true ∧ e'.w = true ∧ e'.addr ≠ e.addr := by
  let := builtImage
  obtain ⟨s, own, d, d', x, x', twins⟩ := twins_reached (t := (0 : Fin 2)) (u := 1) (by decide)
  obtain ⟨c, r, r', copied⟩ := twins.copy (by decide)
  have isolated := cow_isolation copied.run
  have mapped : Mapped c.own 0 d 0 (.make r permWU) := by
    apply mapped_copy (p := own 0) _ twins.present
    rw [copied.tables, update_of_ne (by decide), update_self]
  have mapped' : Mapped c.own 1 d' 0 (.make r' permWU) := by
    apply mapped_copy (p := own 1) _ twins.present'
    rw [copied.tables, update_self]
  refine ⟨c, d, d', _, _, copied.run, isolated, mapped, mapped', rfl, rfl, fun same => ?_⟩
  exact absurd (isolated.sole 0 d 0 _ mapped rfl 1 d' 0 _ mapped' same).1 (by decide)

end Isolation

section Counts

variable [KernelImage] {ι : Type} [Fintype ι] [DecidableEq ι]

/-- After every operation of every sequence the counts are exact, and the free list holds each frame
    without a count once. -/
theorem counts_exact {s : Shared} {own : ι → Proc} (sequence : Sequence s own) : Exact s own := by
  have run := sequence.run
  obtain ⟨mark, calm⟩ := run.calm fun _ => rfl
  have counts := calm.count rfl
  obtain ⟨count, inv⟩ := calm
  obtain ⟨counted, length⟩ : Counted s.kmem.page_rCount count ∧ s.kmem.free_pages = s.kmem.freelist.length := inv.agrees
  constructor
  case count =>
    intro f _
    have entries : ∀ t, held (account (own t) (.calm s mark)).tally f = (own t).maps f + (own t).owns f := by
      intro t
      rw [account_calm, held_proc]
    rw [counts, totalHeld_eq_sum]
    simp only [entries, Finset.sum_add_distrib]
  case free =>
    intro f managed
    have nodup : s.kmem.freelist.Nodup := inv.books.nodup
    by_cases zero : s.kmem.page_rCount f = 0
    · rw [if_pos zero]
      exact List.count_eq_one_of_mem nodup (run.complete f managed zero)
    · rw [if_neg zero]
      refine List.count_eq_zero.mpr fun member => zero ?_
      have none : count f = 0 := inv.books.free_count f member
      exact (counted.at_available (inv.books.free_managed f member)).trans none
  case length => exact length

omit [KernelImage] in
/-- Two processes share a page until the first one writes to it. -/
theorem counts_exact_of_fault :
    letI := builtImage
    ∃ (s : Shared) (own : Fin 2 → Proc) (d d' : Nat) (x x' : PgDir), Parted s own 0 1 d d' x x' ∧ Exact s own := by
  let := builtImage
  obtain ⟨_, _, d, d', _, x', twins⟩ := twins_reached (t := (0 : Fin 2)) (u := 1) (by decide)
  obtain ⟨s, own, x, parted⟩ := twins.part (by decide)
  exact ⟨s, own, d, d', x, x', parted, counts_exact parted.sequence⟩

end Counts

section Frames

variable [KernelImage] {ι : Type} [Fintype ι] [DecidableEq ι]

/-- As long as no `d_rCount` takes away a last count, no frame is lost. -/
theorem no_frame_lost {c : Clients ι} (run : Run Lossless c) (idle : c.Idle) : NoneLost c := by
  refine ⟨fun f managed => ?_, run.complete⟩
  obtain ⟨mark, count, inv⟩ := run.calm idle
  by_cases kpgdir : Kpgdir f
  · exact .inr (.inr (.inr kpgdir))
  by_cases zero : c.shared.kmem.page_rCount f = 0
  · exact .inl (run.complete f managed zero)
  · have balance := inv.books.balance f
    have dropped : ∀ t, (account (c.own t) (.calm c.shared mark)).tally .dropped f = 0 := by
      intro t
      simp only [account, Gh.resting, ((c.own t).refs_books f).2]
    have none : total (fun t => account (c.own t) (.calm c.shared mark)) .dropped f = 0 := by
      simp only [total, dropped, Finset.sum_const_zero]
    have counted : c.shared.kmem.page_rCount f = count f := (inv.agrees.1 : Counted _ _).at_available ⟨managed, kpgdir⟩
    have some : 0 < ∑ t, held (account (c.own t) (.calm c.shared mark)).tally f := by
      rw [← totalHeld_eq_sum]
      dsimp only at balance
      omega
    obtain ⟨t, _, holds⟩ := FiniteSums.exists_of_sum_pos some
    simp only [held, account, Gh.resting, Nat.add_zero] at holds
    have refs : ∃ k, 0 < (c.own t).refs k f := by
      by_contra none
      push Not at none
      have reader := none .reader
      have writer := none .writer
      have owner := none .owner
      omega
    obtain ⟨k, positive⟩ := refs
    rcases refs_accounted (t := t) positive with ⟨d, v, e, mapped, same⟩ | owned
    · exact .inr (.inl ⟨t, d, v, e, mapped, same⟩)
    · exact .inr (.inr (.inl owned))

omit [KernelImage] in
/-- Two processes share a page, the first one writes to it, and the second one exits. -/
theorem no_frame_lost_of_exit :
    letI := builtImage
    ∃ (s : Shared) (own : Fin 2 → Proc) (d d' : Nat) (x x' : PgDir), Parted s own 0 1 d d' x x' ∧
      ∃ s', NoneLost ⟨s', update own 1 ((own 1).dropDir d'), fun _ => .ret ()⟩ := by
  let := builtImage
  obtain ⟨_, _, d, d', _, x', twins⟩ := twins_reached (t := (0 : Fin 2)) (u := 1) (by decide)
  obtain ⟨s, own, x, parted⟩ := twins.part (by decide)
  obtain ⟨s', sequence⟩ := parted.exit
  exact ⟨s, own, d, d', x, x', parted, s', no_frame_lost sequence.run fun _ => rfl⟩

omit [KernelImage] in
/-- Interleaved faults of two sharers can lose a frame. -/
theorem frame_lost_by_two_faults :
    letI := builtImage
    ¬ ∀ c : Clients (Fin 2), Run (fun _ _ => True) c → c.Idle → NoneLost c := by
  let := builtImage
  intro none_lost
  obtain ⟨s, own, d, d', x, x', twins⟩ := twins_reached (t := (0 : Fin 2)) (u := 1) (by decide)
  obtain ⟨c, r, r', copied⟩ := twins.copy (by decide)
  exact copied.lost (by decide) twins (none_lost c copied.run copied.idle)

end Frames

end Xv6
