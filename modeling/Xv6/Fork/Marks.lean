import Xv6.Exec.Built
import Xv6.Fork.Failure

namespace Xv6

open CommandProgram Program Function Ledger Discipline

variable [KernelImage]

variable {ι : Type} [Fintype ι] [DecidableEq ι] {s : Shared} {own : ι → Proc} {t : ι} {d : Nat} {x : PgDir}

omit [KernelImage] in
theorem kallocOwn_run {p : Proc} {r : Nat} {rest : List Nat} (free : s.kmem.freelist = r :: rest) :
    run (execute .cow) kallocOwn (s, p) = (.ok (), ((s.kalloc .cow).2, { p with kpages := r :: p.kpages })) := by
  have taken : (s.kalloc .cow).1 = some r := (kalloc_cons free).1
  show run (execute .cow) (kalloc >>= _) (s, p) = _
  unfold kalloc
  rw [run_kalloc, taken]
  rfl

omit [Fintype ι] in
theorem Sequence.drained (sequence : Sequence s own) (t : ι) {n m : Nat} (length : s.kmem.freelist.length = n + m) :
    ∃ s' own', Sequence s' own' ∧ s'.kmem.freelist.length = n ∧ ∀ u, (own' u).dirs = (own u).dirs := by
  induction m generalizing s own with
  | zero => exact ⟨s, own, sequence, length, fun _ => rfl⟩
  | succ m ih =>
    cases free : s.kmem.freelist with
    | nil => simp [free] at length
    | cons r rest =>
      have next := sequence.perform (t := t) (o := .kalloc) trivial (kallocOwn_run free)
      have left : (s.kalloc .cow).2.kmem.freelist.length = n + m := by
        rw [(kalloc_cons free).2]
        rw [free, List.length_cons] at length
        omega
      obtain ⟨s', own', sequence', length', same⟩ := ih next left
      refine ⟨s', own', sequence', length', fun u => (same u).trans ?_⟩
      by_cases here : u = t
      · rw [here, update_self]
      · rw [update_of_ne here]

/-- A process with one page, and pages for a kernel stack and for the kernel half of a page table but for no more. -/
structure Starved (s : Shared) (own : ι → Proc) (t : ι) (d : Nat) (x : PgDir) : Prop where
  sequence : Sequence s own
  at_d : (own t).dirs d = some x
  present : (x.pte 0).p = true
  writable : (x.pte 0).w = true
  length : s.kmem.freelist.length = 2 + kernelTables.card

theorem starved_reached (t : ι) : ∃ s own d x, Starved (s : Shared) own t d x := by
  obtain ⟨s, own, d, x, alone⟩ := alone_reached t
  have card : kernelTables.card ≤ npdEntries := by
    have le := Finset.card_filter_le (Finset.range npdEntries) fun i => 512 ≤ i ∧ (i < 568 ∨ 1016 ≤ i)
    rwa [Finset.card_range] at le
  have room := alone.room
  obtain ⟨m, length⟩ : ∃ m, s.kmem.freelist.length = 2 + kernelTables.card + m := by
    apply Nat.exists_eq_add_of_le
    unfold Room at room
    unfold npdEntries at card
    dsimp only at room
    omega
  obtain ⟨s', own', sequence, length', same⟩ := alone.sequence.drained t length
  refine ⟨s', own', d, x, sequence, ?_, alone.present, alone.writable, length'⟩
  rw [same, alone.dirs, update_self]

section Run

variable {κ : Kernel} {p : Proc} {d' : Nat} {y : PgDir}

omit [KernelImage] in
theorem walk_starved {va : Nat} (absent : (p.dir d).pde (pageOf va / npdEntries) = none) (empty : s.kmem.freelist = []) :
    run (execute κ) (walkpgdir d va true) (s, p) = (.ok none, (s, p)) := by
  have taken : s.kalloc κ = (none, s) := by simp [Shared.kalloc, empty]
  unfold walkpgdir
  rw [run_ask]
  dsimp only [execute]
  rw [absent]
  unfold kalloc
  simp only [if_true]
  rw [run_ask]
  dsimp only [execute]
  rw [taken]
  rfl

omit [KernelImage] in
theorem mappages_starved {va size pa : Nat} {perm : Perm} (absent : (p.dir d).pde (pageOf va / npdEntries) = none)
    (empty : s.kmem.freelist = []) : run (execute κ) (mappages d va size pa perm) (s, p) = (.ok false, (s, p)) := by
  have page : pageOf (pageOf va * pgSize) = pageOf va := Nat.mul_div_cancel _ (by decide)
  obtain ⟨rounds, more⟩ : ∃ rounds, vaPages = rounds + 1 := Nat.exists_eq_add_of_le' (by decide)
  unfold mappages
  rw [more, mapLoop, Program.run_bind_ok (walk_starved (by rw [page]; exact absent) empty)]
  rfl

/-- Without a free page the child gets no page table for its first page, and the parent's entry is marked by then. -/
theorem shareLoop_starved (apart : d ≠ d') (at_d : p.dirs d = some x) (at_d' : p.dirs d' = some y)
    (present : (x.pte 0).p = true) (absent : y.pde 0 = none) (empty : s.kmem.freelist = []) :
    run (execute κ) (shareLoop d d' 1 0) (s, p) = run (execute κ) (freevm d' >>= fun _ => pure false)
      (s, p.setDir d (x.setPte 0 { x.pte 0 with w := false })) := by
  have has : (p.dir d).Has 0 := by
    rw [Proc.dir_of at_d]
    exact PgDir.has_of_present present
  have page : pageOf (0 * pgSize) = 0 := by decide
  have there : (p.setDir d (x.setPte 0 { x.pte 0 with w := false })).dir d' = y := by
    apply Proc.dir_of
    rw [Proc.setDir_dirs, update_of_ne apart.symm, at_d']
  have refused : run (execute κ) (mappages d' (0 * pgSize) pgSize (x.pte 0).addr ⟨false, (x.pte 0).u⟩)
      (s, p.setDir d (x.setPte 0 { x.pte 0 with w := false })) =
        (.ok false, (s, p.setDir d (x.setPte 0 { x.pte 0 with w := false }))) :=
    mappages_starved (by rw [there, page]; exact absent) empty
  unfold shareLoop
  rw [run_walk, page, if_pos has]
  dsimp only
  rw [run_pte, Proc.dir_of at_d, if_pos present, run_ask]
  dsimp only [execute]
  rw [Proc.dir_of at_d, Program.run_bind_ok refused]
  rfl

end Run

/-- The child's kernel stack and the kernel half of its page table take the last pages. -/
theorem Starved.copyuvm (starved : Starved s own t d x) {r : Nat} {rest : List Nat} (free : s.kmem.freelist = r :: rest)
    (p₁ : Proc) (dirs : p₁.dirs = (own t).dirs) (kpages : p₁.kpages = r :: (own t).kpages) :
    ∃ s₃ p₃ x', run (execute .cow) (copyuvm .cow d pgSize) ((s.kalloc .cow).2, p₁) = (.ok none, (s₃, p₃)) ∧
      p₃.dirs d = some x' ∧ p₃.kpages = p₁.kpages ∧ x'.pde = x.pde ∧ (x'.pte 0).w = false := by
  have next := starved.sequence.perform (t := t) (o := .kalloc) trivial (kallocOwn_run free)
  obtain ⟨mark₁, calm₀⟩ := next.calm
  have calm₁ : (sureSetting ι .cow).Calm (s.kalloc .cow).2 (update own t p₁) mark₁ := by
    rw [← update_idem]
    refine (calm₀.with_fields ?_ ?_).transfer rfl rfl
    · rw [update_self]
      exact dirs
    · rw [update_self]
      exact kpages
  have at_t : update own t p₁ t = p₁ := update_self ..
  have stock : (s.kalloc .cow).2.kmem.freelist.length = 0 + 1 + kernelTables.card := by
    have length := starved.length
    rw [(kalloc_cons free).2]
    rw [free, List.length_cons] at length
    omega
  -- the kernel half
  have make : (sureSetting ι .cow).Outline setupkvm (update own t p₁ t) (.calm (s.kalloc .cow).2 mark₁) _ :=
    setupkvm_outline (fun _ claim => claim) fun _ => rfl
  obtain ⟨_ | d', s₂, p₂, gh₂, _, mark₂, done₂, post₂, level₂, inv₂⟩ :=
    calm₁.succeed (t := t) trivial make (level_setupkvm stock fun d s p level => (kmap_level d s p level).mono fun _ _ both => both.2)
  · exact absurd post₂.1 id
  obtain ⟨absent, y, added, kernel⟩ := post₂
  have own₂ : p₂ = (update own t p₁ t).setDir d' y := added.own
  have at_d' : p₂.dirs d' = some y := added.at_d
  rw [at_t] at done₂ absent own₂
  have apart : d ≠ d' := by
    rintro rfl
    rw [dirs, starved.at_d] at absent
    cases absent
  have at_d : p₂.dirs d = some x := by
    rw [own₂, Proc.setDir_dirs, update_of_ne apart, dirs, starved.at_d]
  have empty : s₂.kmem.freelist = [] := by
    have level := level₂ d' rfl
    unfold Level at level
    dsimp only at level
    rw [Proc.dir_of at_d', vacant_kernel kernel] at level
    exact List.length_eq_zero_iff.mp level
  have untouched : y.pde 0 = none := by
    have start : Gapped (· = 0) d' ((s.kalloc .cow).2, p₁) := by
      intro i _
      show ((p₁.dirs d').getD .empty).pde i = none
      rw [absent]
      rfl
    have gapped := start.run (setupkvm_maps (.mapping _) (kmap_gapped fun i member => by rw [mem_kernelTables] at member; omega)) done₂ 0 rfl
    rwa [Proc.dir_of at_d'] at gapped
  have calm₂ := inv₂.calm_update (S := sureSetting ι .cow) ⟨added.tok, added.noclaim⟩
  rw [update_idem] at calm₂
  -- the first page of the parent
  have at_t₂ : update own t p₂ t = p₂ := update_self ..
  let T : Setting ι := ⟨.cow, True, True, fun _ => false⟩
  have share : T.Outline (shareLoop d d' 1 0) (update own t p₂ t) (.calm s₂ mark₂) _ :=
    shareLoop_outline rfl apart (at_t₂.symm ▸ at_d) (at_t₂.symm ▸ at_d') (by decide) (fun _ claim => claim) (fun _ => rfl)
      (fun _ v low high => by rw [show v = 0 by omega]; exact starved.present)
      (fun _ v low high => by rw [kernel, kmapPte_user (by rw [userPages_eq]; omega)]; rfl)
  have starts := @shareLoop_starved _ s₂ d x .cow p₂ d' y apart at_d at_d' starved.present untouched empty
  rcases done₃ : run (execute .cow) (shareLoop d d' 1 0) (s₂, p₂) with ⟨result, s₃, p₃⟩
  have calm₂' : T.Calm s₂ (update own t p₂) mark₂ := calm₂.transfer rfl rfl
  have done₃' : run (execute T.kernel) (shareLoop d d' 1 0) (s₂, update own t p₂ t) = (result, (s₃, p₃)) := at_t₂.symm ▸ done₃
  rcases calm₂'.perform share ((Program.along_true _ _).weaken fun _ _ _ _ => .inl trivial) done₃' with
    ⟨copied, gh₃, _, _, rfl, ⟨x', weak, first, -, failure⟩, -⟩ | ⟨_, _, lax, _⟩
  · have failed : copied = false := by
      have returns : (freevm d' >>= fun _ => pure false : Vm Bool).Returns (· = false) := freed_returns rfl
      rw [starts] at done₃
      exact returns.result done₃
    subst failed
    obtain ⟨-, unforked⟩ := failure rfl
    have own₃ : p₃ = ((update own t p₂ t).setDir d x').dropDir d' := unforked.own
    rw [at_t₂] at own₃
    have pages : pgRoundUp pgSize = 1 := by decide
    refine ⟨s₃, p₃, x', ?_, ?_, ?_, weak.pde, by rw [first (by decide)]⟩
    · unfold Xv6.copyuvm
      rw [Program.run_bind_ok done₂]
      dsimp only
      rw [pages, Program.run_bind_ok done₃]
      rfl
    · rw [own₃]
      simp [Proc.dropDir, Proc.setDir, apart]
    · rw [own₃, own₂]
      rfl
  · exact absurd trivial lax

theorem Starved.fork (starved : Starved s own t d x) (nextpid : Nat) (np : Fork.Child) {p : Proc}
    (dirs : p.dirs = (own t).dirs) (kpages : p.kpages = (own t).kpages) :
    ∃ child s' p' x', run (execute .cow) (Fork.fork nextpid (some np) d pgSize) (s, p) = (.ok (-1, child), (s', p')) ∧
      p'.dirs d = some x' ∧ x'.pde = x.pde ∧ (x'.pte 0).w = false := by
  obtain ⟨r, rest, free⟩ : ∃ r rest, s.kmem.freelist = r :: rest := by
    cases free : s.kmem.freelist with
    | nil =>
      have length := starved.length
      rw [free, List.length_nil] at length
      omega
    | cons r rest => exact ⟨r, rest, rfl⟩
  obtain ⟨mark, calm⟩ := starved.sequence.calm
  have managed : Managed r := ((calm.free_iff rfl starved.sequence.run.complete).mp (by simp [free])).1
  have taken : (s.kalloc .cow).1 = some r := (kalloc_cons free).1
  have found : run (execute .cow) (Fork.allocproc nextpid (some np)) (s, p) =
      (.ok (some { np with state := .embryo, pid := nextpid, kstack := r }, true),
        ((s.kalloc .cow).2, { p with kpages := r :: p.kpages })) := by
    unfold Fork.allocproc kalloc
    dsimp only
    rw [run_kalloc, taken]
    rfl
  obtain ⟨s₃, p₃, x', copied, at_d, -, same, marked⟩ :=
    starved.copyuvm free { p with kpages := r :: p.kpages } dirs (by rw [← kpages])
  have freed : run (execute .cow) (kfree r) (s₃, { p₃ with kpages := p₃.kpages.erase r }) =
      (.ok (), (s₃.kfree .cow r, { p₃ with kpages := p₃.kpages.erase r })) := by
    unfold kfree
    rw [if_pos managed]
    rfl
  refine ⟨some { np with state := .unused, pid := nextpid, kstack := 0, pgdir := 0 }, s₃.kfree .cow r,
    { p₃ with kpages := p₃.kpages.erase r }, x', ?_, at_d, same, marked⟩
  unfold Fork.fork
  rw [Program.run_bind_ok found]
  dsimp only
  rw [Program.run_bind_ok copied]
  dsimp only
  rw [run_ask]
  dsimp only [execute]
  rw [Program.run_bind_ok freed]
  rfl

theorem Starved.refused (starved : Starved s own t d x) (nextpid : Nat) (np : Fork.Child) {p : Proc}
    (dirs : p.dirs = (own t).dirs) (kpages : p.kpages = (own t).kpages) :
    ¬ Along (execute .cow) Stocked (fun _ _ => True) (Fork.fork nextpid (some np) d pgSize) (s, p) := by
  intro stocked
  obtain ⟨child, s', p', x', ran, -⟩ := starved.fork nextpid np dirs kpages
  obtain ⟨mark, calm⟩ := starved.sequence.calm
  have calm' : (sureSetting ι .cow).Calm s (update own t p) mark :=
    Setting.Calm.transfer (calm.with_fields dirs kpages) rfl rfl
  have at_t : update own t p t = p := update_self ..
  have at_d : p.dirs d = some x := by rw [dirs, starved.at_d]
  have outline : (sureSetting ι .cow).Outline (Xv6.fork .cow d pgSize) (update own t p t) (.calm s mark) _ :=
    fork_outline (by rw [at_t]; exact at_d) (by decide) (fun _ claim => claim) (fun _ => rfl) fun _ v low => by
      have first : v = 0 := by
        unfold pgRoundUp pgSize at low
        omega
      rw [first]
      exact starved.present
  have along : Along (execute .cow) Stocked (fun _ _ => True) (Xv6.fork .cow d pgSize) (s, update own t p t) := by
    rw [at_t, ← Fork.fork_memory nextpid np]
    exact Along.bind (stocked.mono fun _ _ _ => along_pure trivial)
  obtain ⟨made, _, _, _, _, _, ran', post, -⟩ := calm'.succeed trivial outline along
  have nobody := Fork.run_failed ran rfl
  have there : run (execute .cow) (Xv6.fork .cow d pgSize) (s, update own t p t) = _ := ran'
  rw [at_t, nobody] at there
  cases there
  obtain ⟨-, -, _, -, -, scarce, -⟩ := post
  exact scarce

section Results

variable {p : Proc}

/-- A `fork` that finds no memory, at whichever of its calls of `kalloc`, returns -1, and a `fork` that returns -1 has undone
what it did. `Sequence` is what any operations of any processes reach from boot, other forks among them. -/
theorem fork_failure (sequence : Sequence s own) (dirs : p.dirs = (own t).dirs) (kpages : p.kpages = (own t).kpages)
    (at_pgdir : p.dirs p.pgdir = some x) (size : p.sz ≤ kernBase) (nextpid : Nat) (slot : Option Fork.Child) :
    ((∀ v, v < pgRoundUp p.sz → (x.pte v).p = true) →
      ∃ result s' p', run (execute .cow) (Fork.fork nextpid slot p.pgdir p.sz) (s, p) = (.ok result, (s', p'))) ∧
    ∀ result s' p', run (execute .cow) (Fork.fork nextpid slot p.pgdir p.sz) (s, p) = (.ok result, (s', p')) →
      (¬ Along (execute .cow) Stocked (fun _ _ => True) (Fork.fork nextpid slot p.pgdir p.sz) (s, p) → result.1 = -1) ∧
      (result.1 = -1 → Undone s p x s' p' ∧ Fork.Vacated slot result) := by
  obtain ⟨mark, calm⟩ := sequence.calm
  have calm' := calm.with_fields dirs kpages
  have at_t : update own t p t = p := update_self ..
  refine ⟨fun present => ?_, fun result s' p' ran => ⟨fun starved => ?_, fun failed => ⟨?_, Fork.fork_returns.result ran⟩⟩⟩
  · have ends := fork_ends (t := t) nextpid slot calm' (at_t.symm ▸ at_pgdir) (at_t.symm ▸ size) (at_t.symm ▸ present)
    rwa [at_t] at ends
  · by_contra well
    exact starved ((Fork.fork_heeds.granted ran well).weaken fun _ _ granted => stocked_of_granted granted)
  · rw [← at_t] at ran
    have undone := fork_undone calm' sequence.run.complete (at_t.symm ▸ at_pgdir) (at_t.symm ▸ size) ran failed
    rwa [at_t] at undone

omit [KernelImage] in
/-- There are pages for a kernel stack and the kernel half of a page table, and for no more. -/
theorem fork_failure_of_starved :
    letI := builtImage
    ∃ (s s' : Shared) (own : Fin 1 → Proc) (p p' : Proc) (x : PgDir) (result : Int × Option Fork.Child),
      Sequence s own ∧ p.dirs p.pgdir = some x ∧ (x.pte 0).p = true ∧ (x.pte 0).w = true ∧
      run (execute .cow) (Fork.fork 2 (some ⟨.unused, 0, 0, 0, 0⟩) p.pgdir p.sz) (s, p) = (.ok result, (s', p')) ∧
      result.1 = -1 ∧ Undone s p x s' p' ∧ Fork.Vacated (some ⟨.unused, 0, 0, 0, 0⟩) result := by
  let := builtImage
  obtain ⟨s, own, d, x, starved⟩ := starved_reached (0 : Fin 1)
  obtain ⟨ends, undone⟩ := @fork_failure _ (Fin 1) _ _ s own 0 x { own 0 with pgdir := d, sz := pgSize } starved.sequence rfl rfl
    starved.at_d (show pgSize ≤ kernBase by decide) 2 (some ⟨.unused, 0, 0, 0, 0⟩)
  have one : pgRoundUp pgSize = 1 := by decide
  obtain ⟨result, s', p', ran⟩ := ends fun v low => by
    have first : v = 0 := Nat.lt_one_iff.mp (Nat.lt_of_lt_of_eq low one)
    rw [first]
    exact starved.present
  have failed := (undone result s' p' ran).1 (starved.refused 2 _ rfl rfl)
  have vacated := (undone result s' p' ran).2 failed
  exact ⟨s, s', own, _, p', x, result, starved.sequence, starved.at_d, starved.present, starved.writable, ran, failed, vacated⟩

omit [KernelImage] in
/-- The entry of the parent's page is no longer what it was, in a page table that is not free. -/
theorem fork_failure_marks_pages :
    letI := builtImage
    ∃ (s s' : Shared) (own : Fin 1 → Proc) (p p' : Proc) (x x' : PgDir) (child : Option Fork.Child) (f : Nat),
      Sequence s own ∧ p.dirs = (own 0).dirs ∧ p.kpages = (own 0).kpages ∧ p.dirs p.pgdir = some x ∧ p.sz = pgSize ∧
      ¬ Along (execute .cow) Stocked (fun _ _ => True) (Fork.fork 2 (some ⟨.unused, 0, 0, 0, 0⟩) p.pgdir p.sz) (s, p) ∧
      run (execute .cow) (Fork.fork 2 (some ⟨.unused, 0, 0, 0, 0⟩) p.pgdir p.sz) (s, p) = (.ok (-1, child), (s', p')) ∧
      p'.dirs p.pgdir = some x' ∧ x.pde 0 = some f ∧ x'.pde 0 = some f ∧ f ∉ s.kmem.freelist ∧ x'.pte 0 ≠ x.pte 0 := by
  let := builtImage
  obtain ⟨s, own, d, x, starved⟩ := starved_reached (0 : Fin 1)
  obtain ⟨child, s', p', x', ran, at_d, same, marked⟩ := starved.fork 2 ⟨.unused, 0, 0, 0, 0⟩
    (p := { own 0 with pgdir := d, sz := pgSize }) rfl rfl
  obtain ⟨f, table⟩ : ∃ f, x.pde 0 = some f := Option.ne_none_iff_exists'.mp (PgDir.has_of_present starved.present)
  obtain ⟨mark, calm⟩ := starved.sequence.calm
  refine ⟨s, s', own, { own 0 with pgdir := d, sz := pgSize }, p', x, x', child, f, starved.sequence, rfl, rfl, starved.at_d, rfl,
    starved.refused 2 _ rfl rfl, ran, at_d, table, by rw [same, table], fun free => ?_, fun wrong => ?_⟩
  · have owned : KernelOwned own f := ⟨0, .inr ⟨d, x, starved.at_d, .inr ⟨0, by decide, table⟩⟩⟩
    obtain ⟨u, positive⟩ := owned.refs fun u d at_d => by
      obtain ⟨y, entry⟩ := Option.ne_none_iff_exists'.mp at_d
      exact calm.bound entry
    have one := calm.count_owner rfl positive
    have zero := ((calm.free_iff rfl starved.sequence.run.complete).mp free).2
    omega
  · rw [wrong, starved.writable] at marked
    cases marked

end Results

end Xv6
