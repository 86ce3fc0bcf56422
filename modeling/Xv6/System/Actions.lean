import Xv6.System.Sane

namespace Xv6

open CommandProgram Function Ledger

variable [KernelImage] {ι : Type} [Fintype ι] [DecidableEq ι]
variable {S : Setting ι} {c : System ι} {s : Shared} {p : Proc} {t u : ι}

/-- The operation of an action runs with as much memory as the circumstances promise. -/
abbrev Sustained {α : Type} (S : Setting ι) (program : Vm α) (c : System ι) (t : ι) : Prop :=
  Program.Along (execute S.kernel) S.Supplied (fun _ _ => True) program (c.shared, c.proc t)

section Adopt

section

omit [KernelImage]

theorem count_erase_unit {f : Nat} {l : List Nat} (kept : f ∈ l) (tables : Nat) (k : Kind) (g : Nat) :
    (tables + if k = .owner then (l.erase f).count g else 0) + unit .owner f k g =
      tables + if k = .owner then l.count g else 0 := by
  have positive : 0 < l.count f := List.count_pos_iff.mpr kept
  simp only [List.count_erase, unit]
  by_cases owner : k = .owner
  · by_cases same : g = f
    · simp only [owner, same, beq_self_eq_true, and_self, if_true]
      omega
    · simp only [owner, same, beq_iff_eq, and_false, if_true, if_false, Ne.symm same]
      omega
  · simp only [owner, false_and, if_false]

theorem Proc.refs_unkeep {f : Nat} (kept : f ∈ p.kpages) (k : Kind) (g : Nat) :
    ({ p with kpages := p.kpages.erase f } : Proc).refs k g + unit .owner f k g = p.refs k g :=
  count_erase_unit kept _ k g

theorem Vacant.refs (vacant : Vacant p) (k : Kind) (f : Nat) : p.refs k f = 0 := by
  simp [Proc.refs, vacant.dirs, vacant.kpages, dirRefs]

theorem Proc.refs_single {d : Nat} {y : PgDir} (bound : d < frames) {b : Proc} (dirs : b.dirs = update (fun _ => none) d (some y))
    {kstack : Nat} (kpages : b.kpages = [kstack]) (k : Kind) (f : Nat) :
    b.refs k f = y.refs d k f + unit .owner kstack k f := by
  have empty : ({ b with dirs := fun _ => none } : Proc).dirs d = none := rfl
  have more := Proc.refs_with bound empty y k f
  have same : ({ b with dirs := fun _ => none } : Proc).setDir d y = b := by
    cases b
    simp_all [Proc.setDir]
  rw [same] at more
  have stack : ({ b with dirs := fun _ => none } : Proc).refs k f = unit .owner kstack k f := by
    simp only [Proc.refs, dirRefs, Finset.sum_const_zero, Nat.zero_add, kpages, unit]
    by_cases owner : k = .owner
    · by_cases same : f = kstack
      · simp [owner, same]
      · simp [owner, same, Ne.symm same]
    · simp [owner]
  omega

end

variable {mark : Nat → Mark}

/-- The child takes over the table and the kernel stack that were made for it. -/
theorem Setting.Calm.adopt {own : ι → Proc} (calm : S.Calm s own mark) (different : t ≠ u) (related : S.family t = S.family u)
    (vacant : Vacant (own u)) {d kstack : Nat} {y : PgDir} (at_d : (own t).dirs d = some y)
    (kept : kstack ∈ (own t).kpages) {a b : Proc} (dirs_a : a.dirs = ((own t).dropDir d).dirs)
    (kpages_a : a.kpages = (own t).kpages.erase kstack) (dirs_b : b.dirs = update (fun _ => none) d (some y))
    (kpages_b : b.kpages = [kstack]) : S.Calm s (update (update own t a) u b) mark := by
  have bound := calm.bound at_d
  have kept' : kstack ∈ ((own t).dropDir d).kpages := kept
  have rest : a.refs = ({ (own t).dropDir d with kpages := ((own t).dropDir d).kpages.erase kstack } : Proc).refs :=
    Proc.refs_congr dirs_a kpages_a
  apply calm.give different related
  · intro k f
    have one := Proc.refs_single bound dirs_b kpages_b k f
    have without := Proc.refs_without bound at_d k f
    have unkeep := Proc.refs_unkeep kept' k f
    have none := vacant.refs k f
    rw [← rest] at unkeep
    omega
  · intro d' z
    by_cases here : d' = d
    · subst here
      simp only [dirs_a, dirs_b, Proc.dropDir, update_self, reduceCtorEq, false_or, at_d]
      exact .inl
    · simp only [dirs_a, dirs_b, Proc.dropDir, ne_eq, here, not_false_eq_true, update_of_ne, reduceCtorEq, or_false]
      exact .inl

end Adopt

section Subject

variable {mark mark' : Nat → Mark} {gh' : Gh} {x x' : PgDir}

theorem Occupied.setDir (occupied : Occupied p x) (kernel : ∀ v, userPages ≤ v → x'.pte v = x.pte v) :
    Occupied (p.setDir p.pgdir x') x' where
  dirs := by
    show update p.dirs p.pgdir (some x') = update (fun _ => none) p.pgdir (some x')
    rw [occupied.dirs, update_idem]
  kpages := occupied.kpages
  size := occupied.size
  kernel v high := (kernel v high).trans (occupied.kernel v high)

omit [KernelImage] in
theorem Vacant.table (vacant : Vacant p) : p.table = .empty := by
  simp [Proc.table, Proc.dir, vacant.dirs]

omit [DecidableEq ι] in
theorem Sane.has_table (sane : Sane S c) (used : c.state t ≠ .unused) : Occupied (c.proc t) (c.table t) := by
  obtain ⟨x, occupied⟩ := sane.occupied t used
  have table : c.table t = x := occupied.table
  rwa [table]

omit [DecidableEq ι] in
theorem Sane.used_of_present {v : Nat} (sane : Sane S c) (present : ((c.table t).pte v).p = true) : c.state t ≠ .unused := by
  intro unused
  rw [System.table, (sane.vacant t unused).table, PgDir.pte_empty] at present
  cases present

theorem Sane.several {v : Nat} (sane : Sane S c) (cow : S.kernel = .cow) (shares : c.SharesPage t v) :
    1 < c.shared.kmem.page_rCount ((c.table t).pte v).addr := by
  obtain ⟨mark, calm⟩ := sane.calm
  obtain ⟨user, present, u, other, v', user', present', same⟩ := shares
  have occupied := sane.has_table (sane.used_of_present present)
  have occupied' := sane.has_table (sane.used_of_present present')
  have first : 0 < held (account (c.proc t) (.calm c.shared mark)).tally ((c.table t).pte v).addr :=
    calm.held occupied.at_pgdir user present _
  have second : 0 < held (account (c.proc u) (.calm c.shared mark)).tally ((c.table u).pte v').addr :=
    calm.held occupied'.at_pgdir user' present' _
  have both := two_held_le_total (fun t => account (c.proc t) (.calm c.shared mark)) other ((c.table t).pte v).addr
  rw [same] at second
  rw [calm.count cow]
  omega

/-- The machine when the program of an action has run, before `settle` looks at its outcome. -/
abbrev System.ran (c : System ι) (t : ι) (s : Shared) (p : Proc) : System ι :=
  { c with shared := s, proc := update c.proc t p }

theorem Sane.ran (sane : Sane S c) (calm : S.Calm s (update c.proc t p) mark) (used : c.state t ≠ .unused)
    (occupied : Occupied p x) (alive : c.state t = .live → p.killed = false) : Sane S (c.ran t s p) where
  calm := ⟨mark, calm⟩
  occupied u used' := by
    by_cases same : u = t
    · subst same
      exact ⟨x, by simpa using occupied⟩
    · simpa [same] using sane.occupied u used'
  vacant u unused := by
    have other : u ≠ t := fun same => used (same ▸ unused)
    simpa [other] using sane.vacant u unused
  alive u live := by
    by_cases same : u = t
    · subst same
      simpa using alive live
    · simpa [same] using sane.alive u live

theorem Sane.memory_others (sane : Sane S c) (calm : S.Calm c.shared c.proc mark)
    (change : S.Change c.shared c.proc mark t s p gh' mark') (other : u ≠ t) :
    (c.ran t s p).memory u = c.memory u := by
  have same : (c.ran t s p).table u = c.table u := by simp [System.table, other]
  unfold System.memory
  rw [same]
  by_cases unused : c.state u = .unused
  · rw [System.table, (sane.vacant u unused).table]
    exact memory_eq (fun _ _ => rfl) fun v _ present => by simp [Pte.zero] at present
  · obtain ⟨y, occupied⟩ := sane.occupied u unused
    rw [System.table, occupied.table]
    exact change.memory_others calm other occupied.at_pgdir

/-- A table that shows the same pages shows the same bytes, if the process still sees what it saw. -/
theorem Setting.Change.memory_kept (change : S.Change c.shared c.proc mark t s p gh' mark')
    (calm : S.Calm c.shared c.proc mark) (occupied : Occupied (c.proc t) x) {d : Nat} (at_d : p.dirs d = some x')
    (entries : ∀ v, v < userPages → (x'.pte v).p = (x.pte v).p ∧ (x'.pte v).u = (x.pte v).u ∧
      (x'.pte v).addr = (x.pte v).addr)
    (sees : SeesAs (c.proc t, .calm c.shared mark) (p, gh')) : x'.memory s = x.memory c.shared := by
  apply memory_eq (fun v user => (entries v user).1)
  intro v user present
  obtain ⟨presence, privilege, frame⟩ := entries v user
  refine ⟨privilege, ?_⟩
  rw [change.page at_d user (presence.trans present), frame]
  exact sees _ (calm.held occupied.at_pgdir user present _)

end Subject

end Xv6
