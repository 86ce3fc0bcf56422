import Mathlib.Data.List.Find
import Xv6.Memory.Supply
import Xv6.Tables.Unmap

namespace Xv6

open CommandProgram Program Function

namespace PgDir

variable {x y z : PgDir} {entry : Nat → Pte} {a k pa v i : Nat} {perm : Perm}

/-- What the hardware makes of a virtual address: the physical address, and what the page may be used for. -/
def translate (x : PgDir) (va : Nat) : Option (Nat × Perm) :=
  if (x.pte (pageOf va)).p then
    some ((x.pte (pageOf va)).addr * pgSize + va % pgSize, ⟨(x.pte (pageOf va)).w, (x.pte (pageOf va)).u⟩)
  else none

theorem translate_congr {va : Nat} (same : x.pte (pageOf va) = y.pte (pageOf va)) : x.translate va = y.translate va := by
  rw [translate, translate, same]

theorem translate_make {va : Nat} (entry : x.pte (pageOf va) = .make pa perm) :
    x.translate va = some (pa * pgSize + va % pgSize, perm) := by
  rw [translate, entry]
  rfl

/-- Entries with `k` pages from `a` on mapped to the frames from `pa` on. -/
def withPages (entry : Nat → Pte) (a k pa : Nat) (perm : Perm) (v : Nat) : Pte :=
  if a ≤ v ∧ v < a + k then .make ((pa + (v - a)) % vaPages) perm else entry v

theorem withPages_none : withPages entry a 0 pa perm = entry := by
  funext v
  rw [withPages, if_neg (by omega)]

theorem withPages_step (frame : pa < vaPages) :
    withPages (update entry a (.make pa perm)) (a + 1) k ((pa + 1) % vaPages) perm = withPages entry a (k + 1) pa perm := by
  funext v
  unfold withPages
  by_cases here : v = a
  · subst here
    rw [if_neg (by omega), if_pos (by omega), update_self, Nat.sub_self, Nat.add_zero, Nat.mod_eq_of_lt frame]
  · by_cases later : a + 1 ≤ v ∧ v < a + 1 + k
    · have frames : ((pa + 1) % vaPages + (v - (a + 1))) % vaPages = (pa + (v - a)) % vaPages := by
        rw [Nat.mod_add_mod, show pa + 1 + (v - (a + 1)) = pa + (v - a) by omega]
      rw [if_pos later, if_pos (by omega), frames]
    · rw [if_neg later, if_neg (by omega), update_of_ne here]

theorem withPages_over {last : Nat} (order : a ≤ last) (frames : pa + (last - a) < vaPages) :
    withPages entry a (last + 1 - a) pa perm = PgDir.over entry a last pa perm := by
  funext v
  unfold withPages PgDir.over
  by_cases inside : a ≤ v ∧ v ≤ last
  · rw [if_pos (by omega), if_pos inside, Nat.mod_eq_of_lt (by omega)]
  · rw [if_neg (by omega), if_neg inside]

end PgDir

/-- Pages have been taken from the free list, one after the other, and are counted once. -/
structure Taken (κ : Kernel) (s : Shared) (pages : List Nat) (s' : Shared) : Prop where
  freelist : s.kmem.freelist = pages ++ s'.kmem.freelist
  page_rCount : κ = .cow → s'.kmem.page_rCount = fun f => if f ∈ pages then 1 else s.kmem.page_rCount f
  free_pages : κ = .cow → s'.kmem.free_pages = s.kmem.free_pages - pages.length

/-- Page tables have come to a directory, from what was free. -/
structure Fed (κ : Kernel) (s : Shared) (x : PgDir) (s' : Shared) (x' : PgDir) : Prop where
  kept : ∀ i, x.pde i ≠ none → x'.pde i = x.pde i
  fresh : ∀ i f, x'.pde i = some f → x.pde i = some f ∨ f ∈ s.kmem.freelist
  taken : ∃ pages, Taken κ s pages s'

variable {κ : Kernel} {s s' s'' : Shared} {p : Proc} {d n a pa last va : Nat} {x x' x'' : PgDir} {perm : Perm} {pages more next : List Nat}

namespace Taken

theorem none (κ : Kernel) (s : Shared) : Taken κ s [] s := by
  constructor
  · rfl
  · intro _
    simp
  · exact fun _ => rfl

theorem trans (first : Taken κ s pages s') (second : Taken κ s' more s'') : Taken κ s (pages ++ more) s'' where
  freelist := by rw [first.freelist, second.freelist, List.append_assoc]
  page_rCount cow := by
    rw [second.page_rCount cow, first.page_rCount cow]
    funext f
    by_cases later : f ∈ more
    · simp [later]
    · simp [later]
  free_pages cow := by rw [second.free_pages cow, first.free_pages cow, List.length_append, Nat.sub_sub]

theorem kalloc (free : s.kmem.freelist = d :: next) : Taken κ s [d] (s.kalloc κ).2 := by
  constructor
  · rw [(kalloc_cons free).2, free]
    rfl
  · rintro rfl
    funext f
    simp [Shared.kalloc, free, update_apply]
  · rintro rfl
    simp [Shared.kalloc, free]

end Taken

namespace Fed

theorem refl (κ : Kernel) (s : Shared) (x : PgDir) : Fed κ s x s x := ⟨fun _ _ => rfl, fun _ _ => .inl, [], .none κ s⟩

theorem free (fed : Fed κ s x s' x') {f : Nat} (member : f ∈ s'.kmem.freelist) : f ∈ s.kmem.freelist := by
  obtain ⟨pages, taken⟩ := fed.taken
  rw [taken.freelist]
  exact List.mem_append_right pages member

theorem trans (first : Fed κ s x s' x') (second : Fed κ s' x' s'' x'') : Fed κ s x s'' x'' where
  kept i present := by
    rw [second.kept i (by rwa [first.kept i present]), first.kept i present]
  fresh i f entry := by
    rcases second.fresh i f entry with old | new
    · exact first.fresh i f old
    · exact .inr (first.free new)
  taken := by
    obtain ⟨pages, taken⟩ := first.taken
    obtain ⟨more, taken'⟩ := second.taken
    exact ⟨pages ++ more, taken.trans taken'⟩

theorem congr {y' : PgDir} (fed : Fed κ s x s' x') (same : y'.pde = x'.pde) : Fed κ s x s' y' where
  kept i present := by rw [same, fed.kept i present]
  fresh i f entry := fed.fresh i f (by rwa [same] at entry)
  taken := fed.taken

end Fed

/-- The directory entries of the memory that is mapped directly and of the devices. -/
def kernelTables : Finset Nat := {i ∈ Finset.range npdEntries | 512 ≤ i ∧ (i < 568 ∨ 1016 ≤ i)}

theorem mem_kernelTables {i : Nat} : i ∈ kernelTables ↔ 512 ≤ i ∧ i < 1024 ∧ (i < 568 ∨ 1016 ≤ i) := by
  unfold kernelTables
  rw [Finset.mem_filter, Finset.mem_range]
  unfold npdEntries
  omega

variable [KernelImage]

section

omit [KernelImage]

theorem run_walk_alloc (κ : Kernel) (s : Shared) (at_d : p.dirs d = some x) (va : Nat) :
    ∃ found s' x', run (execute κ) (walkpgdir d va true) (s, p) = (.ok found, (s', p.setDir d x')) ∧
      Fed κ s x s' x' ∧ x'.pte = x.pte ∧ (found = none ∨ found = some (pageOf va) ∧ x'.Has (pageOf va)) := by
  cases entry : x.pde (pageOf va / npdEntries) with
  | some pa =>
    refine ⟨some (pageOf va), s, x, ?_, .refl κ s x, rfl, .inr ⟨rfl, ?_⟩⟩
    · rw [walkpgdir, run_pde, Proc.dir_of at_d, entry, Proc.setDir_self at_d]
      rfl
    · unfold PgDir.Has
      rw [entry]
      exact Option.some_ne_none pa
  | none =>
    cases free : s.kmem.freelist with
    | nil =>
      refine ⟨none, s, x, ?_, .refl κ s x, rfl, .inl rfl⟩
      rw [walkpgdir, run_pde, Proc.dir_of at_d, entry, Proc.setDir_self at_d]
      show run (execute κ) (ask .kalloc >>= _) (s, p) = _
      rw [run_kalloc, Shared.kalloc, free]
      rfl
    | cons r next =>
      have granted := (kalloc_cons (κ := κ) free).1
      have table := PgDir.pde_setPde x (pageOf va / npdEntries) r
      refine ⟨some (pageOf va), (s.kalloc κ).2, x.setPde (pageOf va / npdEntries) r, ?_, ⟨?_, ?_, [r], .kalloc free⟩, PgDir.pte_setPde entry r,
        .inr ⟨rfl, ?_⟩⟩
      · rw [walkpgdir, run_pde, Proc.dir_of at_d, entry]
        show run (execute κ) (ask .kalloc >>= _) (s, p) = _
        rw [run_kalloc, granted]
        dsimp only
        rw [run_setPde, Proc.dir_of at_d]
        rfl
      · intro i present
        rw [table, update_of_ne]
        rintro rfl
        exact present entry
      · intro i f
        rw [table]
        by_cases here : i = pageOf va / npdEntries
        · subst here
          rw [update_self, Option.some.injEq]
          rintro rfl
          exact .inr (by rw [free]; exact List.mem_cons_self)
        · rw [update_of_ne here]
          exact .inl
      · unfold PgDir.Has
        rw [table, update_self]
        exact Option.some_ne_none r

/-- The loop of `mappages` comes to its end: with all pages mapped, or with the first ones where no page table could be had. -/
theorem mapLoop_run (perm : Perm) (κ : Kernel) (s : Shared) (at_d : p.dirs d = some x) (order : a ≤ last) (rounds : last - a < n)
    (inside : last < vaPages) (frame : pa < vaPages) (absent : ∀ v, a ≤ v → v ≤ last → (x.pte v).p = false) :
    ∃ mapped s' x' k, run (execute κ) (mapLoop d last perm n a pa) (s, p) = (.ok mapped, (s', p.setDir d x')) ∧
      Fed κ s x s' x' ∧ x'.pte = PgDir.withPages x.pte a k pa perm ∧ k ≤ last + 1 - a ∧ (mapped = true ↔ k = last + 1 - a) := by
  induction n generalizing a pa x s p with
  | zero => omega
  | succ n ih =>
    have page : pageOf (a * pgSize) = a := by
      unfold pageOf pgSize
      omega
    obtain ⟨found, s₁, x₁, walked, fed, pte, none | ⟨some, has⟩⟩ := run_walk_alloc κ s at_d (a * pgSize)
    · subst none
      refine ⟨false, s₁, x₁, 0, ?_, fed, by rw [PgDir.withPages_none, pte], Nat.zero_le _, ?_⟩
      · rw [mapLoop, run_bind_ok walked]
        rfl
      · exact iff_of_false Bool.false_ne_true (by omega)
    · subst some
      rw [page] at has walked
      have at_d₁ : (p.setDir d x₁).dirs d = some x₁ := by simp
      have at_d₂ : (p.setDir d (x₁.setPte a (.make pa perm))).dirs d = some (x₁.setPte a (.make pa perm)) := by simp
      have entries : (x₁.setPte a (.make pa perm)).pte = update x.pte a (.make pa perm) := by
        rw [PgDir.pte_setPte has, pte]
      have fed₂ : Fed κ s x s₁ (x₁.setPte a (.make pa perm)) := fed.congr (PgDir.pde_setPte ..)
      have written : run (execute κ) (mapLoop d last perm (n + 1) a pa) (s, p) =
          run (execute κ) (if a = last then pure true else mapLoop d last perm n ((a + 1) % vaPages) ((pa + 1) % vaPages))
            (s₁, p.setDir d (x₁.setPte a (.make pa perm))) := by
        rw [mapLoop, run_bind_ok walked]
        dsimp only
        rw [run_pte, Proc.dir_of at_d₁, pte, absent a (Nat.le_refl a) order, if_neg Bool.false_ne_true, run_setPte,
          Proc.dir_of at_d₁, Proc.setDir_setDir]
      rw [written]
      by_cases done : a = last
      · refine ⟨true, s₁, x₁.setPte a (.make pa perm), 1, ?_, fed₂, ?_, by omega, iff_of_true rfl (by omega)⟩
        · rw [if_pos done]
          rfl
        · rw [entries, ← PgDir.withPages_step frame, PgDir.withPages_none]
      · have next : (a + 1) % vaPages = a + 1 := Nat.mod_eq_of_lt (by omega)
        have frame' : (pa + 1) % vaPages < vaPages := by
          apply Nat.mod_lt
          rw [vaPages_eq]
          omega
        obtain ⟨mapped, s', x', k, ran, fed', pte', bound, whole⟩ := ih s₁ at_d₂ (a := a + 1)
          (by omega) (by omega) frame' fun v low high => by
            rw [entries, update_of_ne (by omega)]
            exact absent v (by omega) high
        refine ⟨mapped, s', x', k + 1, ?_, fed₂.trans fed', ?_, by omega, ?_⟩
        · rw [if_neg done, next, ran, Proc.setDir_setDir]
        · rw [pte', entries, PgDir.withPages_step frame]
        · rw [whole]
          omega

theorem mapRows_run {rows : List (Nat × Nat × Nat × Perm)} (κ : Kernel) (s : Shared) (at_d : p.dirs d = some x)
    (fits : ∀ row ∈ rows, RowFits row) (apart : rows.Pairwise fun row later => rowLast row < pageOf later.1)
    (absent : ∀ row ∈ rows, ∀ v, pageOf row.1 ≤ v → v ≤ rowLast row → (x.pte v).p = false) :
    ∃ mapped s' x', run (execute κ) (mapRows d rows) (s, p) = (.ok mapped, (s', p.setDir d x')) ∧ Fed κ s x s' x' ∧
      (∀ v, v < userPages → x'.pte v = x.pte v) ∧ (mapped = true → x'.pte = overRows x.pte rows) := by
  induction rows generalizing x s p with
  | nil =>
    refine ⟨true, s, x, ?_, .refl κ s x, fun _ _ => rfl, fun _ => rfl⟩
    rw [Proc.setDir_self at_d]
    rfl
  | cons row rest ih =>
    have fit := fits row List.mem_cons_self
    obtain ⟨first, apart⟩ := List.pairwise_cons.mp apart
    obtain ⟨kernel, order, inside, frames⟩ := fit
    have frame : pageOf row.2.1 < vaPages := by omega
    obtain ⟨mapped, s₁, x₁, k, ran, fed, pte, bound, whole⟩ := mapLoop_run (n := vaPages) row.2.2.2 κ s at_d order
      (by omega) inside frame (absent row List.mem_cons_self)
    have user : ∀ v, v < userPages → x₁.pte v = x.pte v := by
      intro v low
      rw [pte, PgDir.withPages, if_neg (by omega)]
    have step : run (execute κ) (mapRows d (row :: rest)) (s, p) =
        run (execute κ) (if mapped then mapRows d rest else pure false) (s₁, p.setDir d x₁) := by
      show run (execute κ) (mappages d row.1 ((row.2.2.1 + 2 ^ 32 - row.2.1) % 2 ^ 32) (pageOf row.2.1) row.2.2.2 >>=
        fun mapped => if mapped then mapRows d rest else pure false) (s, p) = _
      exact run_bind_ok ran
    rw [step]
    cases mapped with
    | false => exact ⟨false, s₁, x₁, rfl, fed, user, fun wrong => absurd wrong Bool.false_ne_true⟩
    | true =>
      have filled : x₁.pte = PgDir.over x.pte (pageOf row.1) (rowLast row) (pageOf row.2.1) row.2.2.2 := by
        rw [pte, whole.mp rfl, PgDir.withPages_over order frames]
      obtain ⟨mapped, s', x', ran', fed', user', rows'⟩ := ih s₁ (x := x₁) (p := p.setDir d x₁) (by simp)
        (fun row member => fits row (List.mem_cons_of_mem _ member)) apart fun later member v low high => by
          rw [filled, PgDir.over, if_neg (by have := first later member; omega)]
          exact absent later (List.mem_cons_of_mem _ member) v low high
      refine ⟨mapped, s', x', ?_, fed.trans fed', fun v low => ?_, fun done => ?_⟩
      · rw [if_pos rfl, ran', Proc.setDir_setDir]
      · rw [user' v low, user v low]
      · rw [rows' done, filled]
        rfl

end

theorem freeTables_run (tables : List (Option Nat)) (κ : Kernel) (s : Shared) (p : Proc)
    (managed : ∀ f, some f ∈ tables → Managed f) : ∃ s', run (execute κ) (freeTables tables) (s, p) = (.ok (), (s', p)) := by
  induction tables generalizing s with
  | nil => exact ⟨s, rfl⟩
  | cons table rest ih =>
    have managed' : ∀ f, some f ∈ rest → Managed f := fun f member => managed f (List.mem_cons_of_mem _ member)
    cases table with
    | none => exact ih s managed'
    | some pa =>
      obtain ⟨s', ran⟩ := ih (s.kfree κ pa) managed'
      refine ⟨s', ?_⟩
      rw [freeTables, kfree, if_pos (managed pa List.mem_cons_self)]
      exact ran

theorem freevm_run (κ : Kernel) (s : Shared) (at_d : p.dirs d = some x) (bare : ∀ v, v < userPages → x.pte v = .zero)
    (tables : ∀ i f, x.pde i = some f → Managed f) (managed : Managed d) :
    ∃ s' p', run (execute κ) (freevm d) (s, p) = (.ok (), (s', p')) := by
  have rounds : userPages - 0 ≤ userPages - 0 := Nat.le_refl _
  obtain ⟨x', ran, pde, -⟩ := deallocLoop_unmaps (κ := κ) (s := s) at_d rounds fun v _ high present => by
      rw [bare v high] at present
      exact absurd present Bool.false_ne_true
  have dealloc : run (execute κ) (deallocuvm d kernBase 0) (s, p) =
      (.ok 0, ((unmapped x 0 userPages).foldl (Shared.kfree κ) s, p.setDir d x')) := by
    have last : pgRoundUp kernBase = userPages := by decide
    have first : pgRoundUp 0 = 0 := by decide
    rw [deallocuvm, if_neg (by decide), last, first, run_bind_ok ran]
    rfl
  obtain ⟨s', freed⟩ := freeTables_run ((List.range npdEntries).map x'.pde) κ
    ((unmapped x 0 userPages).foldl (Shared.kfree κ) s) ((p.setDir d x').dropDir d) fun f member => by
      obtain ⟨i, -, entry⟩ := List.mem_map.mp member
      exact tables i f (by rwa [pde] at entry)
  refine ⟨s'.kfree κ d, (p.setDir d x').dropDir d, ?_⟩
  have at_d' : (p.setDir d x').dir d = x' := Proc.dir_of (by simp)
  rw [freevm, run_bind_ok dealloc]
  show run (execute κ) (ask (.retire d) >>= fun pdes => freeTables pdes >>= fun _ => kfree d) _ = _
  rw [run_retire, at_d', run_bind_ok freed, kfree, if_pos managed]
  rfl

theorem kmap_tables {row : Nat × Nat × Nat × Perm} (member : row ∈ kmap) {v : Nat} (low : pageOf row.1 ≤ v)
    (high : v ≤ rowLast row) : v / npdEntries ∈ kernelTables := by
  have bounds := dataPage_bounds
  have strict := dataPage_gt
  have lasts := kmap_lasts
  simp only [kmap, List.map_cons, List.map_nil, List.cons.injEq, Prod.mk.injEq, and_true] at lasts
  simp only [kmap, List.mem_cons, List.not_mem_nil, or_false] at member
  rw [mem_kernelTables]
  unfold npdEntries
  rcases member with rfl | rfl | rfl | rfl
  all_goals
    simp only [lasts] at low high
    omega

theorem kmap_level (d : Nat) (s : Shared) (p : Proc) (level : Level kernelTables d n (s, p)) :
    Along (execute κ) Stocked (fun mapped state => mapped = true ∧ Level kernelTables d n state) (mapRows d kmap) (s, p) := by
  apply level_mapRows (Q := (· = true)) rfl _ level
  intro row member s p level
  have fits := kmap_fits row member
  exact level_mappages fits.inside fits.order (fun v low high => kmap_tables member low high) level

theorem kmapPte_device {v : Nat} (low : 0xFE000 ≤ v) (high : v ≤ 0xFFFFF) : (kmapPte v).p = true := by
  have lasts := kmap_lasts
  simp only [kmap, List.map_cons, List.map_nil, List.cons.injEq, Prod.mk.injEq, and_true] at lasts
  obtain ⟨-, -, -, dev, lastDev, _⟩ := lasts
  simp only [kmapPte, kmap, overRows, PgDir.over, dev, lastDev]
  rw [if_pos ⟨low, high⟩]
  rfl

theorem kmapPte_table {i : Nat} (member : i ∈ kernelTables) : (kmapPte (i * npdEntries)).p = true := by
  rw [mem_kernelTables] at member
  unfold npdEntries
  obtain ⟨low, high, direct | device⟩ := member
  · have place : i * 1024 = userPages + (i - 512) * 1024 := by
      rw [userPages_eq]
      omega
    rw [place, kmapPte_direct (by rw [frames_eq]; omega)]
    rfl
  · exact kmapPte_device (by omega) (by omega)

theorem vacant_kernel (kernel : x.pte = kmapPte) : x.vacantIn kernelTables = 0 := by
  unfold PgDir.vacantIn
  refine Finset.sum_eq_zero fun i member => ?_
  have has : x.Has (i * npdEntries) := PgDir.has_of_present (by rw [kernel]; exact kmapPte_table member)
  unfold PgDir.Has at has
  rw [Nat.mul_div_cancel i (by decide)] at has
  rw [if_neg has]

theorem setupkvm_cons (κ : Kernel) (p : Proc) (free : s.kmem.freelist = d :: next) :
    ∃ mapped s' x', run (execute κ) (mapRows d kmap) ((s.kalloc κ).2, p.setDir d .empty) = (.ok mapped, (s', p.setDir d x')) ∧
      Fed κ (s.kalloc κ).2 .empty s' x' ∧ (∀ v, v < userPages → x'.pte v = PgDir.empty.pte v) ∧ (mapped = true → x'.pte = kmapPte) ∧
      run (execute κ) setupkvm (s, p) = run (execute κ)
        (if mapped then pure (some d) else freevm d >>= fun _ => pure none) (s', p.setDir d x') := by
  obtain ⟨mapped, s', x', ran, fed, user, rows⟩ := mapRows_run κ (s.kalloc κ).2 (p := p.setDir d .empty) (d := d)
    (x := .empty) (by simp) kmap_fits kmap_apart fun _ _ v _ _ => by
      rw [PgDir.pte_empty]
      rfl
  rw [Proc.setDir_setDir] at ran
  refine ⟨mapped, s', x', ran, fed, user, rows, ?_⟩
  show run (execute κ) (ask .kalloc >>= _) (s, p) = _
  rw [run_kalloc, (kalloc_cons free).1]
  show run (execute κ) (ask (.newPgdir d) >>= _) ((s.kalloc κ).2, p) = _
  rw [run_ask, if_neg (by decide)]
  exact run_bind_ok ran

/-- `setupkvm` comes to its end, and what it makes is the same at all times. -/
theorem setupkvm_run (κ : Kernel) (s : Shared) (p : Proc) (free : ∀ f, f ∈ s.kmem.freelist → Managed f) :
    ∃ made s' p', run (execute κ) setupkvm (s, p) = (.ok made, (s', p')) ∧
      ∀ d, made = some d → ∃ x, p'.dirs d = some x ∧ x.pte = kmapPte := by
  cases list : s.kmem.freelist with
  | nil =>
    refine ⟨none, s, p, ?_, fun d wrong => nomatch wrong⟩
    show run (execute κ) (ask .kalloc >>= _) (s, p) = _
    rw [run_kalloc, Shared.kalloc, list]
    rfl
  | cons d next =>
    have left := (kalloc_cons (κ := κ) list).2
    have managed : Managed d := free d (by rw [list]; exact List.mem_cons_self)
    obtain ⟨mapped, s', x', -, fed, user, rows, made⟩ := setupkvm_cons κ p list
    rw [made]
    cases mapped with
    | true =>
      refine ⟨some d, s', p.setDir d x', rfl, fun d' same => ?_⟩
      cases same
      exact ⟨x', by simp, rows rfl⟩
    | false =>
      have tables : ∀ i f, x'.pde i = some f → Managed f := by
        intro i f entry
        rcases fed.fresh i f entry with old | new
        · rw [PgDir.pde_empty] at old
          cases old
        · rw [left] at new
          exact free f (by rw [list]; exact List.mem_cons_of_mem d new)
      obtain ⟨s'', p'', freed⟩ := freevm_run κ s' (p := p.setDir d x') (x := x') (by simp)
        (fun v low => by rw [user v low, PgDir.pte_empty]) tables managed
      refine ⟨none, s'', p'', ?_, fun d wrong => nomatch wrong⟩
      rw [if_neg Bool.false_ne_true, run_bind_ok freed]
      rfl

/-- Where the rows of `kmap` put an address. -/
def kmapTranslate (va : Nat) : Option (Nat × Perm) :=
  (kmap.find? fun row => decide (row.1 ≤ va ∧ va < row.1 + rowSize row)).map fun row => (row.2.1 + (va - row.1), row.2.2.2)

omit [KernelImage] in
theorem overRows_find {rows : List (Nat × Nat × Nat × Perm)} {entry : Nat → Pte} {v : Nat}
    (apart : rows.Pairwise fun row later => rowLast row < pageOf later.1) :
    overRows entry rows v = match rows.find? fun row => decide (pageOf row.1 ≤ v ∧ v ≤ rowLast row) with
      | some row => .make (pageOf row.2.1 + (v - pageOf row.1)) row.2.2.2
      | none => entry v := by
  induction rows generalizing entry with
  | nil => rfl
  | cons row rest ih =>
    obtain ⟨first, apart⟩ := List.pairwise_cons.mp apart
    rw [overRows, ih apart]
    by_cases here : pageOf row.1 ≤ v ∧ v ≤ rowLast row
    · have others : rest.find? (fun row => decide (pageOf row.1 ≤ v ∧ v ≤ rowLast row)) = none := by
        rw [List.find?_eq_none]
        intro later member
        have := first later member
        simp only [decide_eq_true_eq]
        omega
      rw [others, List.find?_cons, decide_eq_true here]
      dsimp only
      rw [PgDir.over, if_pos here]
    · rw [List.find?_cons, decide_eq_false here]
      dsimp only
      cases rest.find? (fun row => decide (pageOf row.1 ≤ v ∧ v ≤ rowLast row)) with
      | some later => rfl
      | none =>
        dsimp only
        rw [PgDir.over, if_neg here]

theorem kmap_sizes : kmap.map rowSize =
    [0x100000, KernelImage.data - 0x80100000, 0x8E000000 - KernelImage.data, 0x2000000] := by
  have low := KernelImage.link_lt_data
  have middle := KernelImage.data_le_end
  have high := KernelImage.end_le
  simp only [kmap, List.map_cons, List.map_nil, rowSize]
  unfold kernLink kernBase extMem physTop devSpace at *
  simp only [List.cons.injEq, true_and, and_true, Nat.reducePow, Nat.reduceAdd, Nat.reduceSub, Nat.reduceMod]
  constructor <;> omega

theorem kmap_whole : ∀ row ∈ kmap, row.1 = pageOf row.1 * pgSize ∧ row.2.1 = pageOf row.2.1 * pgSize ∧
    row.1 + rowSize row = (rowLast row + 1) * pgSize := by
  have low := KernelImage.link_lt_data
  have middle := KernelImage.data_le_end
  have high := KernelImage.end_le
  have aligned := KernelImage.data_aligned
  have lasts := kmap_lasts
  have sizes := kmap_sizes
  simp only [kmap, List.map_cons, List.map_nil, List.cons.injEq, Prod.mk.injEq, and_true] at lasts sizes
  intro row member
  simp only [kmap, List.mem_cons, List.not_mem_nil, or_false] at member
  rcases member with rfl | rfl | rfl | rfl
  all_goals
    simp only [lasts, sizes]
    unfold dataPage kernLink kernBase extMem devSpace pgSize at *
    omega

theorem translate_kernel (kernel : x.pte = kmapPte) : x.translate va = kmapTranslate va := by
  have same : ∀ row ∈ kmap, decide (pageOf row.1 ≤ pageOf va ∧ pageOf va ≤ rowLast row) =
      decide (row.1 ≤ va ∧ va < row.1 + rowSize row) := by
    intro row member
    obtain ⟨virt, -, size⟩ := kmap_whole row member
    rw [decide_eq_decide, size]
    generalize rowLast row = top
    generalize row.1 = low at *
    unfold pageOf pgSize at *
    omega
  rw [PgDir.translate, kernel, kmapPte, overRows_find kmap_apart, List.find?_congr same, kmapTranslate]
  cases found : kmap.find? (fun row => decide (row.1 ≤ va ∧ va < row.1 + rowSize row)) with
  | none => rfl
  | some row =>
    obtain ⟨virt, phys, -⟩ := kmap_whole row (List.mem_of_find?_eq_some found)
    have inside := List.find?_some found
    simp only [decide_eq_true_eq] at inside
    have place : (pageOf row.2.1 + (pageOf va - pageOf row.1)) * pgSize + va % pgSize = row.2.1 + (va - row.1) := by
      generalize row.1 = low at *
      generalize row.2.1 = physical at *
      unfold pageOf pgSize at *
      omega
    show some (_, _) = some (_, _)
    rw [← place]
    rfl

/-- `mappages` builds the intended translation, page by page, and `setupkvm` the same one every time. -/
theorem mappages_exact (κ : Kernel) (s : Shared) {va size pa : Words.Address} (perm : Perm) (at_d : p.dirs d = some x)
    (aligned : pa.toNat % pgSize = 0) (positive : 0 < size.toNat) (fits : va.toNat + size.toNat ≤ 2 ^ 32)
    (absent : ∀ v, pageOf va.toNat ≤ v → v ≤ pageOf (va.toNat + size.toNat - 1) → (x.pte v).p = false) :
    (∃ mapped s' x' k, run (execute κ) (Words.mappages d va size pa perm) (s, p) = (.ok mapped, (s', p.setDir d x')) ∧
      pageOf va.toNat + k ≤ pageOf (va.toNat + size.toNat - 1) + 1 ∧
      (mapped = true ↔ pageOf va.toNat + k = pageOf (va.toNat + size.toNat - 1) + 1) ∧
      (∀ j off, j < k → off < pgSize →
        x'.translate ((pageOf va.toNat + j) * pgSize + off) = some ((pa.toNat + j * pgSize) % 2 ^ 32 + off, perm)) ∧
      ∀ a, a < pageOf va.toNat * pgSize ∨ (pageOf va.toNat + k) * pgSize ≤ a → x'.translate a = x.translate a) ∧
    ∀ (s : Shared) (p : Proc), (∀ f, f ∈ s.kmem.freelist → Managed f) →
      ∃ made s' p', run (execute κ) setupkvm (s, p) = (.ok made, (s', p')) ∧
        ∀ d, made = some d → ∃ x, p'.dirs d = some x ∧ ∀ a, x.translate a = kmapTranslate a := by
  constructor
  · have last : (va.toNat + size.toNat + (2 ^ 32 - 1)) % 2 ^ 32 = va.toNat + size.toNat - 1 := by omega
    have order : pageOf va.toNat ≤ pageOf (va.toNat + size.toNat - 1) := Nat.div_le_div_right (by omega)
    have inside : pageOf (va.toNat + size.toNat - 1) < vaPages := by
      rw [vaPages_eq]
      unfold pageOf pgSize
      omega
    have frame : pageOf pa.toNat < vaPages := by
      rw [vaPages_eq]
      unfold pageOf pgSize
      have := pa.isLt
      omega
    obtain ⟨mapped, s', x', k, ran, -, pte, bound, whole⟩ := mapLoop_run (n := vaPages) perm κ s at_d order
      (by omega) inside frame absent
    refine ⟨mapped, s', x', k, ?_, by omega, by rw [whole]; omega, fun j off low small => ?_, fun a outside => ?_⟩
    · rw [Words.mappages_eq aligned, mappages, last]
      exact ran
    · have page : pageOf ((pageOf va.toNat + j) * pgSize + off) = pageOf va.toNat + j := by
        unfold pageOf pgSize at *
        omega
      have rest : ((pageOf va.toNat + j) * pgSize + off) % pgSize = off := by
        unfold pgSize at *
        omega
      have entry : x'.pte (pageOf ((pageOf va.toNat + j) * pgSize + off)) = .make ((pageOf pa.toNat + j) % vaPages) perm := by
        rw [page, pte, PgDir.withPages, if_pos (by omega), Nat.add_sub_cancel_left]
      rw [PgDir.translate_make entry, rest]
      have place : (pageOf pa.toNat + j) % vaPages * pgSize = (pa.toNat + j * pgSize) % 2 ^ 32 := by
        rw [vaPages_eq]
        unfold pageOf pgSize at *
        omega
      rw [place]
    · apply PgDir.translate_congr
      rw [pte, PgDir.withPages, if_neg]
      unfold pageOf pgSize at *
      omega
  · intro s p free
    obtain ⟨made, s', p', ran, kernel⟩ := setupkvm_run κ s p free
    refine ⟨made, s', p', ran, fun d same => ?_⟩
    obtain ⟨x, at_d, pte⟩ := kernel d same
    exact ⟨x, at_d, fun a => translate_kernel pte⟩

def emptyDirectory : Proc := ⟨63, 60, 0, false, update (fun _ => none) 60 (some .empty), []⟩

def twoPages : Shared := ⟨⟨[2000, 2001], 1, fun _ => 0⟩, fun _ _ => 0⟩

omit [KernelImage] in
/-- The last page of one page table and all of the next one, up to the end of the address space. -/
theorem mappages_exact_of_two_tables :
    letI := builtImage
    ∃ s' x', run (execute .cow) (Words.mappages 60 0xFFBFF000 0x401000 0x7FBFF000 permW) (twoPages, emptyDirectory) =
        (.ok true, (s', emptyDirectory.setDir 60 x')) ∧
      x'.translate 0xFFBFF123 = some (0x7FBFF123, permW) ∧ x'.translate 0xFFFFFFFF = some (0x7FFFFFFF, permW) ∧
        x'.translate 0xFFBFEFFF = none := by
  let := builtImage
  have first : pageOf (0xFFBFF000 : Words.Address).toNat = 0xFFBFF := by decide
  have last : pageOf ((0xFFBFF000 : Words.Address).toNat + (0x401000 : Words.Address).toNat - 1) = 0xFFFFF := by decide
  have aligned : (0x7FBFF000 : Words.Address).toNat % pgSize = 0 := by decide
  have fits : (0xFFBFF000 : Words.Address).toNat + (0x401000 : Words.Address).toNat ≤ 2 ^ 32 := by decide
  obtain ⟨⟨mapped, s', x', k, ran, -, whole, inside, outside⟩, -⟩ := mappages_exact .cow twoPages (p := emptyDirectory) (d := 60)
    (x := .empty) permW rfl aligned (by decide) fits fun v _ _ => by
      rw [PgDir.pte_empty]
      rfl
  have level : Level {1022, 1023} 60 0 (twoPages, emptyDirectory) := by
    unfold Level
    decide +kernel
  have every : mapped = true := by
    rw [Words.mappages_eq aligned] at ran
    have tables : ∀ v, 0xFFBFF ≤ v → v ≤ 0xFFFFF → v / npdEntries ∈ ({1022, 1023} : Finset Nat) := by
      intro v low high
      rw [Finset.mem_insert, Finset.mem_singleton]
      unfold npdEntries
      omega
    have succeeds : Along (execute .cow) Stocked (fun mapped state => mapped = true ∧ Level {1022, 1023} 60 0 state)
        (mappages 60 (0xFFBFF000 : Words.Address).toNat (0x401000 : Words.Address).toNat
          (pageOf (0x7FBFF000 : Words.Address).toNat) permW) (twoPages, emptyDirectory) :=
      level_mappages (by decide) (by decide) tables level
    exact (succeeds.result ran).1
  have pages : k = 1025 := by
    have all := whole.mp every
    rw [first, last] at all
    omega
  subst every pages
  rw [first] at inside outside
  exact ⟨s', x', ran, inside 0 0x123 (by decide) (by decide), inside 1024 0xFFF (by decide) (by decide),
    outside 0xFFBFEFFF (.inl (by decide))⟩

end Xv6
