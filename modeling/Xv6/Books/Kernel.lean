import Xv6.Books.Mapping

namespace Xv6

open CommandProgram Function Ledger Discipline

variable [KernelImage] {ι : Type} [Fintype ι] [DecidableEq ι]
variable {S : Setting ι} {α : Type} {lo : Proc} {gh : Gh} {post : α → Proc → Gh → Prop}
variable {d : Nat} {x : PgDir}

section Rows

def rowSize (row : Nat × Nat × Nat × Perm) : Nat := (row.2.2.1 + 2 ^ 32 - row.2.1) % 2 ^ 32

def rowLast (row : Nat × Nat × Nat × Perm) : Nat := pageOf ((row.1 + rowSize row + (2 ^ 32 - 1)) % 2 ^ 32)

/-- The entries that rows of `kmap` prescribe over others. -/
def overRows (entry : Nat → Pte) : List (Nat × Nat × Nat × Perm) → Nat → Pte
  | [] => entry
  | row :: rest => overRows (PgDir.over entry (pageOf row.1) (rowLast row) (pageOf row.2.1) row.2.2.2) rest

/-- The entry that `setupkvm` installs for page `v`. -/
def kmapPte (v : Nat) : Pte := overRows (fun _ => .zero) kmap v

structure RowFits (row : Nat × Nat × Nat × Perm) : Prop where
  kernel : userPages ≤ pageOf row.1
  order : pageOf row.1 ≤ rowLast row
  inside : rowLast row < vaPages
  frame : pageOf row.2.1 + (rowLast row - pageOf row.1) < vaPages

theorem kmap_lasts : (kmap.map fun row => (pageOf row.1, rowLast row, pageOf row.2.1)) =
    [(0x80000, 0x800FF, 0), (0x80100, 0x80000 + dataPage - 1, 0x100), (0x80000 + dataPage, 0x8DFFF, dataPage),
      (0xFE000, 0xFFFFF, 0xFE000)] := by
  have low := KernelImage.link_lt_data
  have middle := KernelImage.data_le_end
  have high := KernelImage.end_le
  have aligned := KernelImage.data_aligned
  simp only [kmap, List.map_cons, List.map_nil, rowLast, rowSize, dataPage]
  unfold pageOf kernLink kernBase extMem pgSize physTop devSpace at *
  simp only [List.cons.injEq, Prod.mk.injEq, true_and, and_true, Nat.reducePow, Nat.reduceAdd, Nat.reduceSub,
    Nat.reduceMod, Nat.reduceDiv]
  refine ⟨?_, ?_, ?_⟩ <;> omega

theorem dataPage_gt : 256 < dataPage := by
  have low := KernelImage.link_lt_data
  have aligned := KernelImage.data_aligned
  unfold dataPage pgSize
  unfold kernLink kernBase extMem pgSize at *
  omega

theorem kmap_fits : ∀ row ∈ kmap, RowFits row := by
  have low := KernelImage.link_lt_data
  have bounds := dataPage_bounds
  have lasts := kmap_lasts
  have strict := dataPage_gt
  simp only [kmap, List.map_cons, List.map_nil, List.cons.injEq, Prod.mk.injEq, and_true] at lasts
  intro row member
  simp only [kmap, List.mem_cons, List.not_mem_nil, or_false] at member
  rcases member with rfl | rfl | rfl | rfl
  all_goals
    constructor
    all_goals
      simp only [userPages_eq, vaPages_eq, lasts]
      omega

theorem kmap_apart : kmap.Pairwise fun row later => rowLast row < pageOf later.1 := by
  have bounds := dataPage_bounds
  have lasts := kmap_lasts
  simp only [kmap, List.map_cons, List.map_nil, List.cons.injEq, Prod.mk.injEq, and_true] at lasts
  simp only [kmap, List.pairwise_cons, List.mem_cons, List.not_mem_nil, or_false, forall_eq_or_imp, forall_eq,
    lasts, false_implies, implies_true, List.Pairwise.nil, and_true]
  omega

omit [KernelImage] in
theorem overRows_user {entry : Nat → Pte} {rows : List (Nat × Nat × Nat × Perm)}
    (fits : ∀ row ∈ rows, RowFits row) {v : Nat} (user : v < userPages) : overRows entry rows v = entry v := by
  induction rows generalizing entry with
  | nil => rfl
  | cons row rest ih =>
    have first := (fits row (by simp)).kernel
    rw [overRows, ih (fun row member => fits row (by simp [member])), PgDir.over, if_neg (by omega)]

theorem kmapPte_user {v : Nat} (user : v < userPages) : kmapPte v = .zero := overRows_user kmap_fits user

/-- `setupkvm` maps nothing but the kernel, and everything of it for the kernel alone. -/
theorem kmapPte_unprivileged (v : Nat) : (kmapPte v).u = false := by
  have none : ∀ rows : List (Nat × Nat × Nat × Perm), (∀ row ∈ rows, row.2.2.2.u = false) →
      ∀ entry : Nat → Pte, (∀ v, (entry v).u = false) → ∀ v, (overRows entry rows v).u = false := by
    intro rows
    induction rows with
    | nil => exact fun _ _ base => base
    | cons row rest ih =>
      intro plain entry base
      apply ih (fun row member => plain row (by simp [member]))
      intro v
      unfold PgDir.over
      split
      · exact plain row (by simp)
      · exact base v
  apply none kmap _ _ (fun _ => rfl)
  intro row member
  simp only [kmap, List.mem_cons, List.not_mem_nil, or_false] at member
  rcases member with rfl | rfl | rfl | rfl <;> rfl

/-- The kernel half shows physical memory in order, and what lies before the kernel's data cannot be written. -/
theorem kmapPte_direct {f : Nat} (range : f < frames) :
    kmapPte (userPages + f) = .make f ⟨decide (f < 256 ∨ dataPage ≤ f), false⟩ := by
  have lasts := kmap_lasts
  have low := dataPage_gt
  have high := dataPage_bounds.2
  simp only [kmap, List.map_cons, List.map_nil, List.cons.injEq, Prod.mk.injEq, and_true] at lasts
  obtain ⟨⟨first, lastLow, fromLow⟩, ⟨text, lastText, fromText⟩, ⟨data, lastData, fromData⟩, dev, lastDev, _⟩ := lasts
  rw [frames_eq] at range
  have before : ¬ (0xFE000 ≤ userPages + f) := by
    rw [userPages_eq]
    omega
  have shift : userPages + f - 0x80000 = f := by
    rw [userPages_eq]
    omega
  simp only [kmapPte, kmap, overRows, PgDir.over, first, lastLow, fromLow, text, lastText, fromText, data, lastData,
    fromData, dev, lastDev, before, false_and, if_false]
  rw [userPages_eq]
  by_cases early : f < 256
  · rw [if_neg (by omega), if_neg (by omega), if_pos (by omega)]
    simp [early, permW]
  · by_cases middle : f < dataPage
    · rw [if_neg (by omega), if_pos (by omega)]
      have place : 0x100 + (524288 + f - 0x80100) = f := by omega
      rw [place]
      simp [early, Nat.not_le.mpr middle]
    · rw [if_pos (by omega)]
      have place : dataPage + (524288 + f - (0x80000 + dataPage)) = f := by omega
      rw [place]
      simp [permW, Nat.not_lt.mp middle]
theorem foreign_zero : ¬ Managed 0 := by
  intro managed
  have low := managed.dataPage_le
  have bounds := dataPage_bounds
  omega

theorem kmapPte_writable {v : Nat} (managed : Managed (kmapPte v).addr) : (kmapPte v).w = true := by
  have lasts := kmap_lasts
  simp only [kmap, List.map_cons, List.map_nil, List.cons.injEq, Prod.mk.injEq, and_true] at lasts
  obtain ⟨⟨first, lastLow, fromLow⟩, ⟨text, lastText, fromText⟩, ⟨data, lastData, fromData⟩, dev, lastDev, _⟩ := lasts
  have low := managed.dataPage_le
  simp only [kmapPte, kmap, overRows, PgDir.over, first, lastLow, fromLow, text, lastText, fromText, data, lastData,
    fromData, dev, lastDev] at low managed ⊢
  by_cases inDev : 0xFE000 ≤ v ∧ v ≤ 0xFFFFF
  · rw [if_pos inDev]
    rfl
  · by_cases inData : 0x80000 + dataPage ≤ v ∧ v ≤ 0x8DFFF
    · rw [if_neg inDev, if_pos inData]
      rfl
    · by_cases inText : 0x80100 ≤ v ∧ v ≤ 0x80000 + dataPage - 1
      · rw [if_neg inDev, if_neg inData, if_pos inText] at low
        simp only [Pte.make] at low
        omega
      · by_cases inLow : 0x80000 ≤ v ∧ v ≤ 0x800FF
        · rw [if_neg inDev, if_neg inData, if_neg inText, if_pos inLow]
          rfl
        · rw [if_neg inDev, if_neg inData, if_neg inText, if_neg inLow] at managed
          exact absurd managed foreign_zero

theorem kmapPte_managed {f : Nat} (managed : Managed f) : kmapPte (userPages + f) = .make f permW := by
  rw [kmapPte_direct managed.lt_frames]
  simp [managed.dataPage_le, permW]

end Rows

theorem mapRows_outline {rows : List (Nat × Nat × Nat × Perm)} (at_d : lo.dirs d = some x)
    (fits : ∀ row ∈ rows, RowFits row) (apart : rows.Pairwise fun row later => rowLast row < pageOf later.1)
    (noclaim : ∀ f, ¬ gh.claim f)
    (free : S.strict → ∀ row ∈ rows, ∀ v, pageOf row.1 ≤ v → v ≤ rowLast row → (x.pte v).p = false) :
    S.Outline (mapRows d rows) lo gh (fun mapped lo' gh' =>
      ∃ x', Added d x' (lo, gh) (lo', gh') ∧ (∀ v, v < userPages → x'.pte v = x.pte v) ∧
        (mapped = true → x'.pte = overRows x.pte rows) ∧ (mapped = false → S.scarce)) := by
  induction rows generalizing x lo gh with
  | nil =>
    exact pure_rule ⟨x, .refl at_d noclaim, fun _ _ => rfl, fun _ => rfl, fun wrong => absurd wrong (by decide)⟩
  | cons row rest ih =>
    have fit := fits row (by simp)
    rw [List.pairwise_cons] at apart
    have map := mapLoop_kernel (S := S) (n := vaPages) (a := pageOf row.1) (q := row.2.2.2) at_d fit.kernel fit.order
      fit.inside (by have inside := fit.inside; omega) fit.frame noclaim
      (fun strict => free strict row (by simp))
    unfold mapRows
    apply Outline.andThen map
    rintro mapped lo₁ gh₁ ⟨x₁, added, below, whole, failing⟩
    cases mapped
    · exact pure_rule ⟨x₁, added, below, fun wrong => absurd wrong (by decide), fun _ => failing rfl⟩
    · refine (ih added.at_d (fun row member => fits row (by simp [member])) apart.2 added.noclaim ?_).mono ?_
      · intro strict later member v low high
        rw [whole rfl, PgDir.over, if_neg (by have := apart.1 later member; omega)]
        exact free strict later (by simp [member]) v low high
      · rintro mapped lo' gh' ⟨x', added', below', whole', failing'⟩
        refine ⟨x', added.trans added', fun v user => ?_, fun success => ?_, failing'⟩
        · rw [below' v user, below v user]
        · rw [whole' success, whole rfl]
          rfl

/-- The entry of page `v` after `deallocuvm` over the pages from `a` on and below `last`. -/
def PgDir.cleared (entry : Nat → Pte) (a last v : Nat) : Pte :=
  if a ≤ v ∧ v < last ∧ (entry v).p = true then .zero else entry v

section

omit [KernelImage]

theorem PgDir.cleared_done {entry : Nat → Pte} {a last : Nat} (done : last ≤ a) : cleared entry a last = entry := by
  funext v
  rw [cleared, if_neg (by omega)]

theorem PgDir.cleared_skip {entry : Nat → Pte} {a b last : Nat} (further : a ≤ b)
    (absent : ∀ v, a ≤ v → v < b → (entry v).p = false) : cleared entry b last = cleared entry a last := by
  funext v
  unfold cleared
  by_cases early : a ≤ v ∧ v < b
  · simp [absent v early.1 early.2]
  · have same : (b ≤ v ∧ v < last ∧ (entry v).p = true) ↔ (a ≤ v ∧ v < last ∧ (entry v).p = true) := by
      constructor
      · exact fun inside => ⟨by omega, inside.2⟩
      · exact fun inside => ⟨by omega, inside.2⟩
    simp only [same]

theorem PgDir.cleared_step {entry : Nat → Pte} {a last : Nat} (more : a < last) (present : (entry a).p = true) :
    cleared (update entry a .zero) (a + 1) last = cleared entry a last := by
  funext v
  unfold cleared
  by_cases here : v = a
  · subst here
    simp [more, present]
  · have same : (a + 1 ≤ v ∧ v < last ∧ (entry v).p = true) ↔ (a ≤ v ∧ v < last ∧ (entry v).p = true) := by
      constructor
      · exact fun inside => ⟨by omega, inside.2⟩
      · exact fun inside => ⟨by omega, inside.2⟩
    simp only [update_of_ne here, same]

theorem PgDir.missing_table {x : PgDir} {a v : Nat} (missing : ¬ x.Has a) (low : a ≤ v)
    (high : v < (a / npdEntries + 1) * npdEntries) : (x.pte v).p = false := by
  have table : v / npdEntries = a / npdEntries := by
    unfold npdEntries at *
    omega
  have none : x.pde (v / npdEntries) = none := by
    rw [table]
    exact Classical.not_not.mp missing
  rw [pte_of_absent none]
  rfl

end

theorem deallocLoop_outline {last n a : Nat} (at_d : lo.dirs d = some x) (user : last ≤ userPages)
    (rounds : last - a ≤ n) (noclaim : ∀ f, ¬ gh.claim f) (settled : ∀ f, gh.tok .uncounted f = 0) :
    S.Outline (deallocLoop d last n a) lo gh (fun _ lo' gh' =>
      gh' = gh ∧ ∃ x', lo' = lo.setDir d x' ∧ x'.pde = x.pde ∧ x'.pte = PgDir.cleared x.pte a last) := by
  have idle : ∀ a, last ≤ a → gh = gh ∧ ∃ x', lo = lo.setDir d x' ∧ x'.pde = x.pde ∧
      x'.pte = PgDir.cleared x.pte a last := by
    intro a done
    exact ⟨rfl, x, (Proc.setDir_self at_d).symm, rfl, (PgDir.cleared_done done).symm⟩
  induction n generalizing a x lo with
  | zero =>
    unfold deallocLoop
    rw [if_neg (by omega)]
    exact pure_rule (idle a (by omega))
  | succ n ih =>
    unfold deallocLoop
    by_cases more : a < last
    · rw [if_pos more]
      have page : pageOf (a * pgSize) = a := by
        unfold pageOf pgSize
        omega
      -- pages without a page table or without an entry stay as they are
      have skip : ∀ b, a < b → (∀ v, a ≤ v → v < b → (x.pte v).p = false) →
          S.Outline (deallocLoop d last n b) lo gh (fun _ lo' gh' => gh' = gh ∧ ∃ x', lo' = lo.setDir d x' ∧
            x'.pde = x.pde ∧ x'.pte = PgDir.cleared x.pte a last) := by
        intro b further absent
        refine (ih at_d (by omega) ?_).mono ?_
        · intro c done
          exact ⟨rfl, x, (Proc.setDir_self at_d).symm, rfl, (PgDir.cleared_done done).symm⟩
        · rintro _ lo' gh' ⟨same, x', own, pde, pte⟩
          exact ⟨same, x', own, pde, pte.trans (PgDir.cleared_skip (Nat.le_of_lt further) absent)⟩
      apply walk_rule at_d
      · intro has
        rw [page] at has ⊢
        apply pte_rule
        intro facts
        rw [Proc.dir_of at_d]
        cases present : (x.pte a).p
        · simp only [Bool.false_eq_true, if_false]
          apply skip (a + 1) (by omega)
          intro v low high
          have same : v = a := by omega
          rw [same, present]
        · have managed := (facts.entry at_d (by omega) present).1
          have nonzero : (x.pte a).addr ≠ 0 := by
            have low := managed.dataPage_le
            have bounds := dataPage_bounds
            omega
          simp only [if_true, nonzero, if_false, managed]
          apply freePte_rule at_d has (by omega) rfl present (settled _)
          rw [Gh.plain_eq noclaim]
          have at_d' : (lo.setDir d (x.setPte a .zero)).dirs d = some (x.setPte a .zero) := by simp
          refine (ih at_d' (by omega) ?_).mono ?_
          · intro c done
            exact ⟨rfl, _, (Proc.setDir_self at_d').symm, rfl, (PgDir.cleared_done done).symm⟩
          · rintro _ lo' gh' ⟨same, x', own, pde, pte⟩
            refine ⟨same, x', ?_, ?_, ?_⟩
            · rw [own, Proc.setDir_setDir]
            · rw [pde, PgDir.pde_setPte]
            · rw [pte, PgDir.pte_setPte has, PgDir.cleared_step more present]
      · intro missing
        rw [page] at missing
        have further : a < (a / npdEntries + 1) * npdEntries := by
          unfold npdEntries
          omega
        exact skip _ further fun v low high => PgDir.missing_table missing low high
    · rw [if_neg more]
      exact pure_rule (idle a (by omega))

theorem deallocuvm_outline {oldsz newsz : Nat} (at_d : lo.dirs d = some x) (user : oldsz ≤ kernBase)
    (noclaim : ∀ f, ¬ gh.claim f) (settled : ∀ f, gh.tok .uncounted f = 0) :
    S.Outline (deallocuvm d oldsz newsz) lo gh (fun size lo' gh' =>
      size = (if oldsz ≤ newsz then oldsz else newsz) ∧ gh' = gh ∧ ∃ x', lo' = lo.setDir d x' ∧ x'.pde = x.pde ∧
        x'.pte = PgDir.cleared x.pte (pgRoundUp newsz) (pgRoundUp oldsz)) := by
  unfold deallocuvm
  by_cases grows : oldsz ≤ newsz
  · rw [if_pos grows, if_pos grows]
    have done : pgRoundUp oldsz ≤ pgRoundUp newsz := by
      unfold pgRoundUp pgSize
      omega
    exact pure_rule ⟨rfl, rfl, x, (Proc.setDir_self at_d).symm, rfl, (PgDir.cleared_done done).symm⟩
  · rw [if_neg grows, if_neg grows]
    have inside : pgRoundUp oldsz ≤ userPages := by
      rw [userPages_eq]
      unfold pgRoundUp pgSize
      unfold kernBase at user
      omega
    apply Outline.andThen (deallocLoop_outline at_d inside (le_refl _) noclaim settled)
    rintro _ lo' gh' ⟨same, x', own, pde, pte⟩
    exact pure_rule ⟨rfl, same, x', own, pde, pte⟩

theorem freeTables_outline {pdes : List (Option Nat)} {base : Tally Nat} (managed : ∀ pa, some pa ∈ pdes → Managed pa)
    (tok : gh.tok = fun k f => base k f + listRefs pdes k f) (noclaim : ∀ f, ¬ gh.claim f) :
    S.Outline (freeTables pdes) lo gh (fun _ lo' gh' =>
      lo' = lo ∧ gh'.tok = base ∧ (∀ f, ¬ gh'.claim f) ∧ gh'.seen = gh.seen) := by
  induction pdes generalizing gh with
  | nil => exact pure_rule ⟨rfl, by rw [tok]; rfl, noclaim, rfl⟩
  | cons o rest ih =>
    cases o with
    | none =>
      unfold freeTables
      exact ih (fun pa member => managed pa (by simp [member])) (by rw [tok]; funext k f; simp [listRefs, pdeRefs])
        noclaim
    | some pa =>
      unfold freeTables
      apply kfree_rule (managed pa (by simp))
      · simp only [tok, listRefs, pdeRefs, unit, and_self, if_true]
        omega
      · refine (ih (fun pa member => managed pa (by simp [member])) ?_ (fun _ claim => claim)).mono ?_
        · funext k f
          simp only [Gh.lose, tok, listRefs, pdeRefs]
          omega
        · exact fun _ _ _ done => done

theorem freevm_outline (at_d : lo.dirs d = some x) (noclaim : ∀ f, ¬ gh.claim f)
    (settled : ∀ f, gh.tok .uncounted f = 0) :
    S.Outline (freevm d) lo gh (fun _ lo' gh' => lo' = lo.dropDir d ∧ gh' = gh) := by
  unfold freevm
  apply Outline.andThen (deallocuvm_outline at_d (le_refl _) noclaim settled)
  rintro _ lo₁ gh₁ ⟨_, same, x₁, own, pde, pte⟩
  rw [same, own]
  have at_d₁ : (lo.setDir d x₁).dirs d = some x₁ := by simp
  apply retire_rule at_d₁
  · intro w user
    have inside : pgRoundUp 0 ≤ w ∧ w < pgRoundUp kernBase := by
      rw [userPages_eq] at user
      unfold pgRoundUp pgSize kernBase
      omega
    rw [pte, PgDir.cleared]
    by_cases present : (x.pte w).p = true
    · rw [if_pos ⟨inside.1, inside.2, present⟩]
      rfl
    · rw [if_neg (fun h => present h.2.2)]
      simpa using present
  · intro directory entries
    have tok : (gh.retire d ((List.range npdEntries).map x₁.pde)).tok =
        fun k f => (gh.tok k f + unit .owner d k f) + listRefs ((List.range npdEntries).map x₁.pde) k f := by
      simp only [Gh.retire]
    apply Outline.andThen (freeTables_outline entries tok (fun _ claim => claim))
    rintro _ lo₂ gh₂ ⟨rfl, tok, noclaim₂, seen⟩
    rw [← Program.bind_ret (kfree d)]
    apply kfree_rule directory (by simp [tok, unit])
    refine pure_rule ⟨by simp [Proc.setDir, Proc.dropDir], Gh.ext_plain ?_ ?_ noclaim (fun _ claim => claim)⟩
    · funext k f
      simp [Gh.lose, tok]
    · simp only [Gh.lose, seen, Gh.retire]

end Xv6
