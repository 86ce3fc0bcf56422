import Xv6.Cow.Exact
import Xv6.Memory.Uses
import Xv6.System.First

namespace Xv6

open CommandProgram Function Ledger

variable [KernelImage] {ι : Type} [Fintype ι] [DecidableEq ι]
variable {S : Setting ι} {c : System ι} {s : Shared} {p : Proc} {t : ι} {n : Int} {x x' : PgDir} {gh' : Gh}
  {mark mark' : Nat → Mark}

/-- The process has the size that it asked for, the pages for it and no others, and the old pages that are left hold
what they held. -/
structure GrownBy (c c' : System ι) (t : ι) (n : Int) : Prop where
  size : ((c'.proc t).sz : Int) = (c.proc t).sz + n
  bound : (c'.proc t).sz < kernBase
  mapped : ∀ v, v < userPages → (((c'.table t).pte v).p = true ↔ v < pgRoundUp (c'.proc t).sz)
  memory : ∀ v, v < pgRoundUp (c.proc t).sz → v < pgRoundUp (c'.proc t).sz → c'.memory t v = c.memory t v

/-- The process has the memory that it had, and what was taken from the free list is there again or is a page table. -/
structure NotGrown (c c' : System ι) (t : ι) : Prop where
  size : (c'.proc t).sz = (c.proc t).sz
  memory : c'.memory t = c.memory t
  free : ∀ f ∈ c.shared.kmem.freelist, f ∈ c'.shared.kmem.freelist ∨ ∃ i < npdEntries, (c'.table t).pde i = some f

theorem Setting.Change.cell_kept (change : S.Change c.shared c.proc mark t s p gh' mark')
    (calm : S.Calm c.shared c.proc mark) (occupied : Occupied (c.proc t) x) {d v : Nat} (at_d : p.dirs d = some x')
    (same : x'.pte v = x.pte v) (sees : SeesAs (c.proc t, .calm c.shared mark) (p, gh')) :
    x'.memory s v = x.memory c.shared v := by
  unfold PgDir.memory
  by_cases mapped : v < userPages ∧ (x.pte v).p = true
  · have page := change.page at_d mapped.1 (same ▸ mapped.2)
    rw [same] at page
    rw [if_pos mapped, if_pos (same ▸ mapped), same, page]
    exact congrArg (fun bytes => some (Cell.mk bytes _)) (sees _ (calm.held occupied.at_pgdir mapped.1 mapped.2 _))
  · rw [if_neg mapped, if_neg (same ▸ mapped)]

omit [DecidableEq ι] in
theorem Setting.Calm.unheld (calm : S.Calm c.shared c.proc mark) {f : Nat} (free : f ∈ c.shared.kmem.freelist) (u : ι)
    (k : Kind) : (c.proc u).refs k f = 0 := by
  obtain ⟨count, inv⟩ := calm
  have zero := inv.books.free_zero free u k
  rwa [account_calm] at zero

/-- After a program without `d_rCount` a frame that was free is free, or a page table has come to it. -/
theorem Setting.Change.free_kept {α : Type} {program : Vm α} {value : α} (cow : S.kernel = .cow)
    (uses : program.Uses Harmless)
    (done : Program.run (execute S.kernel) program (c.shared, c.proc t) = (.ok value, (s, p)))
    (change : S.Change c.shared c.proc mark t s p gh' mark') (calm : S.Calm c.shared c.proc mark)
    (occupied : Occupied (c.proc t) x) (occupied' : Occupied p x') (same_dir : p.pgdir = (c.proc t).pgdir)
    (same_stack : p.kstack = (c.proc t).kstack)
    (entries : ∀ v, v < userPages → (x'.pte v).p = true → x'.pte v = x.pte v) {f : Nat}
    (free : f ∈ c.shared.kmem.freelist) : f ∈ s.kmem.freelist ∨ ∃ i < npdEntries, x'.pde i = some f := by
  have found : Found s f := by
    have along : Program.Along (execute .cow) (fun command s => Lossless command s.1) (fun _ _ => True) program
      (c.shared, c.proc t) := uses.along (fun _ s => harmless_lossless s) _
    have kept := along.invariant
      (fun _ (state : Shared × Proc) (found : Found state.1 f) lossless => execute_found found lossless) fun _ => free
    rw [cow] at done
    rw [done] at kept
    exact kept
  by_cases zero : s.kmem.page_rCount f = 0
  · exact .inl (found zero)
  · right
    have user : ¬ Kpgdir f := by
      obtain ⟨count, inv⟩ := calm
      exact (inv.books.free_managed f free).2
    obtain ⟨u, holds⟩ := change.calm.holder cow user zero
    unfold Held Ledger.held at holds
    rw [account_calm] at holds
    have other : u = t := by
      by_contra other
      rw [update_of_ne other, calm.unheld free u .reader, calm.unheld free u .writer, calm.unheld free u .owner] at holds
      exact absurd holds (Nat.lt_irrefl 0)
    subst other
    rw [update_self] at holds
    dsimp only at holds
    obtain ⟨k, positive⟩ : ∃ k, 0 < p.refs k f := by
      by_contra none
      push Not at none
      have reader := none .reader
      have writer := none .writer
      have owner := none .owner
      omega
    have before := calm.unheld free u k
    rw [Proc.refs_single (calm.bound occupied.at_pgdir) occupied.dirs occupied.kpages] at before
    have bound' : p.pgdir < frames := same_dir ▸ calm.bound occupied.at_pgdir
    rw [Proc.refs_single bound' occupied'.dirs occupied'.kpages, same_dir, same_stack] at positive
    unfold PgDir.refs at before positive
    have pages : ∑ v ∈ Finset.range userPages, (x'.pte v).refs k f = 0 := by
      apply Finset.sum_eq_zero
      intro v inside
      have user := Finset.mem_range.mp inside
      by_contra some
      have shown := pteRefs_pos (Nat.pos_of_ne_zero some)
      have entry := FiniteSums.term_le_sum (fun v => (x.pte v).refs k f) inside
      rw [entries v user shown.1] at some
      omega
    have tables : 0 < ∑ i ∈ Finset.range npdEntries, pdeRefs (x'.pde i) k f := by omega
    obtain ⟨i, inside, here⟩ := FiniteSums.exists_of_sum_pos tables
    exact ⟨i, Finset.mem_range.mp inside, pdeRefs_pos here⟩

/-- The condition under which `sbrk` keeps its promise: it does not ask for a process of size 0 or less. -/
def Askable (sz : Nat) (n : Int) : Prop := 0 ≤ n ∨ 0 < sz + n ∨ sz = 0

/-- The ways in which `growproc` comes to the page table `x'` and the size `sz'`. -/
inductive Resize (sz : Nat) (n : Int) (x : PgDir) (grown : Bool) (x' : PgDir) (sz' : Nat) : Prop where
  | grew (grows : 0 < n ∧ asked sz n < kernBase)
    (outside : ∀ v, ¬ (pgRoundUp sz ≤ v ∧ v < pgRoundUp (asked sz n)) → x'.pte v = x.pte v)
    (done : grown = true) (size : sz' = asked sz n)
    (inside : ∀ v, pgRoundUp sz ≤ v → v < pgRoundUp (asked sz n) → (x'.pte v).p = true)
  | failed (grows : 0 < n ∧ asked sz n < kernBase)
    (outside : ∀ v, ¬ (pgRoundUp sz ≤ v ∧ v < pgRoundUp (asked sz n)) → x'.pte v = x.pte v)
    (failed : grown = false) (size : sz' = sz)
    (inside : ∀ v, pgRoundUp sz ≤ v → v < pgRoundUp (asked sz n) → (x'.pte v).p = false)
  | shrank (shrinks : n < 0 ∧ asked sz n < sz)
    (cleared : x'.pte = PgDir.cleared x.pte (pgRoundUp (asked sz n)) (pgRoundUp sz))
    (done : grown = decide (asked sz n ≠ 0)) (size : sz' = if asked sz n = 0 then sz else asked sz n)
  | stayed (still : ¬ (0 < n ∧ asked sz n < kernBase)) (stays : ¬ (n < 0 ∧ asked sz n < sz)) (same : x'.pte = x.pte)
    (size : sz' = sz) (done : grown = decide (n = 0 ∨ n < 0 ∧ sz ≠ 0))

/-- How the machine after `sbrk` is read off the page table `x'` and the size that it leaves. -/
structure ReadOff (c c' : System ι) (t : ι) (x x' : PgDir) (sz' : Nat) : Prop where
  size : (c'.proc t).sz = sz'
  table : c'.table t = x'
  kept : ∀ v, x'.pte v = x.pte v → c'.memory t v = c.memory t v
  empty : ∀ v, (x'.pte v).p = false → c'.memory t v = none
  free : (∀ v, userPages ≤ v → x'.pte v = x.pte v) → sz' ≤ kernBase →
    (∀ v, v < userPages → (x'.pte v).p = true → x'.pte v = x.pte v) →
      ∀ f ∈ c.shared.kmem.freelist, f ∈ c'.shared.kmem.freelist ∨ ∃ i < npdEntries, x'.pde i = some f

theorem read_off {sz' : Nat} (cow : S.kernel = .cow) (occupied : Occupied (c.proc t) x) (calm : S.Calm c.shared c.proc mark)
    {grown : Bool}
    (done : Program.run (execute S.kernel) (growproc (c.proc t).pgdir (c.proc t).sz n) (c.shared, c.proc t) = (.ok grown, (s, p)))
    (change : S.Change c.shared c.proc mark t s p gh' mark') (sees : SeesAs (c.proc t, .calm c.shared mark) (p, gh'))
    (own : p = { (c.proc t).setDir (c.proc t).pgdir x' with sz := sz' }) : ReadOff c (c.ran t s p) t x x' sz' := by
  have proc : (c.ran t s p).proc t = p := update_self ..
  have at_pgdir : p.dirs (c.proc t).pgdir = some x' := by
    rw [own]
    exact update_self ..
  have pgdir : p.pgdir = (c.proc t).pgdir := by rw [own]; rfl
  have table : (c.ran t s p).table t = x' := by rw [System.table, proc, Proc.table, pgdir, Proc.dir_of at_pgdir]
  constructor
  · rw [proc, own]
  · exact table
  · intro v same
    rw [System.memory, System.memory, table, System.table, occupied.table]
    exact change.cell_kept calm occupied at_pgdir same sees
  · intro v absent
    rw [System.memory, table, PgDir.memory, if_neg fun both => Bool.false_ne_true (absent.symm.trans both.2)]
  · intro kernel bound entries f free
    have kept := occupied.setDir kernel
    have occupied' : Occupied p x' := by
      constructor
      case dirs => rw [own]; exact kept.dirs
      case kpages => rw [own]; exact occupied.kpages
      case size => rw [own]; exact bound
      case kernel => exact kept.kernel
    exact change.free_kept cow growproc_uses done calm occupied occupied' pgdir (by rw [own]; rfl) entries free

/-- What `sbrk` leaves of the process that it runs for, whenever `kalloc` may find no page. -/
theorem sbrk_after (sane : Sane S c) (cow : S.kernel = .cow) (live : c.state t = .live)
    (mapped : ∀ v, v < userPages → (((c.table t).pte v).p = true ↔ v < pgRoundUp (c.proc t).sz)) (fits : n < 2 ^ 31) :
    ∃ x x' sz' grown c', Occupied (c.proc t) x ∧ c.act .cow (.sbrk t n) = .ok (.flag grown, c') ∧
      ReadOff c c' t x x' sz' ∧ Resize (c.proc t).sz n x grown x' sz' := by
  let T : Setting ι := ⟨.cow, True, True, S.family⟩
  have sane' : Sane T c := sane.transfer cow.symm rfl
  obtain ⟨x, occupied⟩ := sane'.occupied t (by simp [live])
  obtain ⟨mark, calm⟩ := sane'.calm
  rw [System.table, occupied.table] at mapped
  have outline : T.Outline (growproc (c.proc t).pgdir (c.proc t).sz n) (c.proc t) (.calm c.shared mark) _ :=
    growproc_outline occupied.at_pgdir rfl rfl occupied.size fits (fun _ claim => claim) (fun _ => rfl)
      fun _ v low user => Bool.eq_false_iff.mpr fun present => absurd ((mapped v user).mp present) (Nat.not_lt.mpr low)
  have supplied : Sustained T (growproc (c.proc t).pgdir (c.proc t).sz n) c t :=
    growproc_uses.along (fun _ _ _ _ => .inl trivial) _
  rcases done : Program.run (execute T.kernel) (growproc (c.proc t).pgdir (c.proc t).sz n) (c.shared, c.proc t)
    with ⟨result, s, p⟩
  rcases calm.perform outline supplied done with ⟨grown, -, -, -, rfl, -⟩ | ⟨-, -, lax, -⟩
  · obtain ⟨gh', mark', ⟨-, -, sees, x', sz', own, outcome⟩, change⟩ :=
      calm.change outline supplied (fun _ _ _ post => ⟨post.1, post.2.1⟩) done
    refine ⟨x, x', sz', grown, _, occupied, ?_, read_off rfl occupied calm done change sees own, ?_⟩
    · exact (act_iff (a := .sbrk t n) (c := c) rfl).mpr ⟨grown, s, p, done, rfl, rfl⟩
    · split at outcome
      · rename_i grows
        obtain ⟨outside, ⟨done, size, inside⟩ | ⟨failed, -, size, inside⟩⟩ := outcome
        · exact .grew grows outside done size fun v low high => (inside v low high).present
        · exact .failed grows outside failed size inside
      · split at outcome
        · rename_i shrinks
          exact .shrank shrinks outcome.1 outcome.2.1 outcome.2.2
        · rename_i still stays
          exact .stayed still stays outcome.1 outcome.2.1 outcome.2.2
  · exact absurd trivial lax

namespace ReadOff

variable {c' : System ι} {sz' : Nat}

omit [KernelImage] [Fintype ι] [DecidableEq ι] in
theorem unchanged (after : ReadOff c c' t x x' sz') (same : x'.pte = x.pte) (size : sz' = (c.proc t).sz)
    (bound : (c.proc t).sz ≤ kernBase) : NotGrown c c' t where
  size := after.size.trans size
  memory := funext fun v => after.kept v (congrFun same v)
  free := by
    rw [after.table]
    exact after.free (fun v _ => congrFun same v) (by rw [size]; exact bound) fun v _ _ => congrFun same v

omit [KernelImage] [Fintype ι] [DecidableEq ι] in
theorem grown (after : ReadOff c c' t x x' sz') (size : (sz' : Int) = (c.proc t).sz + n) (bound : sz' < kernBase)
    (mapped : ∀ v, v < userPages → ((x'.pte v).p = true ↔ v < pgRoundUp sz'))
    (same : ∀ v, v < pgRoundUp (c.proc t).sz → v < pgRoundUp sz' → x'.pte v = x.pte v) : GrownBy c c' t n where
  size := by
    rw [after.size]
    exact size
  bound := by
    rw [after.size]
    exact bound
  mapped := by
    rw [after.table, after.size]
    exact mapped
  memory v low := by
    rw [after.size]
    exact fun low' => after.kept v (same v low low')

omit [Fintype ι] [DecidableEq ι] in
theorem lost (after : ReadOff c c' t x x' sz') (occupied : Occupied (c.proc t) x)
    (mapped : ∀ v, v < userPages → ((x.pte v).p = true ↔ v < pgRoundUp (c.proc t).sz))
    (cleared : x'.pte = PgDir.cleared x.pte (pgRoundUp (asked (c.proc t).sz n)) (pgRoundUp (c.proc t).sz))
    (none : asked (c.proc t).sz n = 0) (some : 0 < (c.proc t).sz) : c'.memory t ≠ c.memory t := by
  have first : 0 < pgRoundUp (c.proc t).sz := by
    unfold pgRoundUp pgSize
    omega
  intro same
  have cell := congrFun same 0
  have present := (mapped 0 (by decide)).mpr first
  have gone : (x'.pte 0).p = false := by
    rw [cleared, PgDir.cleared, none, if_pos ⟨Nat.zero_le _, first, present⟩]
    rfl
  rw [after.empty 0 gone, System.memory, System.table, occupied.table, PgDir.memory, if_pos ⟨by decide, present⟩] at cell
  cases cell

end ReadOff

section First

variable {rule : System ι → Action ι → Prop} {init : List UInt8}

theorem First.live (first : First .cow rule t init c x) : c.state t = .live := by rw [first.state, update_self]

theorem First.small (first : First .cow rule t init c x) : (c.proc t).sz < kernBase := by
  rw [first.size]
  decide

theorem First.mapped (first : First .cow rule t init c x) (v : Nat) (user : v < userPages) :
    ((c.table t).pte v).p = true ↔ v < pgRoundUp (c.proc t).sz := by
  rw [System.table, first.occupied.table, first.size, show pgRoundUp pgSize = 1 from by decide]
  by_cases here : v = 0
  · subst here
    exact iff_of_true first.image.present Nat.one_pos
  · rw [first.image.rest v here, kmapPte_user user]
    exact iff_of_false Bool.false_ne_true (by omega)

end First

/-- `growproc` does what it promises if and only if it is not asked for a process of size 0 or less; then it takes all pages
away and fails, or does nothing and succeeds. -/
theorem growproc_exact (sane : Sane S c) (cow : S.kernel = .cow) (live : c.state t = .live) (small : (c.proc t).sz < kernBase)
    (mapped : ∀ v, v < userPages → (((c.table t).pte v).p = true ↔ v < pgRoundUp (c.proc t).sz))
    (int : -2 ^ 31 ≤ n ∧ n < 2 ^ 31) :
    ∃ grown c', c.act .cow (.sbrk t n) = .ok (.flag grown, c') ∧
      ((grown = true → GrownBy c c' t n) ∧ (grown = false → NotGrown c c' t) ↔ Askable (c.proc t).sz n) := by
  obtain ⟨x, x', sz', grown, c', occupied, acts, after, outcome⟩ := sbrk_after sane cow live mapped int.2
  refine ⟨grown, c', acts, ?_⟩
  rw [System.table, occupied.table] at mapped
  have bound := Nat.le_of_lt small
  have wraps : (asked (c.proc t).sz n : Int) = ((c.proc t).sz + n) % 2 ^ 32 := by
    unfold asked
    omega
  have low : (c.proc t).sz < 2 ^ 31 := small
  cases outcome with
  | grew grows outside done size inside =>
    subst done size
    have exact : (asked (c.proc t).sz n : Int) = (c.proc t).sz + n := by omega
    have order : pgRoundUp (c.proc t).sz ≤ pgRoundUp (asked (c.proc t).sz n) := by
      unfold pgRoundUp pgSize
      omega
    refine iff_of_true ⟨fun _ => ?_, fun failed => Bool.noConfusion failed⟩ (.inl (Int.le_of_lt grows.1))
    apply after.grown exact grows.2
    · intro v user
      by_cases fresh : pgRoundUp (c.proc t).sz ≤ v ∧ v < pgRoundUp (asked (c.proc t).sz n)
      · exact iff_of_true (inside v fresh.1 fresh.2) fresh.2
      · rw [outside v fresh, mapped v user]
        omega
    · exact fun v old _ => outside v (by omega)
  | failed grows outside failed size inside =>
    subst failed size
    have user : pgRoundUp (asked (c.proc t).sz n) ≤ userPages := by
      have inside := grows.2
      rw [userPages_eq]
      unfold pgRoundUp pgSize
      unfold kernBase at inside
      omega
    refine iff_of_true ⟨fun done => Bool.noConfusion done, fun _ => ?_⟩ (.inl (Int.le_of_lt grows.1))
    constructor
    · exact after.size
    · funext v
      by_cases fresh : pgRoundUp (c.proc t).sz ≤ v ∧ v < pgRoundUp (asked (c.proc t).sz n)
      · have absent : ¬ (v < userPages ∧ (x.pte v).p = true) :=
          fun both => absurd ((mapped v both.1).mp both.2) (Nat.not_lt.mpr fresh.1)
        rw [after.empty v (inside v fresh.1 fresh.2), System.memory, System.table, occupied.table, PgDir.memory, if_neg absent]
      · exact after.kept v (outside v fresh)
    · rw [after.table]
      apply after.free (fun v high => outside v (by omega)) bound
      exact fun v _ present => outside v fun fresh => absurd present (Bool.eq_false_iff.mp (inside v fresh.1 fresh.2))
  | shrank shrinks cleared done size =>
    subst done size
    have order : pgRoundUp (asked (c.proc t).sz n) ≤ pgRoundUp (c.proc t).sz := by
      unfold pgRoundUp pgSize
      omega
    by_cases none : asked (c.proc t).sz n = 0
    · apply iff_of_false
      · intro both
        exact after.lost occupied mapped cleared none (by omega) (both.2 (by simp [none])).memory
      · unfold Askable
        omega
    · rw [if_neg none] at after
      have exact : (asked (c.proc t).sz n : Int) = (c.proc t).sz + n := by omega
      refine iff_of_true ⟨fun _ => ?_, fun failed => ?_⟩ ?_
      · apply after.grown exact (by omega)
        · intro v user
          rw [cleared, PgDir.cleared]
          by_cases old : v < pgRoundUp (c.proc t).sz
          · by_cases left : v < pgRoundUp (asked (c.proc t).sz n)
            · rw [if_neg (by omega), mapped v user]
              omega
            · rw [if_pos ⟨by omega, old, (mapped v user).mpr old⟩]
              exact iff_of_false Bool.false_ne_true left
          · rw [if_neg (by omega), mapped v user]
            omega
        · intro v _ left
          rw [cleared, PgDir.cleared, if_neg (by omega)]
      · simp [none] at failed
      · unfold Askable
        omega
  | stayed still stays same size done =>
    subst done size
    by_cases zero : n = 0
    · refine iff_of_true ⟨fun _ => ?_, fun failed => ?_⟩ (.inl (Int.le_of_eq zero.symm))
      · apply after.grown (by omega) small
        · intro v user
          rw [same]
          exact mapped v user
        · exact fun v _ _ => congrFun same v
      · simp [zero] at failed
    · have idle := after.unchanged same rfl bound
      by_cases stuck : n < 0 ∧ (c.proc t).sz ≠ 0
      · apply iff_of_false
        · intro both
          have size := (both.1 (by simp [stuck])).size
          rw [after.size] at size
          omega
        · unfold Askable
          omega
      · refine iff_of_true ⟨fun grown => ?_, fun _ => idle⟩ ?_
        · simp [zero, stuck] at grown
        · unfold Askable
          omega

omit [KernelImage] in
/-- The first process asks for a page more. -/
theorem growproc_exact_of_page :
    letI := builtImage
    ∃ c : System (Fin 2), Reach .cow (fun _ _ => True) c ∧ (c.proc 0).sz = 4096 ∧
      ∃ grown c', c.act .cow (.sbrk 0 4096) = .ok (.flag grown, c') ∧ (grown = true → GrownBy c c' 0 4096) ∧
        (grown = false → NotGrown c c' 0) := by
  let := builtImage
  obtain ⟨c, x, first⟩ : ∃ c x, First .cow (fun _ _ => True) (0 : Fin 2) [] c x :=
    first_reached .cow _ 0 (by decide) fun _ => Shared.junk
  obtain ⟨grown, c', acts, iff⟩ := growproc_exact first.sane rfl first.live first.small first.mapped (n := 4096) (by decide)
  exact ⟨c, first.reach, first.size, grown, c', acts, iff.mpr (.inl (by decide))⟩

omit [KernelImage] in
/-- The first process asks for no memory at all: `growproc` fails, and the memory is gone. -/
theorem growproc_loses_memory :
    letI := builtImage
    ∃ (c : System (Fin 2)) (c' : System (Fin 2)), Reach .cow (fun _ _ => True) c ∧ (c.proc 0).sz = 4096 ∧
      c.act .cow (.sbrk 0 (-4096)) = .ok (.flag false, c') ∧ c'.memory 0 ≠ c.memory 0 := by
  let := builtImage
  obtain ⟨c, x, first⟩ : ∃ c x, First .cow (fun _ _ => True) (0 : Fin 2) [] c x :=
    first_reached .cow _ 0 (by decide) fun _ => Shared.junk
  have size : (c.proc 0).sz = 4096 := first.size
  have none : asked (c.proc 0).sz (-4096) = 0 := by
    rw [size]
    rfl
  obtain ⟨y, x', sz', grown, c', occupied, acts, after, outcome⟩ :=
    sbrk_after first.sane rfl first.live first.mapped (n := -4096) (by decide)
  have mapped := first.mapped
  rw [System.table, occupied.table] at mapped
  cases outcome with
  | grew grows => exact absurd grows.1 (by decide)
  | failed grows => exact absurd grows.1 (by decide)
  | shrank shrinks cleared done =>
    rw [none] at done
    subst done
    exact ⟨c, c', first.reach, size, acts, after.lost occupied mapped cleared none (by omega)⟩
  | stayed _ stays => exact absurd ⟨by decide, by rw [none, size]; decide⟩ stays

end Xv6
