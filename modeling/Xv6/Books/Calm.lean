import Xv6.Books.Lifetime
import Xv6.Memory.Supply

namespace Xv6

open CommandProgram Function Ledger Discipline

variable {ι : Type} [Fintype ι] [DecidableEq ι]
variable {S : Setting ι} {s s' : Shared} {own : ι → Proc} {mark : Nat → Mark}

/-- The ghost value of a process between two operations. -/
abbrev Gh.calm (s : Shared) (mark : Nat → Mark) : Gh := .resting fun f => (s.ram f, mark f)

theorem account_calm (p : Proc) (s : Shared) (mark : Nat → Mark) : (account p (.calm s mark)).tally = p.refs := by
  funext k f
  simp [account, Gh.resting]

theorem Proc.refs_congr {p p' : Proc} (dirs : p'.dirs = p.dirs) (kpages : p'.kpages = p.kpages) : p'.refs = p.refs := by
  unfold Proc.refs
  rw [dirs, kpages]

variable [KernelImage]

namespace Setting

/-- The invariant at a moment when no operation is under way. -/
def Calm (S : Setting ι) (s : Shared) (own : ι → Proc) (mark : Nat → Mark) : Prop :=
  ∃ count, S.Inv s (fun t => (own t, .calm s mark)) count mark

omit [DecidableEq ι] in
/-- When all are at rest, what each expects in a frame can be read off the memory. -/
theorem Inv.calm {env : ι → Proc × Gh} {count : Nat → ℕ} (inv : S.Inv s env count mark)
    (rested : ∀ t, Rested (env t).2) : S.Calm s (fun t => (env t).1) mark := by
  have tally : ∀ t, (account (env t).1 (env t).2).tally = (account (env t).1 (.calm s mark)).tally := by
    intro t
    rw [account_calm]
    funext k f
    simp [account, (rested t).tok]
  have sums : ∀ k f, total (fun t => account (env t).1 (env t).2) k f =
      total (fun t => account (env t).1 (.calm s mark)) k f := by
    intro k f
    simp only [total, tally]
  refine ⟨count, ?_⟩
  constructor
  case agrees => exact inv.agrees
  case books =>
    constructor
    case nodup => exact inv.books.nodup
    case free_managed => exact inv.books.free_managed
    case free_count => exact inv.books.free_count
    case balance =>
      intro f
      have balance := inv.books.balance f
      simp only [totalHeld, sums] at balance ⊢
      exact balance
    case lag =>
      intro t f
      have lag := inv.books.lag t f
      simpa only [tally] using lag
    case alone =>
      intro t f exclusive
      have only := inv.books.alone t f (by
        simp only [tally]
        exact exclusive.imp_right fun right => right.imp_right fun claim => absurd claim id)
      simpa only [totalHeld, sums] using only
    case claimed => exact fun _ _ claim => absurd claim id
    case seen => exact fun _ _ _ => rfl
    case managed =>
      intro t f holds
      exact inv.books.managed t f (by simpa only [tally] using holds)
  case tidy =>
    intro t
    refine ⟨(inv.tidy t).bound, fun d x v at_d user present => ?_⟩
    have at_d : (env t).1.dirs d = some x := at_d
    have holds := held_of_pte (g := (env t).2) ((inv.tidy t).bound d (by simp [at_d])) at_d user present
    have marked := (inv.tidy t).mark d x v at_d user present
    rw [inv.seen_of_held (t := t) rfl holds] at marked
    exact marked

omit [DecidableEq ι] in
theorem calm_boot (S : Setting ι) (boot : Booted S.kernel s) :
    S.Calm s (fun _ => Proc.unused) (fun _ => ⟨0, false⟩) :=
  ⟨_, boot_inv S boot⟩

/-- Where `kalloc` is called there is a page, unless there may be none. -/
abbrev Supplied (S : Setting ι) (command : Cmd) (state : Shared × Proc) : Prop :=
  S.discipline.permits command state.1

theorem Calm.perform {α : Type} {program : Vm α} {post : α → Proc → Gh → Prop} (calm : S.Calm s own mark) {t : ι}
    (outline : S.Outline program (own t) (.calm s mark) post) {reached : α → Shared × Proc → Prop}
    (supplied : Program.Along (execute S.kernel) S.Supplied reached program (s, own t))
    {result : Except Halt α} {p' : Proc}
    (done : Program.run (execute S.kernel) program (s, own t) = (result, (s', p'))) :
    (∃ value gh' count' mark', result = .ok value ∧ post value p' gh' ∧
      S.Inv s' (update (fun t => (own t, .calm s mark)) t (p', gh')) count' mark') ∨
    ∃ error, result = .error error ∧ ¬ S.strict ∧ error ≠ .endless := by
  obtain ⟨count, inv⟩ := calm
  rcases outline.run (t := t) rfl ⟨count, mark, inv⟩ supplied done with ⟨value, gh', same, kept, ended⟩ | stopped
  · obtain ⟨count', mark', inv'⟩ := kept
    exact .inl ⟨value, gh', count', mark', same, ended, inv'⟩
  · exact .inr stopped

/-- While the program runs, only pages that may be had come to the free list. -/
theorem Calm.frees {α : Type} {program : Vm α} {post : α → Proc → Gh → Prop} (calm : S.Calm s own mark) {t : ι}
    (outline : S.Outline program (own t) (.calm s mark) post) {reached : α → Shared × Proc → Prop}
    (supplied : Program.Along (execute S.kernel) S.Supplied reached program (s, own t)) :
    Program.Along (execute S.kernel)
      (fun command state => ∀ f, f ∈ (execute S.kernel command state).2.1.kmem.freelist → Available f) reached program (s, own t) := by
  obtain ⟨count, inv⟩ := calm
  refine (outline.along (t := t) rfl ⟨count, mark, inv⟩ supplied).weaken fun command state kept f free => ?_
  obtain ⟨_, _, _, inv'⟩ := kept
  exact inv'.books.free_managed f free

/-- Where no operation may fail and there are pages enough, the program returns. -/
theorem Calm.succeed {α : Type} {program : Vm α} {post : α → Proc → Gh → Prop} (calm : S.Calm s own mark) {t : ι}
    (strict : S.strict) (outline : S.Outline program (own t) (.calm s mark) post)
    {reached : α → Shared × Proc → Prop}
    (stocked : Program.Along (execute S.kernel) Stocked reached program (s, own t)) :
    ∃ value s' p' gh' count' mark', Program.run (execute S.kernel) program (s, own t) = (.ok value, (s', p')) ∧
      post value p' gh' ∧ reached value (s', p') ∧
      S.Inv s' (update (fun t => (own t, .calm s mark)) t (p', gh')) count' mark' := by
  rcases done : Program.run (execute S.kernel) program (s, own t) with ⟨result, s', p'⟩
  have supplied : Program.Along (execute S.kernel) S.Supplied reached program (s, own t) :=
    stocked.weaken fun command state stock same => .inr (stock same)
  rcases calm.perform outline supplied done with ⟨value, gh', count', mark', rfl, ended, inv⟩ | ⟨_, _, lax, _⟩
  · exact ⟨value, s', p', gh', count', mark', rfl, ended, stocked.result done, inv⟩
  · exact absurd strict lax

theorem Inv.calm_update {lo : Proc} {gh : Gh} {count : Nat → ℕ} {mark' : Nat → Mark} {t : ι}
    (inv : S.Inv s' (update (fun t => (own t, .calm s mark)) t (lo, gh)) count mark') (rested : Rested gh) :
    S.Calm s' (update own t lo) mark' := by
  have calm := inv.calm fun u => by
    by_cases same : u = t
    · subst same
      simpa using rested
    · simpa [same] using Gh.resting_rested _
  have procs : (fun u => (update (fun t => (own t, Gh.calm s mark)) t (lo, gh) u).1) = update own t lo := by
    funext u
    by_cases same : u = t
    · subst same
      simp
    · simp [same]
  rwa [procs] at calm

theorem Inv.unseen {lo : Proc} {gh : Gh} {count : Nat → ℕ} {mark' : Nat → Mark} {t u : ι}
    (inv : S.Inv s' (update (fun t => (own t, .calm s mark)) t (lo, gh)) count mark') (other : u ≠ t) {f : Nat}
    (holds : Held (own u, .calm s mark) f) : s'.ram f = s.ram f ∧ mark' f = mark f := by
  have seen := inv.seen_of_held (t := u) (update_of_ne other ..) holds
  simp only [Gh.resting, Prod.mk.injEq] at seen
  exact ⟨seen.1.symm, seen.2.symm⟩

/-- What a program that ran alone leaves behind. -/
structure Change (S : Setting ι) (s : Shared) (own : ι → Proc) (mark : Nat → Mark) (t : ι) (s' : Shared) (p' : Proc)
    (gh' : Gh) (mark' : Nat → Mark) : Prop where
  calm : S.Calm s' (update own t p') mark'
  seen : ∀ f, Held (p', gh') f → gh'.seen f = (s'.ram f, mark' f)
  others : ∀ u, u ≠ t → ∀ f, Held (own u, .calm s mark) f → s'.ram f = s.ram f ∧ mark' f = mark f

theorem Calm.change {α : Type} {program : Vm α} {post : α → Proc → Gh → Prop} (calm : S.Calm s own mark) {t : ι}
    (outline : S.Outline program (own t) (.calm s mark) post) {reached : α → Shared × Proc → Prop}
    (supplied : Program.Along (execute S.kernel) S.Supplied reached program (s, own t))
    (rested : ∀ value lo gh, post value lo gh → Rested gh) {value : α} {p' : Proc}
    (done : Program.run (execute S.kernel) program (s, own t) = (.ok value, (s', p'))) :
    ∃ gh' mark', post value p' gh' ∧ S.Change s own mark t s' p' gh' mark' := by
  rcases calm.perform outline supplied done with ⟨_, gh', _, mark', same, ended, inv⟩ | ⟨_, wrong, _⟩
  · cases same
    refine ⟨gh', mark', ended, inv.calm_update (rested _ _ _ ended), fun f holds => ?_, fun u other f holds => ?_⟩
    · exact inv.seen_of_held (t := t) (update_self ..) holds
    · exact inv.unseen other holds
  · exact absurd wrong (by simp)

section

omit [DecidableEq ι]

theorem Calm.count (calm : S.Calm s own mark) (cow : S.kernel = .cow) (f : Nat) :
    s.kmem.page_rCount f = totalHeld (fun t => account (own t) (.calm s mark)) f + kpgdirCount f := by
  obtain ⟨count, inv⟩ := calm
  have agrees := inv.agrees
  rw [cow] at agrees
  have counted : Counted s.kmem.page_rCount count := agrees.1
  have balance := inv.books.balance f
  have uncounted : total (fun t => account (own t) (.calm s mark)) .uncounted f = 0 := by
    simp only [total, account_calm, ((own _).refs_books f).1, Finset.sum_const_zero]
  have dropped : total (fun t => account (own t) (.calm s mark)) .dropped f = 0 := by
    simp only [total, account_calm, ((own _).refs_books f).2, Finset.sum_const_zero]
  rw [uncounted, dropped, Nat.add_zero, Nat.add_zero] at balance
  rw [counted f]
  exact congrArg (· + kpgdirCount f) balance

theorem Calm.holder (calm : S.Calm s own mark) (cow : S.kernel = .cow) {f : Nat} (user : ¬ Kpgdir f) (counted : s.kmem.page_rCount f ≠ 0) :
    ∃ t, Held (own t, .calm s mark) f := by
  rw [calm.count cow, kpgdirCount, if_neg user, Nat.add_zero, totalHeld_eq_sum] at counted
  obtain ⟨t, -, holds⟩ := FiniteSums.exists_of_sum_pos (Nat.pos_of_ne_zero counted)
  exact ⟨t, holds⟩

theorem Calm.available (calm : S.Calm s own mark) {t : ι} {f : Nat} (holds : Held (own t, .calm s mark) f) : Available f := by
  obtain ⟨count, inv⟩ := calm
  exact inv.available_of_held (t := t) rfl holds

theorem Calm.count_held (calm : S.Calm s own mark) (cow : S.kernel = .cow) {t : ι} {f : Nat}
    (holds : Held (own t, .calm s mark) f) : s.kmem.page_rCount f = totalHeld (fun t => account (own t) (.calm s mark)) f := by
  rw [calm.count cow, (calm.available holds).count, Nat.add_zero]

theorem Calm.count_owner (calm : S.Calm s own mark) (cow : S.kernel = .cow) {t : ι} {f : Nat}
    (owned : 0 < (own t).refs .owner f) : s.kmem.page_rCount f = 1 := by
  have positive : 0 < (account (own t) (.calm s mark)).tally .owner f := by simpa only [account_calm] using owned
  rw [calm.count_held cow (held_of_tally (.inr (.inr rfl)) positive)]
  obtain ⟨count, inv⟩ := calm
  exact inv.books.alone t f (.inr (.inl positive))

/-- Being at rest does not depend on how much memory there is or on what may panic. -/
theorem Calm.transfer {S' : Setting ι} (calm : S.Calm s own mark) (kernel : S'.kernel = S.kernel)
    (family : S'.family = S.family) : S'.Calm s own mark := by
  obtain ⟨count, inv⟩ := calm
  refine ⟨count, ?_, inv.books, ?_⟩
  · rw [kernel]
    exact inv.agrees
  · rw [family]
    exact inv.tidy

theorem Calm.fields (calm : S.Calm s own mark) {own' : ι → Proc}
    (same : ∀ t, (own' t).dirs = (own t).dirs ∧ (own' t).kpages = (own t).kpages) : S.Calm s own' mark := by
  obtain ⟨count, inv⟩ := calm
  have accounts : ∀ t, account (own' t) (.calm s mark) = account (own t) (.calm s mark) := by
    intro t
    simp only [account, Proc.refs_congr (same t).1 (same t).2]
  refine ⟨count, inv.agrees, ?_, fun t => ?_⟩
  · simp only [accounts]
    exact inv.books
  · have tidy := inv.tidy t
    exact ⟨fun d => by rw [(same t).1]; exact tidy.bound d, fun d x v => by rw [(same t).1]; exact tidy.mark d x v⟩

end

theorem Calm.give (calm : S.Calm s own mark) {t u : ι} (different : t ≠ u) (related : S.family t = S.family u)
    {a b : Proc} (refs : ∀ k f, a.refs k f + b.refs k f = (own t).refs k f + (own u).refs k f)
    (tables : ∀ d x, a.dirs d = some x ∨ b.dirs d = some x → (own t).dirs d = some x ∨ (own u).dirs d = some x) :
    S.Calm s (update (update own t a) u b) mark := by
  obtain ⟨count, inv⟩ := calm
  have given := inv.give different rfl rfl (Gh.resting_rested _) (Gh.resting_rested _) related refs tables
  refine ⟨count, ?_⟩
  convert given using 2 with v
  by_cases isU : v = u
  · subst isU
    simp
  · by_cases isT : v = t
    · subst isT
      simp [isU]
    · simp [isU, isT]

theorem Calm.calm_give (calm : S.Calm s own mark) {t u : ι} (different : t ≠ u) {d : Nat} {x : PgDir}
    (at_d : (own t).dirs d = some x) (related : S.family t = S.family u := by rfl) :
    S.Calm s (update (update own t ((own t).dropDir d)) u ((own u).setDir d x)) mark := by
  obtain ⟨count, inv⟩ := calm
  have bound : d < frames := (inv.tidy t).bound d (by simp [at_d])
  have absent : (own u).dirs d = none := inv.dirs_apart different (by simp [at_d])
  apply Calm.give ⟨count, inv⟩ different related
  · intro k f
    have less := Proc.refs_without bound at_d k f
    have more := Proc.refs_with bound absent x k f
    omega
  · intro d' y
    by_cases same : d' = d
    · subst same
      simp only [Proc.dropDir, update_self, Proc.setDir_dirs, at_d, reduceCtorEq, false_or]
      exact .inl
    · simp [Proc.dropDir, same]

end Setting

/-- The circumstances of operations that cannot fail: memory suffices and nothing panics. -/
@[reducible] def sureSetting (ι : Type) (κ : Kernel) : Setting ι := ⟨κ, False, True, fun _ => false⟩

end Xv6
