import Xv6.Books.Accounts

namespace Xv6

open CommandProgram Function Ledger

namespace Gh

def gain (g : Gh) (k : Kind) (f : Nat) : Gh where
  tok := fun k' f' => g.tok k' f' + unit k f k' f'
  claim := fun _ => False
  seen := g.seen

def lose (g : Gh) (k : Kind) (f : Nat) : Gh where
  tok := fun k' f' => g.tok k' f' - unit k f k' f'
  claim := fun _ => False
  seen := g.seen

def see (g : Gh) (f : Nat) (page : Page) : Gh where
  tok := g.tok
  claim := fun _ => False
  seen := update g.seen f (page, (g.seen f).2)

theorem lose_tok {g : Gh} {k : Kind} {f : Nat} (has : 0 < g.tok k f) (k' : Kind) (f' : Nat) :
    (g.lose k f).tok k' f' + unit k f k' f' = g.tok k' f' := by
  by_cases same : k' = k ∧ f' = f
  · obtain ⟨rfl, rfl⟩ := same
    simp only [lose, unit, and_self, if_true]
    omega
  · simp [lose, unit, same]

theorem gain_lose (g : Gh) (k : Kind) (f : Nat) : ((g.gain k f).lose k f).tok = g.tok := by
  funext k' f'
  simp [gain, lose]

end Gh

variable [KernelImage] {ι : Type} [Fintype ι] [DecidableEq ι]
variable {S : Setting ι} {α : Type} {lo : Proc} {gh : Gh} {post : α → Proc → Gh → Prop}

namespace Setting

variable {s s' : Shared} {env : ι → Proc × Gh} {count count' : Nat → ℕ} {mark mark' : Nat → Mark} {t : ι}
variable {lo' : Proc} {gh' : Gh}

/-- The invariant after a step of `t`, put together from the allocator, the ledger and the tables of `t`. -/
theorem Inv.next (inv : S.Inv s env count mark) (agrees : S.kernel.Agrees s'.kmem count')
    (books : Balanced Available ⟨s'.kmem.freelist, count', fun f => (s'.ram f, mark' f)⟩
      (update (fun u => account (env u).1 (env u).2) t (account lo' gh')))
    (tidy : Tidy (S.family t) lo' gh') : S.Inv s' (update env t (lo', gh')) count' mark' where
  agrees := agrees
  books := by rwa [accounts_update]
  tidy := tidy_update inv.tidy tidy

theorem Inv.andThen {a : Proc × Gh} (inv : S.Inv s (update env t a) count mark)
    (agrees : S.kernel.Agrees s'.kmem count')
    (books : Balanced Available ⟨s'.kmem.freelist, count', fun f => (s'.ram f, mark' f)⟩
      (update (fun u => account (update env t a u).1 (update env t a u).2) t (account lo' gh')))
    (tidy : Tidy (S.family t) lo' gh') : S.Inv s' (update env t (lo', gh')) count' mark' := by
  have next := inv.next agrees books tidy
  rwa [update_idem] at next

section

omit [DecidableEq ι]

theorem Inv.own_tidy (inv : S.Inv s env count mark) (at_t : env t = (lo, gh)) : Tidy (S.family t) lo gh := by
  simpa [at_t] using inv.tidy t

theorem Inv.available_of_held (inv : S.Inv s env count mark) (at_t : env t = (lo, gh)) {f : Nat}
    (holds : Held (lo, gh) f) : Available f := by
  apply inv.books.managed t f
  simp only [at_t]
  exact holds

theorem Inv.managed_of_held (inv : S.Inv s env count mark) (at_t : env t = (lo, gh)) {f : Nat}
    (holds : Held (lo, gh) f) : Managed f := (inv.available_of_held at_t holds).1

theorem Inv.seen_of_held (inv : S.Inv s env count mark) (at_t : env t = (lo, gh)) {f : Nat}
    (holds : Held (lo, gh) f) : gh.seen f = (s.ram f, mark f) := by
  have seen := inv.books.seen t f
  simp only [at_t] at seen
  exact seen holds

/-- Nobody else refers to a frame that is owned, and neither do the tables of its owner as pages. -/
theorem Inv.owner_alone (inv : S.Inv s env count mark) (at_t : env t = (lo, gh)) {f : Nat}
    (owned : 0 < gh.tok .owner f) :
    (account lo gh).tally .owner f = 1 ∧ (account lo gh).tally .reader f = 0 ∧
      (account lo gh).tally .writer f = 0 ∧ (account lo gh).tally .uncounted f = 0 := by
  have mine : 0 < (account lo gh).tally .owner f := by
    simp only [account]
    omega
  have only := inv.books.alone t f (.inr (.inl (by simpa only [at_t] using mine)))
  have bound := held_le_total (fun u => account (env u).1 (env u).2) t f
  have lag := inv.books.lag t f
  simp only [at_t] at bound lag
  unfold held at bound
  omega

theorem Inv.tidy_with (inv : S.Inv s env count mark) (at_t : env t = (lo, gh)) (dirs : lo'.dirs = lo.dirs)
    (seen : ∀ f, (gh'.seen f).2 = (gh.seen f).2) : Tidy (S.family t) lo' gh' where
  bound := dirs ▸ (inv.own_tidy at_t).bound
  mark d x v at_d user present := by
    rw [seen]
    exact (inv.own_tidy at_t).mark d x v (dirs ▸ at_d) user present

end

end Setting

/-- To run a command, say what it answers and does and show the invariant afterwards. -/
theorem command_rule {command : Cmd} {rest : sig.Resp command → Vm α}
    (step : ∀ (s : Shared) (t : ι) (env : ι → Proc × Gh) (count : Nat → ℕ) (mark : Nat → Mark),
      env t = (lo, gh) → S.Inv s env count mark → (command = .kalloc → S.scarce ∨ s.kmem.freelist ≠ []) →
      ∃ answer s' lo' gh', execute S.kernel command (s, lo) = (answer, (s', lo')) ∧
        (∃ count' mark', S.Inv s' (update env t (lo', gh')) count' mark') ∧
        S.Outline (rest answer) lo' gh' post) :
    S.Outline (ask command >>= rest) lo gh post := by
  apply Discipline.outline_call.mpr
  rintro s t env at_t ⟨count, mark, inv⟩ permitted
  obtain ⟨answer, s', lo', gh', outcome, kept, continues⟩ := step s t env count mark at_t inv permitted
  refine ⟨gh', ?_, ?_⟩
  · show ∃ count' mark', S.Inv (execute S.kernel command (s, lo)).2.1
      (update env t ((execute S.kernel command (s, lo)).2.2, gh')) count' mark'
    rw [outcome]
    exact kept
  · show S.Outline (rest (execute S.kernel command (s, lo)).1) (execute S.kernel command (s, lo)).2.2 gh' post
    rw [outcome]
    exact continues

theorem read_rule {command : Cmd} {rest : sig.Resp command → Vm α}
    (step : ∀ (s : Shared) (t : ι) (env : ι → Proc × Gh) (count : Nat → ℕ) (mark : Nat → Mark),
      env t = (lo, gh) → S.Inv s env count mark →
      ∃ answer, execute S.kernel command (s, lo) = (answer, (s, lo)) ∧ S.Outline (rest answer) lo gh post)
    : S.Outline (ask command >>= rest) lo gh post := by
  apply command_rule
  intro s t env count mark at_t inv _
  obtain ⟨answer, outcome, continues⟩ := step s t env count mark at_t inv
  refine ⟨answer, s, lo, gh, outcome, ⟨count, mark, ?_⟩, continues⟩
  rwa [← at_t, update_eq_self]

theorem pde_rule {d i : Nat} {rest : Option Nat → Vm α}
    (continues : S.Outline (rest ((lo.dir d).pde i)) lo gh post) :
    S.Outline (ask (.pde d i) >>= rest) lo gh post :=
  read_rule fun _ _ _ _ _ _ _ => ⟨_, rfl, continues⟩

/-- Whatever a table in use shows as present is a managed frame that the process holds. -/
structure Known (a : Proc × Gh) : Prop where
  entry : ∀ {d x v}, a.1.dirs d = some x → v < userPages → (x.pte v).p = true →
    Managed (x.pte v).addr ∧ Held a (x.pte v).addr
  writer : ∀ {d x v}, a.1.dirs d = some x → v < userPages → (x.pte v).p = true → (x.pte v).w = true →
    0 < (account a.1 a.2).tally .writer (x.pte v).addr

omit [DecidableEq ι] in
theorem Setting.Inv.known {s : Shared} {env : ι → Proc × Gh} {count : Nat → ℕ} {mark : Nat → Mark} {t : ι}
    (inv : S.Inv s env count mark) (at_t : env t = (lo, gh)) : Known (lo, gh) := by
  constructor
  · intro d x v at_d user present
    have at_d : lo.dirs d = some x := at_d
    have bound := (inv.own_tidy at_t).bound d (by simp [at_d])
    have holds : Held (lo, gh) (x.pte v).addr := held_of_pte bound at_d user present
    exact ⟨inv.managed_of_held at_t holds, holds⟩
  · intro d x v at_d user present writable
    have at_d : lo.dirs d = some x := at_d
    exact tally_of_pte ((inv.own_tidy at_t).bound d (by simp [at_d])) at_d user present (by simp [writable])

/-- A program that begins with a command may rely on what follows from the invariant. -/
theorem fact_rule {command : Cmd} {next : sig.Resp command → Vm α} {fact : Prop}
    (holds : ∀ (s : Shared) (t : ι) (env : ι → Proc × Gh) (count : Nat → ℕ) (mark : Nat → Mark),
      env t = (lo, gh) → S.Inv s env count mark → fact)
    (outline : fact → S.Outline (.call command next) lo gh post) : S.Outline (.call command next) lo gh post := by
  apply Discipline.outline_call.mpr
  rintro s t env at_t ⟨count, mark, inv⟩ permitted
  have outlined := outline (holds s t env count mark at_t inv)
  exact Discipline.outline_call.mp outlined s t env at_t ⟨count, mark, inv⟩ permitted

theorem known_rule {command : Cmd} {next : sig.Resp command → Vm α}
    (outline : Known (lo, gh) → S.Outline (.call command next) lo gh post) :
    S.Outline (.call command next) lo gh post :=
  fact_rule (fun _ _ _ _ _ at_t inv => inv.known at_t) outline

theorem pte_rule {d v : Nat} {rest : Pte → Vm α}
    (continues : Known (lo, gh) → S.Outline (rest ((lo.dir d).pte v)) lo gh post) :
    S.Outline (ask (.pte d v) >>= rest) lo gh post := by
  apply read_rule
  intro s t env count mark at_t inv
  exact ⟨_, rfl, continues (inv.known at_t)⟩

/-- The command changes fields of the process that the ledger does not look at. -/
theorem field_rule {command : Cmd} {rest : sig.Resp command → Vm α} {lo' : Proc} {answer : sig.Resp command}
    (outcome : ∀ s, execute S.kernel command (s, lo) = (answer, (s, lo')))
    (dirs : lo'.dirs = lo.dirs) (kpages : lo'.kpages = lo.kpages)
    (continues : S.Outline (rest answer) lo' gh post) (noclaim : ∀ f, ¬ gh.claim f) :
    S.Outline (ask command >>= rest) lo gh post := by
  apply command_rule
  intro s t env count mark at_t inv _
  refine ⟨answer, s, lo', gh, outcome s, ⟨count, mark, inv.next inv.agrees ?_ ?_⟩, continues⟩
  · apply inv.books.exchange
    · simp only [at_t, account, Proc.refs, dirs, kpages]
    · exact fun f claim => absurd claim (noclaim f)
    · simp only [at_t, account]
  · exact inv.tidy_with at_t dirs (fun _ => rfl)

theorem kill_rule {rest : Unit → Vm α} (noclaim : ∀ f, ¬ gh.claim f)
    (continues : S.Outline (rest ()) { lo with killed := true } gh post) :
    S.Outline (ask .kill >>= rest) lo gh post :=
  field_rule (fun _ => rfl) rfl rfl continues noclaim

theorem commit_rule {pgdir sz : Nat} {rest : Unit → Vm α} (noclaim : ∀ f, ¬ gh.claim f)
    (continues : S.Outline (rest ()) { lo with pgdir := pgdir, sz := sz } gh post) :
    S.Outline (ask (.commit pgdir sz) >>= rest) lo gh post :=
  field_rule (fun _ => rfl) rfl rfl continues noclaim

/-- After `kalloc`: the frame is owned by nothing but the operation under way. -/
def Gh.take (g : Gh) (f : Nat) (c : Page × Mark) : Gh where
  tok := fun k' f' => g.tok k' f' + unit .owner f k' f'
  claim := fun _ => False
  seen := update g.seen f c

theorem kalloc_rule {rest : Option Nat → Vm α}
    (page : ∀ f c, Managed f → ¬ Held (lo, gh) f → S.Outline (rest (some f)) lo (gh.take f c) post)
    (none_left : S.scarce → S.Outline (rest none) lo gh post) :
    S.Outline (kalloc >>= rest) lo gh post := by
  apply command_rule
  intro s t env count mark at_t inv permitted
  cases free : s.kmem.freelist with
  | nil =>
    have scarce := (permitted rfl).resolve_right (by simp [free])
    refine ⟨none, s, lo, gh, by simp [execute, Shared.kalloc, free], ⟨count, mark, ?_⟩, none_left scarce⟩
    rwa [← at_t, update_eq_self]
  | cons r next =>
    have member : r ∈ s.kmem.freelist := by simp [free]
    have available : Available r := inv.books.free_managed r member
    have unheld : ¬ Held (lo, gh) r := by
      have zero := inv.books.free_zero (f := r) member t
      simp only [at_t] at zero
      simp [Held, held, zero]
    have books := inv.books.alloc (t := t) (f := r) (b := account lo (gh.take r (s.ram r, mark r)))
      free (fun k g => by simp only [at_t, account, Gh.take]; omega) (fun g => by simp [account, Gh.take])
      (fun g => by simp only [at_t, account, Gh.take, update_apply])
    have tidy : Tidy (S.family t) lo (gh.take r (s.ram r, mark r)) := by
      refine ⟨(inv.own_tidy at_t).bound, fun d x v at_d user present => ?_⟩
      have bound := (inv.own_tidy at_t).bound d (by simp [at_d])
      have holds : Held (lo, gh) (x.pte v).addr := held_of_pte bound at_d user present
      have other : (x.pte v).addr ≠ r := fun same => unheld (same ▸ holds)
      simpa [Gh.take, other] using (inv.own_tidy at_t).mark d x v at_d user present
    refine ⟨some r, (s.kalloc S.kernel).2, lo, gh.take r (s.ram r, mark r), ?_,
      ⟨update count r 1, mark, inv.next ?_ ?_ tidy⟩, page r _ available.1 unheld⟩
    · cases S.kernel <;> simp [execute, Shared.kalloc, free]
    · have agrees := inv.agrees
      cases kernel : S.kernel
      · simp only [kernel, Kernel.Agrees] at agrees ⊢
        obtain ⟨counted, length⟩ := agrees
        refine ⟨?_, by simp [Shared.kalloc, free, length]⟩
        simpa [Shared.kalloc, free] using counted.update_available available 1
      · simp only [kernel, Kernel.Agrees] at agrees ⊢
        intro f
        by_cases same : f = r
        · subst same
          simp
        · simpa [same] using agrees f
    · cases kernel : S.kernel <;> simpa [Shared.kalloc, free] using books

/-- Giving a reference back is the same in both kernels: the last one puts the frame on the free list. -/
theorem Setting.Inv.kfree {s : Shared} {env : ι → Proc × Gh} {count : Nat → ℕ} {mark : Nat → Mark} {t : ι}
    {lo' : Proc} {gh' : Gh} {f : Nat} {k : Kind} (inv : S.Inv s env count mark) (at_t : env t = (lo, gh))
    (kind : k = .reader ∨ k = .writer ∨ k = .owner) (settled : (account lo gh).tally .uncounted f = 0)
    (tally : ∀ j g, (account lo gh).tally j g = (account lo' gh').tally j g + unit k f j g)
    (noclaim : ∀ g, ¬ gh'.claim g) (seen : gh'.seen = gh.seen) (tidy : Tidy (S.family t) lo' gh') :
    ∃ count' mark', S.Inv (s.kfree S.kernel f) (update env t (lo', gh')) count' mark' := by
  have holds : 0 < held (account lo gh).tally f := by
    unfold held
    rcases kind with rfl | rfl | rfl <;> simp [tally, unit]
  have positive := inv.books.count_pos (t := t) (f := f) (by simp only [at_t]; exact holds)
  have books := inv.books.release (t := t) (f := f) (k := k) (b := account lo' gh') kind
    (by simp only [at_t]; exact settled) (by simp only [at_t]; exact tally) noclaim
    (by simp only [at_t, account, seen]) (Shared.junk, mark f)
  have agrees := inv.agrees
  have content : update (fun g => (s.ram g, mark g)) f (Shared.junk, mark f) =
      fun g => (update s.ram f Shared.junk g, mark g) := by
    funext g
    by_cases same : g = f
    · subst same
      simp
    · simp [same]
  unfold Pool.release at books
  cases kernel : S.kernel
  · simp only [kernel, Kernel.Agrees] at agrees
    obtain ⟨counted, length⟩ := agrees
    have available : Available f := inv.available_of_held at_t holds
    have same : s.kmem.page_rCount f = count f := counted.at_available available
    dsimp only at positive
    by_cases last : count f ≤ 1
    · have one : count f - 1 = 0 := by omega
      refine ⟨update count f 0, mark, inv.next ?_ ?_ tidy⟩
      · simpa [kernel, Kernel.Agrees, Shared.kfree, same, positive, one, length] using counted.update_available available 0
      · simpa [Shared.kfree, same, positive, one, last, content] using books
    · have more : count f - 1 ≠ 0 := by omega
      refine ⟨update count f (count f - 1), mark, inv.next ?_ ?_ tidy⟩
      · simpa [kernel, Kernel.Agrees, Shared.kfree, same, positive, more, length] using
          counted.update_available available (count f - 1)
      · simpa [Shared.kfree, same, positive, more, last] using books
  · simp only [kernel, Kernel.Agrees] at agrees
    refine ⟨update count f 0, mark, inv.next ?_ ?_ tidy⟩
    · simp only [kernel, Kernel.Agrees]
      intro g
      by_cases same : g = f
      · subst same
        simp
      · simpa [same] using agrees g
    · simpa [Shared.kfree, agrees f, content] using books

theorem kfree_rule {f : Nat} {rest : Unit → Vm α} (managed : Managed f) (owned : 0 < gh.tok .owner f)
    (continues : S.Outline (rest ()) lo (gh.lose .owner f) post) :
    S.Outline (kfree f >>= rest) lo gh post := by
  rw [kfree, if_pos managed]
  apply command_rule
  intro s t env count mark at_t inv _
  have alone := inv.owner_alone at_t owned
  refine ⟨(), s.kfree S.kernel f, lo, gh.lose .owner f, rfl, ?_, continues⟩
  apply inv.kfree at_t (.inr (.inr rfl)) alone.2.2.2
  · intro j g
    have token := Gh.lose_tok owned j g
    simp only [account]
    omega
  · exact fun g claim => claim
  · rfl
  · exact inv.tidy_with at_t rfl (fun _ => rfl)

theorem iRCount_rule {f : Nat} {rest : Unit → Vm α} (cow : S.kernel = .cow) (managed : Managed f)
    (uncounted : 0 < gh.tok .uncounted f)
    (continues : S.Outline (rest ()) lo (gh.lose .uncounted f) post) :
    S.Outline (iRCount f >>= rest) lo gh post := by
  rw [iRCount, if_pos managed]
  apply command_rule
  intro s t env count mark at_t inv _
  have agrees := inv.agrees
  simp only [cow, Kernel.Agrees] at agrees
  refine ⟨(), s.iRCount f, lo, gh.lose .uncounted f, rfl,
    ⟨update count f (count f + 1), mark, inv.next ?_ ?_ ?_⟩, continues⟩
  · simp only [cow, Kernel.Agrees, Shared.iRCount]
    have before := agrees.1 f
    exact ⟨agrees.1.update (by omega), agrees.2⟩
  · apply inv.books.counted
    · intro k g
      have token := Gh.lose_tok uncounted k g
      simp only [at_t, account]
      omega
    · exact fun g claim => claim
    · simp only [at_t, account, Gh.lose]
  · exact inv.tidy_with at_t rfl (fun _ => rfl)

theorem dRCount_rule {f : Nat} {rest : Unit → Vm α} (cow : S.kernel = .cow) (managed : Managed f)
    (dropped : 0 < gh.tok .dropped f) (continues : S.Outline (rest ()) lo (gh.lose .dropped f) post) :
    S.Outline (dRCount f >>= rest) lo gh post := by
  rw [dRCount, if_pos managed]
  apply command_rule
  intro s t env count mark at_t inv _
  have agrees := inv.agrees
  simp only [cow, Kernel.Agrees] at agrees
  obtain ⟨counted, length⟩ := agrees
  have positive := inv.books.count_pos_of_dropped (t := t) (f := f)
    (by simp only [at_t, account]; omega)
  have before := counted f
  dsimp only at positive
  have nonzero : s.kmem.page_rCount f ≠ 0 := by omega
  refine ⟨(), s.dRCount f, lo, gh.lose .dropped f, rfl,
    ⟨update count f (count f - 1), mark, inv.next ?_ ?_ ?_⟩, continues⟩
  · simp only [cow, Kernel.Agrees, Shared.dRCount, nonzero, if_false]
    exact ⟨counted.update (by omega), length⟩
  · apply inv.books.uncount
    · intro k g
      have token := Gh.lose_tok dropped k g
      simp only [at_t, account]
      omega
    · exact fun g claim => claim
    · simp only [at_t, account, Gh.lose]
  · exact inv.tidy_with at_t rfl (fun _ => rfl)

theorem getRCount_rule {f : Nat} {rest : Nat → Vm α} (cow : S.kernel = .cow) (managed : Managed f)
    (holds : Held (lo, gh) f) (settled : gh.tok .uncounted f = 0)
    (one : S.Outline (rest 1) lo { gh with claim := fun g => g = f } post)
    (more : ∀ n, 1 < n → S.Outline (rest n) lo { gh with claim := fun _ => False } post) :
    S.Outline (getRCount f >>= rest) lo gh post := by
  rw [getRCount, if_pos managed]
  apply command_rule
  intro s t env count mark at_t inv _
  have agrees := inv.agrees
  simp only [cow, Kernel.Agrees] at agrees
  have same : s.kmem.page_rCount f = count f := agrees.1.at_available (inv.available_of_held at_t holds)
  have holds' : 0 < held (account (env t).1 (env t).2).tally f := by
    simp only [at_t]
    exact holds
  have positive : 0 < s.kmem.page_rCount f := by
    rw [same]
    exact inv.books.count_pos (t := t) (f := f) holds'
  rcases Nat.lt_or_ge 1 (s.kmem.page_rCount f) with several | last
  · refine ⟨s.kmem.page_rCount f, s, lo, _, rfl, ⟨_, mark, inv.next inv.agrees ?_ ?_⟩, more _ several⟩
    · apply inv.books.exchange
      · simp only [at_t, account]
      · exact fun g claim => absurd claim id
      · simp only [at_t, account]
    · exact inv.tidy_with at_t rfl (fun _ => rfl)
  · have single : s.kmem.page_rCount f = 1 := by omega
    have settled' : (account (env t).1 (env t).2).tally .uncounted f = 0 := by
      simp only [at_t, account, settled, (lo.refs_books f).1]
    have only := inv.books.alone_of_count_one holds' settled' (same.symm.trans single)
    refine ⟨1, s, lo, { gh with claim := fun g => g = f }, by simp [execute, single],
      ⟨_, mark, inv.next inv.agrees ?_ ?_⟩, one⟩
    · apply inv.books.exchange
      · simp only [at_t, account]
      · intro g claim
        have same : g = f := claim
        rw [same]
        exact ⟨only, holds'⟩
      · simp only [at_t, account]
    · exact inv.tidy_with at_t rfl (fun _ => rfl)

theorem setPage_rule {command : Cmd} {f : Nat} {rest : sig.Resp command → Vm α} {answer : sig.Resp command}
    {page : Shared → Page} {after : Page}
    (outcome : ∀ s, execute S.kernel command (s, lo) = (answer, (s.setPage f (page s), lo)))
    (written : ∀ (s : Shared) (t : ι) (env : ι → Proc × Gh) (count : Nat → ℕ) (mark : Nat → Mark),
      env t = (lo, gh) → S.Inv s env count mark → page s = after)
    (exclusive : 0 < (account lo gh).tally .writer f ∨ 0 < (account lo gh).tally .owner f)
    (continues : S.Outline (rest answer) lo (gh.see f after) post) :
    S.Outline (ask command >>= rest) lo gh post := by
  apply command_rule
  intro s t env count mark at_t inv _
  have holds : Held (lo, gh) f := by
    rcases exclusive with writer | owner
    · exact held_of_tally (.inr (.inl rfl)) writer
    · exact held_of_tally (.inr (.inr rfl)) owner
  have seen := inv.seen_of_held at_t holds
  have books := inv.books.rewrite (t := t) (f := f) (b := account lo (gh.see f after)) (after, mark f)
    (by simp only [at_t]; exact exclusive) (by simp only [at_t, account, Gh.see])
    (fun g claim => claim) (by simp only [at_t, account, Gh.see, seen])
  have content : update (fun g => (s.ram g, mark g)) f (after, mark f) =
      fun g => (update s.ram f after g, mark g) := by
    funext g
    by_cases same : g = f
    · subst same
      simp
    · simp [same]
  refine ⟨answer, s.setPage f (page s), lo, gh.see f after, outcome s,
    ⟨count, mark, inv.next inv.agrees ?_ ?_⟩, continues⟩
  · rw [written s t env count mark at_t inv]
    simpa only [Shared.setPage, content] using books
  · apply inv.tidy_with at_t rfl
    intro g
    by_cases same : g = f
    · subst same
      simp [Gh.see]
    · simp [Gh.see, same]

theorem memset_rule {f : Nat} {byte : UInt8} {rest : Unit → Vm α} (owned : 0 < gh.tok .owner f)
    (continues : S.Outline (rest ()) lo (gh.see f (fun _ => byte)) post) :
    S.Outline (ask (.memset f byte) >>= rest) lo gh post :=
  setPage_rule (fun _ => rfl) (fun _ _ _ _ _ _ _ => rfl) (.inr (by simp only [account]; omega)) continues

theorem memmove_rule {dst src : Nat} {rest : Unit → Vm α} (owned : 0 < gh.tok .owner dst)
    (holds : Held (lo, gh) src) (continues : S.Outline (rest ()) lo (gh.see dst (gh.seen src).1) post) :
    S.Outline (ask (.memmove dst src) >>= rest) lo gh post := by
  refine setPage_rule (fun _ => rfl) ?_ (.inr (by simp only [account]; omega)) continues
  intro s t env count mark at_t inv
  rw [inv.seen_of_held at_t holds]

theorem store_rule {f off : Nat} {bytes : List UInt8} {rest : Unit → Vm α}
    (exclusive : 0 < (account lo gh).tally .writer f ∨ 0 < (account lo gh).tally .owner f)
    (continues : S.Outline (rest ()) lo (gh.see f ((gh.seen f).1.store off bytes)) post) :
    S.Outline (ask (.store f off bytes) >>= rest) lo gh post := by
  refine setPage_rule (fun _ => rfl) ?_ exclusive continues
  intro s t env count mark at_t inv
  have holds : Held (lo, gh) f := by
    rcases exclusive with writer | owner
    · exact held_of_tally (.inr (.inl rfl)) writer
    · exact held_of_tally (.inr (.inr rfl)) owner
  rw [inv.seen_of_held at_t holds]

end Xv6
