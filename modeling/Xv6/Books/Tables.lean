import Xv6.Books.Commands

namespace Xv6

open CommandProgram Function Ledger

variable {ι : Type} [Fintype ι] [DecidableEq ι]
variable {S : Setting ι} {α : Type} {lo : Proc} {gh : Gh} {post : α → Proc → Gh → Prop}
variable {d v : Nat} {x : PgDir}

theorem Proc.refs_setPte {p : Proc} (bound : d < frames) (at_d : p.dirs d = some x) (has : x.Has v)
    (user : v < userPages) (e : Pte) (k : Kind) (f : Nat) :
    (p.setDir d (x.setPte v e)).refs k f + (x.pte v).refs k f = p.refs k f + e.refs k f := by
  have table := PgDir.refs_setPte has user d e k f
  have dirs := Proc.refs_setDir bound at_d (x.setPte v e) k f
  omega

theorem Proc.setDir_self {p : Proc} (at_d : p.dirs d = some x) : p.setDir d x = p := by
  unfold Proc.setDir
  rw [← at_d, update_eq_self]

@[simp] theorem Proc.setDir_dirs (p : Proc) (d : Nat) (x : PgDir) : (p.setDir d x).dirs = update p.dirs d (some x) := rfl

@[simp] theorem Proc.setDir_setDir (p : Proc) (d : Nat) (x y : PgDir) : (p.setDir d x).setDir d y = p.setDir d y := by
  simp [Proc.setDir]

theorem Tidy.setDir {family : Bool} {x' : PgDir} {gh' : Gh} (tidy : Tidy family lo gh) (bound : d < frames)
    (others : ∀ d' y w, lo.dirs d' = some y → w < userPages → (y.pte w).p = true →
      (gh'.seen (y.pte w).addr).2 = (gh.seen (y.pte w).addr).2)
    (own : ∀ w, w < userPages → (x'.pte w).p = true → (gh'.seen (x'.pte w).addr).2 = ⟨w, family⟩) :
    Tidy family (lo.setDir d x') gh' where
  bound d' present := by
    by_cases same : d' = d
    · rwa [same]
    · exact tidy.bound d' (by simpa [same] using present)
  mark d' y w at_d' user present := by
    by_cases same : d' = d
    · subst same
      simp only [Proc.setDir_dirs, update_self, Option.some.injEq] at at_d'
      subst at_d'
      exact own w user present
    · simp only [Proc.setDir_dirs, ne_eq, same, not_false_eq_true, update_of_ne] at at_d'
      rw [others d' y w at_d' user present]
      exact tidy.mark d' y w at_d' user present

variable [KernelImage]

omit [KernelImage] in
theorem Tidy.setPte {family : Bool} {e : Pte} {gh' : Gh} (tidy : Tidy family lo gh) (at_d : lo.dirs d = some x)
    (has : x.Has v)
    (others : ∀ d' y w, lo.dirs d' = some y → w < userPages → (y.pte w).p = true →
      (gh'.seen (y.pte w).addr).2 = (gh.seen (y.pte w).addr).2)
    (own : v < userPages → e.p = true → (gh'.seen e.addr).2 = ⟨v, family⟩) :
    Tidy family (lo.setDir d (x.setPte v e)) gh' := by
  apply tidy.setDir (tidy.bound d (by simp [at_d])) others
  intro w user present
  rw [PgDir.pte_setPte has] at present ⊢
  by_cases same : w = v
  · subst same
    simp only [update_self] at present ⊢
    exact own user present
  · simp only [ne_eq, same, not_false_eq_true, update_of_ne] at present ⊢
    rw [others d x w at_d user present]
    exact tidy.mark d x w at_d user present

omit [KernelImage] in
theorem setPte_outcome {κ : Kernel} (at_d : lo.dirs d = some x) (v : Nat) (e : Pte) (s : Shared) :
    execute κ (.setPte d v e) (s, lo) = ((), (s, lo.setDir d (x.setPte v e))) := by
  simp [execute, Proc.dir_of at_d]

/-- What is written refers to the same frame in the same way, or the entry belongs to the kernel half. -/
theorem setPte_keep_rule {e : Pte} {rest : Unit → Vm α} (at_d : lo.dirs d = some x) (has : x.Has v)
    (same : v < userPages → e.refs = (x.pte v).refs) (noclaim : ∀ f, ¬ gh.claim f)
    (continues : Grows (lo, gh) (lo.setDir d (x.setPte v e), gh) →
      S.Outline (rest ()) (lo.setDir d (x.setPte v e)) gh post) :
    S.Outline (ask (.setPte d v e) >>= rest) lo gh post := by
  apply command_rule
  intro s t env count mark at_t inv _
  have tidy := inv.own_tidy at_t
  have bound := tidy.bound d (by simp [at_d])
  have tally : (account (lo.setDir d (x.setPte v e)) gh).tally = (account lo gh).tally := by
    funext k f
    simp only [account]
    rcases Nat.lt_or_ge v userPages with user | kernel
    · have refs := Proc.refs_setPte bound at_d has user e k f
      rw [same user] at refs
      omega
    · have dirs := Proc.refs_setDir bound at_d (x.setPte v e) k f
      rw [PgDir.refs_setPte_kernel has kernel] at dirs
      omega
  refine ⟨(), s, _, gh, setPte_outcome at_d v e s, ⟨count, mark, inv.next inv.agrees ?_ ?_⟩,
    continues (.of_tally noclaim tally fun _ => rfl)⟩
  · apply inv.books.exchange
    · simpa only [at_t] using tally
    · exact fun f claim => absurd claim (noclaim f)
    · simp only [at_t, account]
  · refine tidy.setPte at_d has (fun _ _ _ _ _ _ => rfl) ?_
    intro user present
    have old := Pte.of_refs_eq (same user) present
    rw [old.2]
    exact tidy.mark d x v at_d user old.1

theorem setPte_restrict_rule {e : Pte} {rest : Unit → Vm α} (at_d : lo.dirs d = some x) (has : x.Has v)
    (entry : x.pte v = e) (noclaim : ∀ f, ¬ gh.claim f)
    (continues : Grows (lo, gh) (lo.setDir d (x.setPte v { e with w := false }), gh) →
      S.Outline (rest ()) (lo.setDir d (x.setPte v { e with w := false })) gh post) :
    S.Outline (ask (.setPte d v { e with w := false }) >>= rest) lo gh post := by
  by_cases opens : v < userPages ∧ e.p = true ∧ e.w = true
  · obtain ⟨user, present, writable⟩ := opens
    apply command_rule
    intro s t env count mark at_t inv _
    have tidy := inv.own_tidy at_t
    have bound := tidy.bound d (by simp [at_d])
    have tally : ∀ k g, (account lo gh).tally k g + unit .reader e.addr k g =
        (account (lo.setDir d (x.setPte v { e with w := false })) gh).tally k g + unit .writer e.addr k g := by
      intro k g
      have refs := Proc.refs_setPte bound at_d has user { e with w := false } k g
      rw [entry, Pte.refs_present present, Pte.refs_present (by exact present)] at refs
      simp only [writable, account, if_true, Bool.false_eq_true, if_false] at refs ⊢
      omega
    refine ⟨(), s, _, gh, setPte_outcome at_d v _ s, ⟨count, mark, inv.next inv.agrees ?_ ?_⟩,
      continues (.of_held noclaim ?_ fun _ => rfl)⟩
    · apply inv.books.restrict (f := e.addr)
      · simpa only [at_t] using tally
      · exact noclaim
      · simp only [at_t, account]
    · refine tidy.setPte at_d has (fun _ _ _ _ _ _ => rfl) ?_
      intro user present
      have mark := tidy.mark d x v at_d user (by rwa [entry])
      rwa [entry] at mark
    · intro f
      have reader := tally .reader f
      have writer := tally .writer f
      have owner := tally .owner f
      unfold held
      dsimp only
      by_cases same : f = e.addr
      · simp only [unit, same, reduceCtorEq, false_and, and_self, if_true, if_false] at reader writer owner
        simp only [same]
        omega
      · simp only [unit, same, and_false, if_false] at reader writer owner
        omega
  · apply setPte_keep_rule at_d has ?_ noclaim continues
    intro user
    rw [entry]
    cases present : e.p
    · simp [Pte.refs, present]
    · have readonly : e.w = false := by simpa using fun writes => opens ⟨user, present, writes⟩
      simp [Pte.refs, present, readonly]

/-- The frame that an operation owns gets a new mark. -/
def Gh.stamp (g : Gh) (f : Nat) (m : Mark) : Gh where
  tok := g.tok
  claim := fun _ => False
  seen := update g.seen f ((g.seen f).1, m)

omit [KernelImage] in
theorem Gh.stamp_page (g : Gh) (f : Nat) (m : Mark) (h : Nat) : ((g.stamp f m).seen h).1 = (g.seen h).1 := by
  by_cases same : h = f
  · subst same
    simp [Gh.stamp]
  · simp [Gh.stamp, same]

theorem Setting.Inv.stamp {s : Shared} {env : ι → Proc × Gh} {count : Nat → ℕ} {mark : Nat → Mark} {t : ι}
    {f : Nat} (inv : S.Inv s env count mark) (at_t : env t = (lo, gh)) (owned : 0 < gh.tok .owner f) (m : Mark) :
    S.Inv s (update env t (lo, gh.stamp f m)) count (update mark f m) := by
  have alone := inv.owner_alone at_t owned
  have holds : Held (lo, gh) f := held_of_tally (k := .owner) (.inr (.inr rfl)) (by rw [alone.1]; decide)
  have seen := inv.seen_of_held at_t holds
  have books := inv.books.rewrite (t := t) (f := f) (b := account lo (gh.stamp f m)) (s.ram f, m)
    (.inr (by simp only [at_t, alone]; decide)) (by simp only [at_t, account, Gh.stamp]) (fun g claim => claim)
    (by simp only [at_t, account, Gh.stamp, seen])
  have content : update (fun g => (s.ram g, mark g)) f (s.ram f, m) = fun g => (s.ram g, update mark f m g) := by
    funext g
    by_cases same : g = f
    · subst same
      simp
    · simp [same]
  apply inv.next inv.agrees
  · simpa only [content] using books
  · refine ⟨(inv.own_tidy at_t).bound, fun d x v at_d user present => ?_⟩
    have bound := (inv.own_tidy at_t).bound d (by simp [at_d])
    have other : (x.pte v).addr ≠ f := by
      intro same
      have entry := PgDir.pte_refs_le (x := x) user d (if (x.pte v).w then .writer else .reader) f
      have dir := Proc.dir_refs_le bound at_d (if (x.pte v).w then .writer else .reader) f
      simp only [Pte.refs_present present, same, unit, and_self, if_true] at entry
      simp only [account] at alone
      cases w : (x.pte v).w <;> simp only [w, if_true, Bool.false_eq_true, if_false] at entry dir <;> omega
    simpa [Gh.stamp, other] using (inv.own_tidy at_t).mark d x v at_d user present

theorem setPte_install_rule {f : Nat} {perm : Perm} {rest : Unit → Vm α} (at_d : lo.dirs d = some x)
    (has : x.Has v) (user : v < userPages) (absent : (x.pte v).p = false) (owned : 0 < gh.tok .owner f)
    (continues : ∀ gh', gh'.tok = (gh.lose .owner f).tok → (∀ g, ¬ gh'.claim g) →
      Grows (lo, gh) (lo.setDir d (x.setPte v (.make f perm)), gh') →
      S.Outline (rest ()) (lo.setDir d (x.setPte v (.make f perm))) gh' post) :
    S.Outline (ask (.setPte d v (.make f perm)) >>= rest) lo gh post := by
  apply command_rule
  intro s t env count mark at_t inv _
  have stamped := inv.stamp at_t owned ⟨v, S.family t⟩
  have at_t' : update env t (lo, gh.stamp f ⟨v, S.family t⟩) t = (lo, gh.stamp f ⟨v, S.family t⟩) := update_self ..
  have tidy := stamped.own_tidy at_t'
  have bound := tidy.bound d (by simp [at_d])
  have tally : ∀ k g, (account lo gh).tally k g + unit (if perm.w then .writer else .reader) f k g =
      (account (lo.setDir d (x.setPte v (.make f perm))) ((gh.stamp f ⟨v, S.family t⟩).lose .owner f)).tally k g +
        unit .owner f k g := by
    intro k g
    have refs := Proc.refs_setPte bound at_d has user (.make f perm) k g
    have token := Gh.lose_tok (g := gh.stamp f ⟨v, S.family t⟩) owned k g
    rw [Pte.refs_zero absent, Pte.refs_make] at refs
    simp only [account, Gh.stamp] at refs token ⊢
    omega
  have more : ∀ g, held (account lo gh).tally g ≤
      held (account (lo.setDir d (x.setPte v (.make f perm)))
        ((gh.stamp f ⟨v, S.family t⟩).lose .owner f)).tally g := by
    intro g
    have reader := tally .reader g
    have writer := tally .writer g
    have owner := tally .owner g
    unfold held
    cases writable : perm.w
    all_goals
      simp only [writable, unit, reduceCtorEq, false_and, true_and, if_true, Bool.false_eq_true, if_false]
        at reader writer owner
      omega
  refine ⟨(), s, _, (gh.stamp f ⟨v, S.family t⟩).lose .owner f, setPte_outcome at_d v _ s,
    ⟨count, update mark f ⟨v, S.family t⟩, ?_⟩, continues _ rfl (fun _ claim => claim)
    (.of_held (fun _ claim => claim) more (Gh.stamp_page gh f _))⟩
  refine stamped.andThen stamped.agrees ?_ ?_
  · apply stamped.books.install (f := f) (k := if perm.w then .writer else .reader)
    · cases perm.w <;> simp
    · simpa only [update_self, account, Gh.stamp] using tally
    · exact fun g claim => claim
    · simp only [at_t', account, Gh.lose]
  · refine tidy.setPte at_d has (fun _ _ _ _ _ _ => rfl) ?_
    intro _ _
    simp [Pte.make, Gh.lose, Gh.stamp]

/-- A frame that is mapped read-only in one table is mapped at the same page of another. -/
theorem setPte_share_rule {f d₀ : Nat} {x₀ : PgDir} {u : Bool} {rest : Unit → Vm α}
    (at_d : lo.dirs d = some x) (has : x.Has v) (user : v < userPages) (absent : (x.pte v).p = false)
    (at_d₀ : lo.dirs d₀ = some x₀) (source : (x₀.pte v).p = true ∧ (x₀.pte v).w = false ∧ (x₀.pte v).addr = f)
    (settled : gh.tok .uncounted f = 0)
    (continues : Grows (lo, gh) (lo.setDir d (x.setPte v (.make f ⟨false, u⟩)), gh.gain .uncounted f) →
      S.Outline (rest ()) (lo.setDir d (x.setPte v (.make f ⟨false, u⟩))) (gh.gain .uncounted f) post) :
    S.Outline (ask (.setPte d v (.make f ⟨false, u⟩)) >>= rest) lo gh post := by
  obtain ⟨present, readonly, rfl⟩ := source
  apply command_rule
  intro s t env count mark at_t inv _
  have tidy := inv.own_tidy at_t
  have bound := tidy.bound d (by simp [at_d])
  have bound₀ := tidy.bound d₀ (by simp [at_d₀])
  have reads : 0 < lo.refs .reader (x₀.pte v).addr := by
    have entry := PgDir.pte_refs_le (x := x₀) user d₀ .reader (x₀.pte v).addr
    have dir := Proc.dir_refs_le bound₀ at_d₀ .reader (x₀.pte v).addr
    simp only [Pte.refs_present present, readonly, unit, and_self, Bool.false_eq_true, if_false, if_true] at entry
    omega
  have tally : ∀ k g, (account (lo.setDir d (x.setPte v (.make (x₀.pte v).addr ⟨false, u⟩)))
      (gh.gain .uncounted (x₀.pte v).addr)).tally k g = (account lo gh).tally k g +
        unit .reader (x₀.pte v).addr k g + unit .uncounted (x₀.pte v).addr k g := by
    intro k g
    have refs := Proc.refs_setPte bound at_d has user (.make (x₀.pte v).addr ⟨false, u⟩) k g
    rw [Pte.refs_zero absent, Pte.refs_make] at refs
    simp only [account, Gh.gain, Bool.false_eq_true, if_false] at refs ⊢
    omega
  refine ⟨(), s, _, gh.gain .uncounted (x₀.pte v).addr, setPte_outcome at_d v _ s,
    ⟨count, mark, inv.next inv.agrees ?_ ?_⟩, continues (.of_held (fun _ claim => claim) ?_ fun _ => rfl)⟩
  · apply inv.books.share (f := (x₀.pte v).addr)
    · simp only [at_t, account]
      omega
    · simp only [at_t, account, settled, (lo.refs_books _).1]
    · simpa only [at_t] using tally
    · exact fun g claim => claim
    · simp only [at_t, account, Gh.gain]
  · refine tidy.setPte at_d has (fun _ _ _ _ _ _ => rfl) ?_
    intro _ _
    exact tidy.mark d₀ x₀ v at_d₀ user present
  · intro g
    simp only [held, tally]
    omega

/-- The entry is opened for writing by a process that knows itself alone on the frame. -/
theorem setPte_promote_rule {e : Pte} {rest : Unit → Vm α} (at_d : lo.dirs d = some x) (has : x.Has v)
    (user : v < userPages) (entry : x.pte v = e) (present : e.p = true) (claim : gh.claim e.addr)
    (settled : gh.tok .uncounted e.addr = 0)
    (continues : S.Outline (rest ()) (lo.setDir d (x.setPte v { e with w := true }))
      { gh with claim := fun _ => False } post) :
    S.Outline (ask (.setPte d v { e with w := true }) >>= rest) lo gh post := by
  apply command_rule
  intro s t env count mark at_t inv _
  have tidy := inv.own_tidy at_t
  have bound := tidy.bound d (by simp [at_d])
  refine ⟨(), s, _, _, setPte_outcome at_d v _ s, ⟨count, mark, inv.next inv.agrees ?_ ?_⟩, continues⟩
  · have refs := Proc.refs_setPte bound at_d has user { e with w := true }
    rw [entry, Pte.refs_present present, Pte.refs_present (by exact present)] at refs
    cases writable : e.w
    · apply inv.books.promote (f := e.addr)
      · simpa only [at_t, account] using claim
      · simp only [at_t, account, settled, (lo.refs_books _).1]
      · intro k g
        have refs := refs k g
        simp only [writable, at_t, account, if_true, Bool.false_eq_true, if_false] at refs ⊢
        omega
      · exact fun g claim => claim
      · simp only [at_t, account]
    · apply inv.books.exchange
      · simp only [at_t, account]
        funext k g
        have refs := refs k g
        simp only [writable, if_true] at refs
        omega
      · exact fun g claim => absurd claim id
      · simp only [at_t, account]
  · refine tidy.setPte at_d has (fun _ _ _ _ _ _ => rfl) ?_
    intro _ _
    have mark := tidy.mark d x v at_d user (by rwa [entry])
    rwa [entry] at mark

/-- The entry leads to a frame of the operation's own instead; the count of the old one stays behind. -/
theorem setPte_replace_rule {e : Pte} {m : Nat} {rest : Unit → Vm α} (at_d : lo.dirs d = some x)
    (has : x.Has v) (user : v < userPages) (entry : x.pte v = e) (present : e.p = true)
    (owned : 0 < gh.tok .owner m) (settled : gh.tok .uncounted e.addr = 0)
    (continues : ∀ gh', gh'.tok = ((gh.lose .owner m).gain .dropped e.addr).tok → (∀ g, ¬ gh'.claim g) →
      (∀ g, (gh'.seen g).1 = (gh.seen g).1) →
      S.Outline (rest ()) (lo.setDir d (x.setPte v (.make m permWU))) gh' post) :
    S.Outline (ask (.setPte d v (.make m permWU)) >>= rest) lo gh post := by
  apply command_rule
  intro s t env count mark at_t inv _
  have stamped := inv.stamp at_t owned ⟨v, S.family t⟩
  have at_t' : update env t (lo, gh.stamp m ⟨v, S.family t⟩) t = (lo, gh.stamp m ⟨v, S.family t⟩) := update_self ..
  have tidy := stamped.own_tidy at_t'
  have bound := tidy.bound d (by simp [at_d])
  refine ⟨(), s, _, ((gh.stamp m ⟨v, S.family t⟩).lose .owner m).gain .dropped e.addr, setPte_outcome at_d v _ s,
    ⟨count, update mark m ⟨v, S.family t⟩, ?_⟩, continues _ rfl (fun _ claim => claim) (Gh.stamp_page gh m _)⟩
  refine stamped.andThen stamped.agrees ?_ ?_
  · apply stamped.books.replace (f := e.addr) (m := m) (k := if e.w then .writer else .reader)
    · cases e.w <;> simp
    · simp only [update_self, account, Gh.stamp, settled, (lo.refs_books _).1]
    · intro k g
      have refs := Proc.refs_setPte bound at_d has user (.make m permWU) k g
      have token := Gh.lose_tok (g := gh.stamp m ⟨v, S.family t⟩) owned k g
      rw [entry, Pte.refs_present present, Pte.refs_make] at refs
      simp only [at_t', account, Gh.gain, permWU, if_true] at refs ⊢
      omega
    · exact fun g claim => claim
    · simp only [at_t', account, Gh.lose, Gh.gain]
  · refine tidy.setPte at_d has (fun _ _ _ _ _ _ => rfl) ?_
    intro _ _
    simp [Pte.make, Gh.lose, Gh.gain, Gh.stamp]

theorem freePte_rule {e : Pte} {rest : Unit → Vm α} (at_d : lo.dirs d = some x) (has : x.Has v)
    (user : v < userPages) (entry : x.pte v = e) (present : e.p = true) (settled : gh.tok .uncounted e.addr = 0)
    (continues : S.Outline (rest ()) (lo.setDir d (x.setPte v .zero)) { gh with claim := fun _ => False } post) :
    S.Outline (ask (.freePte d v e.addr) >>= rest) lo gh post := by
  apply command_rule
  intro s t env count mark at_t inv _
  have tidy := inv.own_tidy at_t
  have bound := tidy.bound d (by simp [at_d])
  refine ⟨(), s.kfree S.kernel e.addr, lo.setDir d (x.setPte v .zero), { gh with claim := fun _ => False }, ?_,
    ?_, continues⟩
  · simp [execute, Proc.dir_of at_d]
  · apply inv.kfree at_t (k := if e.w then .writer else .reader)
    · cases e.w <;> simp
    · simp only [account, settled, (lo.refs_books _).1]
    · intro k g
      have refs := Proc.refs_setPte bound at_d has user .zero k g
      rw [entry, Pte.refs_present present, Pte.refs_zero rfl] at refs
      simp only [account]
      omega
    · exact fun g claim => claim
    · rfl
    · refine tidy.setPte at_d has (fun _ _ _ _ _ _ => rfl) ?_
      intro _ present
      exact absurd present (by decide)

theorem setPde_rule {i pa : Nat} {rest : Unit → Vm α} (at_d : lo.dirs d = some x) (absent : x.pde i = none)
    (entry : i < npdEntries) (owned : 0 < gh.tok .owner pa)
    (continues : Grows (lo, gh) (lo.setDir d (x.setPde i pa), gh.lose .owner pa) →
      S.Outline (rest ()) (lo.setDir d (x.setPde i pa)) (gh.lose .owner pa) post) :
    S.Outline (ask (.setPde d i pa) >>= rest) lo gh post := by
  apply command_rule
  intro s t env count mark at_t inv _
  have tidy := inv.own_tidy at_t
  have bound := tidy.bound d (by simp [at_d])
  have tally : (account (lo.setDir d (x.setPde i pa)) (gh.lose .owner pa)).tally = (account lo gh).tally := by
    funext k f
    have dirs := Proc.refs_setDir bound at_d (x.setPde i pa) k f
    have table := PgDir.refs_setPde absent entry d pa k f
    have token := Gh.lose_tok owned k f
    simp only [account]
    omega
  refine ⟨(), s, lo.setDir d (x.setPde i pa), gh.lose .owner pa, by simp [execute, Proc.dir_of at_d],
    ⟨count, mark, inv.next inv.agrees ?_ ?_⟩, continues (.of_tally (fun _ claim => claim) tally fun _ => rfl)⟩
  · apply inv.books.exchange
    · simpa only [at_t] using tally
    · exact fun f claim => absurd claim id
    · simp only [at_t, account, Gh.lose]
  · refine tidy.setDir bound (fun _ _ _ _ _ _ => rfl) ?_
    intro w user present
    rw [PgDir.pte_setPde absent] at present ⊢
    exact tidy.mark d x w at_d user present

theorem newPgdir_rule {rest : Unit → Vm α} (managed : Managed d) (owned : 0 < gh.tok .owner d)
    (continues : lo.dirs d = none → Grows (lo, gh) (lo.setDir d .empty, gh.lose .owner d) →
      S.Outline (rest ()) (lo.setDir d .empty) (gh.lose .owner d) post) :
    S.Outline (ask (.newPgdir d) >>= rest) lo gh post := by
  apply command_rule
  intro s t env count mark at_t inv _
  have tidy := inv.own_tidy at_t
  have absent : lo.dirs d = none := by
    cases at_d : lo.dirs d with
    | none => rfl
    | some x =>
      have alone := inv.owner_alone at_t owned
      have dir := Proc.dir_refs_le managed.lt_frames at_d .owner d
      simp only [PgDir.refs, unit, and_self, if_true] at dir
      simp only [account] at alone
      omega
  have tally : (account (lo.setDir d .empty) (gh.lose .owner d)).tally = (account lo gh).tally := by
    funext k f
    have dirs := lo.refs_update managed.lt_frames (some .empty) k f
    have token := Gh.lose_tok owned k f
    simp only [absent, dirRefs, PgDir.refs_empty] at dirs
    simp only [account, Proc.setDir]
    omega
  refine ⟨(), s, lo.setDir d .empty, gh.lose .owner d, rfl, ⟨count, mark, inv.next inv.agrees ?_ ?_⟩,
    continues absent (.of_tally (fun _ claim => claim) tally fun _ => rfl)⟩
  · apply inv.books.exchange
    · simpa only [at_t] using tally
    · exact fun f claim => absurd claim id
    · simp only [at_t, account, Gh.lose]
  · refine tidy.setDir managed.lt_frames (fun _ _ _ _ _ _ => rfl) ?_
    intro w user present
    exact absurd present (by simp [Pte.zero])

def listRefs : List (Option Nat) → Tally Nat
  | [] => fun _ _ => 0
  | o :: rest => fun k f => pdeRefs o k f + listRefs rest k f

omit [KernelImage] in
theorem listRefs_range (entry : Nat → Option Nat) (n : Nat) (k : Kind) (f : Nat) :
    listRefs ((List.range n).map entry) k f = ∑ i ∈ Finset.range n, pdeRefs (entry i) k f := by
  have append : ∀ l o, listRefs (l ++ [o]) k f = listRefs l k f + pdeRefs o k f := by
    intro l o
    induction l with
    | nil => simp [listRefs]
    | cons head tail ih =>
      simp only [List.cons_append, listRefs, ih]
      omega
  induction n with
  | zero => rfl
  | succ n ih =>
    rw [List.range_succ, List.map_append, List.map_singleton, append, ih, Finset.sum_range_succ]

/-- The ghost value once the directory `d` with these entries is in no table any more. -/
def Gh.retire (g : Gh) (d : Nat) (pdes : List (Option Nat)) : Gh where
  tok := fun k f => g.tok k f + unit .owner d k f + listRefs pdes k f
  claim := fun _ => False
  seen := g.seen

theorem retire_rule {rest : List (Option Nat) → Vm α} (at_d : lo.dirs d = some x)
    (unmapped : ∀ w, w < userPages → (x.pte w).p = false)
    (continues : Managed d → (∀ pa, some pa ∈ (List.range npdEntries).map x.pde → Managed pa) →
      S.Outline (rest ((List.range npdEntries).map x.pde)) (lo.dropDir d)
        (gh.retire d ((List.range npdEntries).map x.pde)) post) :
    S.Outline (ask (.retire d) >>= rest) lo gh post := by
  apply command_rule
  intro s t env count mark at_t inv _
  have tidy := inv.own_tidy at_t
  have bound := tidy.bound d (by simp [at_d])
  have owned : ∀ f, 0 < x.refs d .owner f → Managed f := by
    intro f positive
    have dir := Proc.dir_refs_le bound at_d .owner f
    apply inv.managed_of_held at_t (held_of_tally (k := .owner) (.inr (.inr rfl)) ?_)
    simp only [account]
    omega
  have directory : Managed d := owned d (by simp [PgDir.refs, unit])
  have entries : ∀ pa, some pa ∈ (List.range npdEntries).map x.pde → Managed pa := by
    intro pa member
    obtain ⟨i, inside, entry⟩ := List.mem_map.mp member
    have term := FiniteSums.term_le_sum (fun i => pdeRefs (x.pde i) .owner pa)
      (Finset.mem_range.mpr (List.mem_range.mp inside))
    have own : pdeRefs (x.pde i) .owner pa = 1 := by simp [entry, pdeRefs, unit]
    apply owned
    unfold PgDir.refs
    omega
  refine ⟨_, s, lo.dropDir d, gh.retire d ((List.range npdEntries).map x.pde),
    by simp [execute, Proc.dir_of at_d], ⟨count, mark, inv.next inv.agrees ?_ ?_⟩, continues directory entries⟩
  · apply inv.books.exchange
    · simp only [at_t, account]
      funext k f
      have dirs := lo.refs_update bound none k f
      have pages : ∑ w ∈ Finset.range userPages, (x.pte w).refs k f = 0 :=
        Finset.sum_eq_zero fun w inside => Pte.refs_zero (unmapped w (Finset.mem_range.mp inside)) k f
      simp only [at_d, dirRefs, PgDir.refs, pages] at dirs
      simp only [Gh.retire, Proc.dropDir, listRefs_range]
      omega
    · exact fun f claim => absurd claim id
    · simp only [at_t, account, Gh.retire]
  · constructor
    · intro d' present
      apply tidy.bound
      by_cases same : d' = d
      · simp [Proc.dropDir, same] at present
      · simpa [Proc.dropDir, same] using present
    · intro d' y w at_d' user present
      by_cases same : d' = d
      · simp [Proc.dropDir, same] at at_d'
      · exact tidy.mark d' y w (by simpa [Proc.dropDir, same] using at_d') user present

theorem keep_rule {f : Nat} {rest : Unit → Vm α} (owned : 0 < gh.tok .owner f)
    (continues : Grows (lo, gh) ({ lo with kpages := f :: lo.kpages }, gh.lose .owner f) →
      S.Outline (rest ()) { lo with kpages := f :: lo.kpages } (gh.lose .owner f) post) :
    S.Outline (ask (.keep f) >>= rest) lo gh post := by
  apply command_rule
  intro s t env count mark at_t inv _
  have tally : (account { lo with kpages := f :: lo.kpages } (gh.lose .owner f)).tally =
      (account lo gh).tally := by
    funext k g
    have token := Gh.lose_tok owned k g
    simp only [account, Proc.refs, List.count_cons, unit] at token ⊢
    by_cases owner : k = .owner
    · by_cases same : g = f
      · simp only [owner, same, beq_self_eq_true, and_self, if_true] at token ⊢
        omega
      · simp only [owner, same, Ne.symm same, beq_iff_eq, and_false, if_true, if_false] at token ⊢
        omega
    · simp only [owner, false_and, if_false] at token ⊢
      omega
  refine ⟨(), s, _, gh.lose .owner f, rfl, ⟨count, mark, inv.next inv.agrees ?_ ?_⟩,
    continues (.of_tally (fun _ claim => claim) tally fun _ => rfl)⟩
  · apply inv.books.exchange
    · simpa only [at_t] using tally
    · exact fun f claim => absurd claim id
    · simp only [at_t, account, Gh.lose]
  · exact inv.tidy_with at_t rfl (fun _ => rfl)

theorem unkeep_rule {f : Nat} {rest : Unit → Vm α} (kept : f ∈ lo.kpages)
    (continues : Managed f →
      S.Outline (rest ()) { lo with kpages := lo.kpages.erase f } (gh.gain .owner f) post) :
    S.Outline (ask (.unkeep f) >>= rest) lo gh post := by
  apply command_rule
  intro s t env count mark at_t inv _
  have positive : 0 < lo.kpages.count f := List.count_pos_iff.mpr kept
  have managed : Managed f := by
    apply inv.managed_of_held at_t (held_of_tally (k := .owner) (.inr (.inr rfl)) ?_)
    simp only [account, Proc.refs, if_true]
    omega
  refine ⟨(), s, _, gh.gain .owner f, rfl, ⟨count, mark, inv.next inv.agrees ?_ ?_⟩, continues managed⟩
  · apply inv.books.exchange
    · simp only [at_t, account]
      funext k g
      simp only [Proc.refs, Gh.gain, List.count_erase, unit]
      by_cases owner : k = .owner
      · by_cases same : g = f
        · simp only [owner, same, beq_self_eq_true, and_self, if_true]
          omega
        · simp only [owner, same, beq_iff_eq, and_false, if_true, if_false, Ne.symm same]
          omega
      · simp only [owner, false_and, if_false]
        omega
    · exact fun f claim => absurd claim id
    · simp only [at_t, account, Gh.gain]
  · exact inv.tidy_with at_t rfl (fun _ => rfl)

end Xv6
