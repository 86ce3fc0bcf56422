import Xv6.System.Refines

namespace Xv6

open CommandProgram Function Ledger

section Views

variable {ι : Type} [DecidableEq ι] {v w w' : View ι} {a : Action ι} {answer answer' : Answer} {m m' : Cells} {sz sz' : Nat} {n : Int}

/-- `sbrk` that is not asked for size 0. -/
def Modest (sz : Nat) (n : Int) : Prop := n < 0 → asked sz n ≠ 0

theorem Regrown.unique {grown grown' : Bool} (first : Regrown False m sz n grown m' sz') {m'' : Cells} {sz'' : Nat}
    (second : Regrown False m sz n grown' m'' sz'') : grown = grown' ∧ m' = m'' ∧ sz' = sz'' := by
  cases first with
  | grew grows =>
    cases second with
    | grew _ => exact ⟨rfl, rfl, rfl⟩
    | failed _ none => exact none.elim
    | shrank shrinks => omega
    | stayed still _ => exact absurd grows still
  | failed _ none => exact none.elim
  | shrank shrinks =>
    cases second with
    | grew grows => omega
    | failed _ none => exact none.elim
    | shrank _ => exact ⟨rfl, rfl, rfl⟩
    | stayed _ stays => exact absurd shrinks stays
  | stayed still stays =>
    cases second with
    | grew grows => exact absurd grows still
    | failed _ none => exact none.elim
    | shrank shrinks => exact absurd shrinks stays
    | stayed _ _ => exact ⟨rfl, rfl, rfl⟩

/-- What the processes of a script do: they touch what user code may touch, `sbrk` leaves them a size, and they replace no
program. -/
def View.Ordinary (v : View ι) : Action ι → Prop
  | .read t va => v.Shown t va
  | .write t va _ => v.Shown t va
  | .sbrk t n => Modest (v.size t) n
  | .exec _ _ _ => False
  | _ => True

theorem Effect.unique (ordinary : v.Ordinary a) (first : Effect False v a answer w) (second : Effect False v a answer' w') :
    answer = answer' ∧ w = w' := by
  cases first with
  | forked =>
    cases second with
    | forked => exact ⟨rfl, rfl⟩
    | unforked none => exact none.elim
  | unforked none => exact none.elim
  | resized regrown =>
    cases second with
    | resized regrown' =>
      obtain ⟨rfl, rfl, rfl⟩ := regrown.unique regrown'
      exact ⟨rfl, rfl⟩
  | read shown =>
    cases second with
    | read shown' =>
      obtain rfl := congrArg Cell.page (Option.some.inj (shown.symm.trans shown'))
      exact ⟨rfl, rfl⟩
    | misread hidden => exact absurd ordinary hidden
    | readExits hidden => exact absurd ordinary hidden
  | misread hidden => exact absurd ordinary hidden
  | readExits hidden => exact absurd ordinary hidden
  | written =>
    cases second with
    | written => exact ⟨rfl, rfl⟩
    | miswritten hidden => exact absurd ordinary hidden
    | writeExits why => exact absurd ordinary (why.resolve_left id)
  | miswritten hidden => exact absurd ordinary hidden
  | writeExits why => exact absurd ordinary (why.resolve_left id)
  | replaced below guard => exact ordinary.elim
  | kept => exact ordinary.elim
  | exited other =>
    cases second with
    | exited _ => exact ⟨rfl, rfl⟩
  | reaped =>
    cases second with
    | reaped => exact ⟨rfl, rfl⟩

/-- The processes that run have all pages up to their size. -/
def View.Solid (v : View ι) : Prop := ∀ t, v.state t = .live → (v.memory t).Whole (v.size t)

theorem Cells.Whole.extended (whole : m.Whole sz) (larger : sz ≤ sz') : (m.extended (pgRoundUp sz) (pgRoundUp sz')).Whole sz' := by
  intro v
  have order : pgRoundUp sz ≤ pgRoundUp sz' := by
    unfold pgRoundUp pgSize
    omega
  unfold Cells.extended
  by_cases new : pgRoundUp sz ≤ v ∧ v < pgRoundUp sz'
  · rw [if_pos new]
    exact iff_of_true rfl new.2
  · rw [if_neg new, whole v]
    omega

theorem Cells.Whole.dropped (whole : m.Whole sz) (smaller : sz' ≤ sz) : (m.dropped (pgRoundUp sz') (pgRoundUp sz)).Whole sz' := by
  intro v
  have order : pgRoundUp sz' ≤ pgRoundUp sz := by
    unfold pgRoundUp pgSize
    omega
  unfold Cells.dropped
  by_cases gone : pgRoundUp sz' ≤ v ∧ v < pgRoundUp sz
  · rw [if_pos gone]
    exact iff_of_false (by decide) (by omega)
  · rw [if_neg gone, whole v]
    omega

theorem Cells.Whole.copied (whole : m.Whole sz) : (m.copied sz).Whole sz := by
  intro v
  unfold Cells.copied
  by_cases low : v < pgRoundUp sz
  · rw [if_pos low, whole v]
  · rw [if_neg low]
    exact iff_of_false (by decide) low

theorem Cells.Whole.written {va : Nat} {byte : UInt8} (whole : m.Whole sz) : (m.written va byte).Whole sz := by
  intro v
  unfold Cells.written
  by_cases here : v = pageOf va
  · subst here
    rw [update_self, Option.isSome_map, whole]
  · rw [update_of_ne here, whole v]

theorem Regrown.whole {grown : Bool} (regrown : Regrown False m sz n grown m' sz') (whole : m.Whole sz) (modest : Modest sz n)
    (larger : 0 < n → sz < asked sz n) : m'.Whole sz' := by
  cases regrown with
  | grew grows => exact whole.extended (Nat.le_of_lt (larger grows.1))
  | failed _ none => exact none.elim
  | shrank shrinks =>
    rw [if_neg (modest shrinks.1)]
    exact whole.dropped (Nat.le_of_lt shrinks.2)
  | stayed _ _ => exact whole

namespace View.Solid

variable {t u : ι}

theorem changed (solid : v.Solid) (whole : m.Whole sz) : (v.changed t m sz).Solid := by
  intro x live
  simp only [View.changed]
  by_cases here : x = t
  · subst here
    rw [update_self, update_self]
    exact whole
  · rw [update_of_ne here, update_of_ne here]
    exact solid x live

theorem forked (solid : v.Solid) (live : v.state t = .live) : (v.forked t u).Solid := by
  intro x live'
  simp only [View.forked] at live' ⊢
  by_cases new : x = u
  · subst new
    rw [update_self, update_self]
    exact (solid t live).copied
  · rw [update_of_ne new] at live'
    rw [update_of_ne new, update_of_ne new]
    exact solid x live'

theorem exited (solid : v.Solid) : (v.exited t).Solid := by
  intro x live
  simp only [View.exited] at live
  by_cases here : x = t
  · subst here
    rw [update_self] at live
    cases live
  · rw [update_of_ne here] at live
    exact solid x live

theorem reaped (solid : v.Solid) : (v.reaped u).Solid := by
  intro x live
  simp only [View.reaped] at live ⊢
  by_cases gone : x = u
  · subst gone
    rw [update_self] at live
    cases live
  · rw [update_of_ne gone] at live ⊢
    exact solid x live

end View.Solid

end Views

variable [KernelImage] {ι : Type} [Fintype ι] [DecidableEq ι]
variable {κ : Kernel} {c c' e e' : System ι} {s : Shared} {p : Proc} {t u : ι} {a : Action ι} {answer answer' : Answer}
variable {va : Nat} {byte : UInt8}

omit [KernelImage] [Fintype ι] in
theorem Effect.solid {w : View ι} (solid : c.view.Solid) (legal : a.Legal c) (ordinary : c.view.Ordinary a)
    (bound : ∀ t, c.state t ≠ .unused → (c.proc t).sz ≤ kernBase) (effect : Effect False c.view a answer w) : w.Solid := by
  cases effect with
  | forked => exact solid.forked legal.1
  | unforked none => exact none.elim
  | resized regrown =>
    exact solid.changed (regrown.whole (solid _ legal.1) ordinary fun grows =>
      asked_grows (bound _ (by simp [legal.1])) grows legal.2.2)
  | read shown => exact solid
  | misread hidden => exact solid
  | readExits hidden => exact solid.exited
  | written => exact solid.changed (solid _ legal.1).written
  | miswritten hidden => exact solid
  | writeExits why => exact solid.exited
  | replaced below guard => exact ordinary.elim
  | kept => exact solid
  | exited other => exact solid.exited
  | reaped => exact solid.reaped

/-- `kalloc` finds a page whenever the action calls it. -/
def Plenty (κ : Kernel) (c : System ι) (a : Action ι) : Prop :=
  Program.Along (execute κ) Stocked (fun _ _ => True) (a.program κ c) (c.shared, c.proc a.subject)

/-- What holds in either kernel between the actions of a script. -/
structure Fit (κ : Kernel) (c : System ι) : Prop where
  sane : Sane (sureSetting ι κ) c
  solid : c.view.Solid
  opened : κ = .eager → c.Opened

omit [Fintype ι] in
theorem Plenty.operation {α : Type} {f : Vm α} {g : α → Outcome}
    (program : a.program κ c = f >>= fun value => pure (g value)) (plenty : Plenty κ c a) :
    Program.Along (execute κ) Stocked (fun _ _ => True) f (c.shared, c.proc a.subject) := by
  unfold Plenty at plenty
  rw [program, Program.along_bind] at plenty
  exact plenty.mono fun _ _ _ => trivial

omit [DecidableEq ι] in
theorem sustained_of_stocked {S : Setting ι} {α : Type} {program : Vm α}
    (stocked : Program.Along (execute S.kernel) Stocked (fun _ _ => True) program (c.shared, c.proc t)) :
    Sustained S program c t :=
  stocked.weaken fun _ _ stock same => .inr (stock same)

theorem along_fault {condition : Cmd → Shared × Proc → Prop} {post : Touch → Shared × Proc → Prop}
    (refused : (p.entry va).allows true .write = false)
    (along : Program.Along (execute .cow) condition post (touchWrite .cow p.pgdir va byte) (s, p)) :
    Program.Along (execute .cow) condition (fun _ _ => True) (cowFault p.pgdir va) (s, p) := by
  have first : Program.run (execute .cow) (userWrite p.pgdir va byte) (s, p) = _ := userWrite_entry
  rw [if_neg (by rw [refused]; decide)] at first
  unfold touchWrite at along
  have later := (Program.along_bind.mp along).result first
  rw [if_neg Bool.false_ne_true] at later
  have trapped := Program.along_bind.mp later
  unfold trap at trapped
  exact (Program.along_bind.mp trapped).mono fun _ _ _ => trivial

theorem Sane.wait_runs {S : Setting ι} (sane : Sane S c) (legal : (Action.wait t u).Legal c) :
    ∃ c', c.act S.kernel (.wait t u) = .ok (.done, c') := by
  let T : Setting ι := ⟨S.kernel, False, True, S.family⟩
  have sure : Sane T c := sane.transfer rfl rfl
  obtain ⟨mark, calm⟩ := sure.calm
  obtain ⟨x, occupied⟩ := sane.occupied u (by simp [legal.2.1])
  have kept : (c.proc u).kstack ∈ (c.proc u).kpages := by
    rw [occupied.kpages]
    exact List.mem_singleton_self _
  have outline : T.Outline (wait (c.proc u).kstack (c.proc u).pgdir) (c.proc u) (.calm c.shared mark) _ :=
    wait_outline occupied.at_pgdir kept fun _ => rfl
  obtain ⟨_, s, p, _, _, _, done, -⟩ := calm.succeed trivial outline (Freeing.stocked wait_uses _)
  exact ⟨_, (act_iff wait_program).mpr ⟨(), s, p, done, rfl, rfl⟩⟩

namespace Fit

theorem acted (fit : Fit κ c) (legal : a.Legal c) (ordinary : c.view.Ordinary a) (plenty : Plenty κ c a)
    (done : c.act κ a = .ok (answer, c')) : Acted (sureSetting ι κ) c a answer c' := by
  cases a with
  | fork t u =>
    have stocked := plenty.operation (a := .fork t u) (f := fork κ (c.proc t).pgdir (c.proc t).sz) (g := .forked) rfl
    refine fork_acted fit.sane legal rfl (fun _ v low => ?_) (sustained_of_stocked stocked) done
    exact PgDir.present_of_memory ((fit.solid t legal.1 v).mpr low)
  | sbrk t n =>
    have stocked := plenty.operation (a := .sbrk t n) (f := growproc (c.proc t).pgdir (c.proc t).sz n) (g := .flag) rfl
    exact sbrk_acted fit.sane legal (fit.solid t legal.1).below (sustained_of_stocked stocked) done
  | read t va =>
    have accessible := (fit.sane.shown_iff (by simp [legal.1])).mp ordinary
    exact read_acted fit.sane legal ⟨.inl accessible, fun _ => accessible⟩ (fun refused => absurd accessible refused) done
  | write t va byte =>
    have accessible := (fit.sane.shown_iff (by simp [legal.1])).mp ordinary
    have stocked := plenty.operation (a := .write t va byte) (f := touchWrite κ (c.proc t).pgdir va byte)
      (g := .touch) rfl
    refine write_acted fit.sane legal ⟨.inl accessible, fun _ => accessible⟩ fit.opened (fun cow refused => ?_) done
    obtain rfl : κ = .cow := cow
    exact sustained_of_stocked (along_fault refused stocked)
  | exec t ip argv => exact ordinary.elim
  | exit t => exact exit_acted fit.sane legal done
  | wait t u => exact wait_acted fit.sane legal done

theorem runs (fit : Fit κ c) (legal : a.Legal c) (ordinary : c.view.Ordinary a) (plenty : Plenty κ c a) :
    (∃ answer c', c.act κ a = .ok (answer, c')) ∨ a = .exit c.initproc ∧ c.act κ a = .error (.panic "init exiting") := by
  obtain ⟨mark, calm⟩ := fit.sane.calm
  cases a with
  | fork t u =>
    have stocked := plenty.operation (a := .fork t u) (f := fork κ (c.proc t).pgdir (c.proc t).sz) (g := .forked) rfl
    obtain ⟨x, occupied⟩ := fit.sane.occupied t (by simp [legal.1])
    have outline : (sureSetting ι κ).Outline (fork κ (c.proc t).pgdir (c.proc t).sz) (c.proc t) (.calm c.shared mark) _ :=
      fork_outline occupied.at_pgdir occupied.size (fun _ claim => claim) (fun _ => rfl) fun _ v low => by
        have shown : (c.memory t v).isSome = true := (fit.solid t legal.1 v).mpr low
        rw [System.memory, System.table, occupied.table] at shown
        exact PgDir.present_of_memory shown
    obtain ⟨child, s, p, _, _, _, done, -⟩ := calm.succeed trivial outline stocked
    exact .inl ⟨_, _, (act_iff (a := .fork t u) (c := c) rfl).mpr ⟨child, s, p, done, rfl, rfl⟩⟩
  | sbrk t n =>
    have stocked := plenty.operation (a := .sbrk t n) (f := growproc (c.proc t).pgdir (c.proc t).sz n) (g := .flag) rfl
    obtain ⟨x, occupied⟩ := fit.sane.occupied t (by simp [legal.1])
    have outline : (sureSetting ι κ).Outline (growproc (c.proc t).pgdir (c.proc t).sz n) (c.proc t) (.calm c.shared mark) _ :=
      growproc_outline occupied.at_pgdir rfl rfl occupied.size legal.2.2 (fun _ claim => claim) (fun _ => rfl) fun _ v low user => by
        have table : c.memory t = x.memory c.shared := by rw [System.memory, System.table, occupied.table]
        apply Bool.eq_false_iff.mpr
        intro present
        have shown : (c.memory t v).isSome = true := by rw [table, PgDir.memory_isSome user, present]
        exact absurd ((fit.solid t legal.1 v).mp shown) (Nat.not_lt.mpr low)
    obtain ⟨grown, s, p, _, _, _, done, -⟩ := calm.succeed trivial outline stocked
    exact .inl ⟨_, _, (act_iff (a := .sbrk t n) (c := c) rfl).mpr ⟨grown, s, p, done, rfl, rfl⟩⟩
  | read t va =>
    have accessible := (fit.sane.shown_iff (by simp [legal.1])).mp ordinary
    exact .inl ⟨_, _, (act_iff (a := .read t va) (c := c) rfl).mpr ⟨_, _, _, touchRead_granted accessible, rfl, rfl⟩⟩
  | write t va byte =>
    have used : c.state t ≠ .unused := by simp [legal.1]
    have accessible := (fit.sane.shown_iff used).mp ordinary
    have written : ∃ touch s p, Program.run (execute κ) (touchWrite κ (c.proc t).pgdir va byte) (c.shared, c.proc t) =
        (.ok touch, (s, p)) := by
      cases granted : ((c.proc t).entry va).allows true .write
      · obtain rfl : κ = .cow := by
          apply Kernel.cow_of_ne
          intro eager
          rw [fit.sane.allows_write used (fit.opened eager) accessible] at granted
          cases granted
        obtain ⟨result, s', p', run, fault⟩ := cowFault_run c.shared (c.proc t) va
        obtain rfl := fault.countable.mpr (fit.sane.countable rfl used accessible)
        rw [touchWrite_retried granted run fault.pgdir]
        split
        · exact ⟨_, _, _, rfl⟩
        · split <;> exact ⟨_, _, _, rfl⟩
      · exact ⟨_, _, _, touchWrite_granted granted⟩
    obtain ⟨touch, s, p, done⟩ := written
    exact .inl ⟨_, _, (act_iff (a := .write t va byte) (c := c) rfl).mpr ⟨touch, s, p, done, rfl, rfl⟩⟩
  | exec t ip argv => exact ordinary.elim
  | exit t =>
    rw [act_exit]
    by_cases first : t = c.initproc
    · exact .inr ⟨by rw [first], if_pos first⟩
    · exact .inl ⟨_, _, if_neg first⟩
  | wait t u =>
    obtain ⟨c', done⟩ := fit.sane.wait_runs legal
    exact .inl ⟨_, _, done⟩

end Fit

/-- What the processes of a script do: they touch pages that user code may touch, do not ask `sbrk` for size 0, and replace no
program. -/
def Ordinary (c : System ι) : Action ι → Prop
  | .read t va => (c.proc t).Accessible va
  | .write t va _ => (c.proc t).Accessible va
  | .sbrk t n => Modest (c.proc t).sz n
  | .exec _ _ _ => False
  | _ => True

/-- The two kernels after the same actions, none of which finds memory short, from states in which their processes see the
same. `c` is the one with copy-on-write. -/
inductive Lockstep : System ι → System ι → Prop
  | start {c e : System ι} (fit : Fit .cow c) (fit' : Fit .eager e) (same : c.view = e.view) : Lockstep c e
  | act {c c' e e' : System ι} {a : Action ι} {answer answer' : Answer} (lock : Lockstep c e) (legal : a.Legal c)
    (ordinary : Ordinary c a) (plenty : Plenty .cow c a) (plenty' : Plenty .eager e a)
    (done : c.act .cow a = .ok (answer, c')) (done' : e.act .eager a = .ok (answer', e')) : Lockstep c' e'

omit [DecidableEq ι] in
theorem Sane.ordinary {S : Setting ι} (sane : Sane S c) (legal : a.Legal c) (ordinary : Ordinary c a) : c.view.Ordinary a := by
  cases a with
  | read t va => exact (sane.shown_iff (by simp [legal.1])).mpr ordinary
  | write t va byte => exact (sane.shown_iff (by simp [legal.1])).mpr ordinary
  | fork t u => trivial
  | sbrk t n => exact ordinary
  | exec t ip argv => exact ordinary
  | exit t => trivial
  | wait t u => trivial

omit [KernelImage] [Fintype ι] [DecidableEq ι] in
theorem Action.Legal.of_view (legal : a.Legal c) (same : c.view = e.view) : a.Legal e := by
  have state : c.state = e.state := congrArg View.state same
  have parent : c.parent = e.parent := congrArg View.parent same
  cases a <;> simpa only [Action.Legal, state, parent] using legal

namespace Fit

theorem boot {ram : Nat → Page} {init : List UInt8} {kstack : Nat}
    (done : Program.run (execute κ) (userinit init) (booted κ ram, .unused) = (.ok kstack, (s, p))) :
    Fit κ (System.first s p kstack t) ∧ (System.first s p kstack t).view = .first t init := by
  obtain ⟨sane, view, opened⟩ := first_view (t := t) done
  refine ⟨⟨sane.transfer rfl rfl, ?_, fun _ => opened⟩, view⟩
  rw [view]
  intro w live
  have here : w = t := by
    by_contra other
    have unused : update (fun _ => SlotState.unused) t .live w = .unused := update_of_ne other ..
    have live : update (fun _ => SlotState.unused) t .live w = .live := live
    rw [unused] at live
    cases live
  subst here
  simp only [View.first, update_self]
  intro v
  by_cases zero : v = 0
  · subst zero
    rw [update_self]
    exact iff_of_true rfl (by decide)
  · rw [update_of_ne zero]
    exact iff_of_false (by decide) (by unfold pgRoundUp pgSize; omega)

theorem act (fit : Fit κ c) (legal : a.Legal c) (ordinary : c.view.Ordinary a) (plenty : Plenty κ c a)
    (done : c.act κ a = .ok (answer, c')) : Fit κ c' ∧ Effect False c.view a answer c'.view := by
  have acted := fit.acted legal ordinary plenty done
  refine ⟨⟨acted.sane, acted.effect.solid fit.solid legal ordinary fun t used => ?_, fun eager => acted.opened eager (fit.opened eager)⟩,
    acted.effect⟩
  obtain ⟨x, occupied⟩ := fit.sane.occupied t used
  exact occupied.size

end Fit

theorem Lockstep.boot {ram ram' : Nat → Page} {t : ι} {init : List UInt8} {kstack kstack' : Nat} {s s' : Shared} {p p' : Proc}
    (done : Program.run (execute .cow) (userinit init) (booted .cow ram, .unused) = (.ok kstack, (s, p)))
    (done' : Program.run (execute .eager) (userinit init) (booted .eager ram', .unused) = (.ok kstack', (s', p'))) :
    Lockstep (System.first s p kstack t) (System.first s' p' kstack' t) := by
  obtain ⟨fit, view⟩ := Fit.boot (t := t) done
  obtain ⟨fit', view'⟩ := Fit.boot (t := t) done'
  exact .start fit fit' (view.trans view'.symm)

theorem Lockstep.alike (lock : Lockstep c e) : Fit .cow c ∧ Fit .eager e ∧ c.view = e.view := by
  induction lock with
  | start fit fit' same => exact ⟨fit, fit', same⟩
  | act lock legal ordinary plenty plenty' done done' ih =>
    obtain ⟨fit, fit', same⟩ := ih
    have ordinary := fit.sane.ordinary legal ordinary
    obtain ⟨next, effect⟩ := fit.act legal ordinary plenty done
    obtain ⟨next', effect'⟩ := fit'.act (legal.of_view same) (same ▸ ordinary) plenty' done'
    rw [← same] at effect'
    exact ⟨next, next', (effect.unique ordinary effect').2⟩

/-- Both kernels give the action the same answer; if they stop then both, and a read is answered with a byte. -/
structure Alike (c e : System ι) (a : Action ι) : Prop where
  answers : (c.act .cow a).map Prod.fst = (e.act .eager a).map Prod.fst
  runs : a ≠ .exit c.initproc → ∃ answer c' e', c.act .cow a = .ok (answer, c') ∧ e.act .eager a = .ok (answer, e')
  bytes : ∀ t va, a = .read t va → ∃ byte, (c.act .cow a).map Prod.fst = .ok (.touch (.byte byte))

/-- Copy-on-write cannot be told from copying at `fork`. -/
theorem cow_is_eager (lock : Lockstep c e) (legal : a.Legal c) (ordinary : Ordinary c a) (plenty : Plenty .cow c a)
    (plenty' : Plenty .eager e a) : Alike c e a := by
  obtain ⟨fit, fit', same⟩ := lock.alike
  have legal' := legal.of_view same
  have ordinary := fit.sane.ordinary legal ordinary
  have ordinary' : e.view.Ordinary a := same ▸ ordinary
  have initproc : c.initproc = e.initproc := congrArg View.initproc same
  rcases fit.runs legal ordinary plenty with ⟨answer, c', done⟩ | ⟨rfl, halted⟩
  · have effect := (fit.act legal ordinary plenty done).2
    rcases fit'.runs legal' ordinary' plenty' with ⟨answer', e', done'⟩ | ⟨rfl, -⟩
    · have effect' := (fit'.act legal' ordinary' plenty' done').2
      rw [← same] at effect'
      obtain ⟨rfl, -⟩ := effect.unique ordinary effect'
      constructor
      case answers => rw [done, done']; rfl
      case runs => exact fun _ => ⟨answer, c', e', done, done'⟩
      case bytes =>
        rintro t va rfl
        rw [done]
        generalize c'.view = w at effect
        cases effect with
        | read shown => exact ⟨_, rfl⟩
        | misread hidden => exact absurd ordinary hidden
        | readExits hidden => exact absurd ordinary hidden
    · generalize c'.view = w at effect
      cases effect with
      | exited other => exact absurd initproc.symm other
  · rcases fit'.runs legal' ordinary' plenty' with ⟨answer', e', done'⟩ | ⟨-, halted'⟩
    · have effect' := (fit'.act legal' ordinary' plenty' done').2
      generalize e'.view = w at effect'
      cases effect' with
      | exited other => exact absurd initproc other
    · refine ⟨by rw [halted, halted'], fun other => absurd rfl other, fun t va wrong => ?_⟩
      cases wrong

section Example

omit [Fintype ι] in
theorem plenty_read (accessible : (c.proc t).Accessible va) : Plenty κ c (.read t va) := by
  have program : (Action.read t va).program κ c = touchRead κ (c.proc t).pgdir va >>= fun touch => pure (.touch touch) := rfl
  unfold Plenty
  rw [program]
  show Program.Along _ _ _ _ (c.shared, c.proc t)
  apply Program.Along.bind
  unfold touchRead
  apply Program.Along.bind
  unfold userRead
  apply along_pte (stocked_of_ne (by simp))
  rw [if_pos (by simpa [Proc.Accessible, Proc.entry] using accessible)]
  exact along_ask (stocked_of_ne (by simp)) (along_pure (along_pure (along_pure trivial)))

theorem boots (κ : Kernel) (init : List UInt8) (short : init.length < pgSize) (ram : Nat → Page) :
    ∃ kstack s p, Program.run (execute κ) (userinit init) (booted κ ram, .unused) = (.ok kstack, (s, p)) ∧
      50000 ≤ s.kmem.freelist.length := by
  have calm := Setting.calm_boot (sureSetting Unit κ) (booted_booted κ ram)
  have make : (sureSetting Unit κ).Outline (userinit init) .unused (.calm (booted κ ram) fun _ => ⟨0, false⟩) _ :=
    userinit_outline id (fun _ => rfl) fun _ => short
  obtain ⟨kstack, s, p, _, _, _, done, -, room, -⟩ := calm.succeed (t := ()) trivial make (supply_userinit (userinit_stock ram κ))
  refine ⟨kstack, s, p, done, ?_⟩
  unfold Room at room
  dsimp only at room
  omega

omit [Fintype ι] in
theorem plenty_fork (κ : Kernel) (bound : (c.proc t).sz ≤ kernBase) (pages : pgRoundUp (c.proc t).sz = 1)
    (stock : 2000 ≤ c.shared.kmem.freelist.length) : Plenty κ c (.fork t u) := by
  have program : (Action.fork t u).program κ c = fork κ (c.proc t).pgdir (c.proc t).sz >>= fun child => pure (.forked child) := rfl
  unfold Plenty
  rw [program]
  apply Program.Along.bind
  cases κ with
  | cow => exact (supply_fork bound (n := 0) (by unfold npdEntries; omega)).mono fun _ _ _ => along_pure trivial
  | eager => exact (supply_fork_eager bound (n := 0) (by unfold npdEntries; omega)).mono fun _ _ _ => along_pure trivial

omit [KernelImage] in
/-- The child of a first `fork` reads its page 0 in both kernels. -/
theorem cow_is_eager_for_child :
    letI := builtImage
    ∃ c e : System (Fin 2), Lockstep c e ∧ c.state 1 = .live ∧ Alike c e (.read 1 0) := by
  let := builtImage
  obtain ⟨kstack, s, p, done, stock⟩ := boots .cow [] (by decide) fun _ => Shared.junk
  obtain ⟨kstack', s', p', done', stock'⟩ := boots .eager [] (by decide) fun _ => Shared.junk
  have lock : Lockstep _ _ := .boot (t := (0 : Fin 2)) done done'
  have view : (System.first s p kstack 0).view = .first (0 : Fin 2) [] := (Fit.boot done).2
  have view' : (System.first s' p' kstack' 0).view = .first (0 : Fin 2) [] := (Fit.boot done').2
  have size : ((System.first s p kstack (0 : Fin 2)).proc 0).sz = pgSize := congrFun (congrArg View.size view) 0
  have size' : ((System.first s' p' kstack' (0 : Fin 2)).proc 0).sz = pgSize := congrFun (congrArg View.size view') 0
  have legal : (Action.fork 0 1).Legal (System.first s p kstack (0 : Fin 2)) := ⟨rfl, rfl⟩
  have plenty : Plenty .cow (System.first s p kstack (0 : Fin 2)) (.fork 0 1) :=
    plenty_fork .cow (by rw [size]; decide) (by rw [size]; decide) (Nat.le_trans (by decide) stock)
  have plenty' : Plenty .eager (System.first s' p' kstack' (0 : Fin 2)) (.fork 0 1) :=
    plenty_fork .eager (by rw [size']; decide) (by rw [size']; decide) (Nat.le_trans (by decide) stock')
  obtain ⟨fit, fit', same⟩ := lock.alike
  obtain ⟨answer, c, forked⟩ := (fit.runs legal trivial plenty).resolve_right fun wrong => by cases wrong.1
  obtain ⟨answer', e, forked'⟩ := (fit'.runs (legal.of_view same) trivial plenty').resolve_right fun wrong => by cases wrong.1
  have later := lock.act legal trivial plenty plenty' forked forked'
  obtain ⟨next, effect⟩ := fit.act legal trivial plenty forked
  obtain ⟨next', -, same'⟩ := later.alike
  have seen : c.view = (View.first (0 : Fin 2) []).forked 0 1 := by
    rw [view] at effect
    generalize c.view = w at effect
    cases effect with
    | forked => rfl
    | unforked none => exact none.elim
  have live : c.state 1 = .live := congrFun (congrArg View.state seen) 1
  have live' : e.state 1 = .live := congrFun (congrArg View.state (same'.symm.trans seen)) 1
  have shown : c.view.Shown 1 0 := by
    rw [seen]
    refine ⟨Page.store (fun _ => 0) 0 [], ?_⟩
    have zero : pageOf 0 = 0 := by decide
    simp only [View.forked, View.first, update_self, zero]
    rw [Cells.copied, if_pos (by decide), update_self]
  have accessible := (next.sane.shown_iff (by rw [live]; decide)).mp shown
  have accessible' := (later.alike.2.1.sane.shown_iff (by rw [live']; decide)).mp (same' ▸ shown)
  exact ⟨c, e, later, live, cow_is_eager later ⟨live, by decide⟩ accessible (plenty_read accessible) (plenty_read accessible')⟩

end Example

end Xv6
