import Xv6.System.Effects

namespace Xv6

open CommandProgram Function Ledger

/-- All tables are open: what user code may read it may write. -/
def System.Opened {ι : Type} (c : System ι) : Prop := ∀ t, (c.table t).Opened

variable [KernelImage] {ι : Type} [Fintype ι] [DecidableEq ι]
variable {S : Setting ι} {c c' : System ι} {s s' : Shared} {p p' : Proc} {t u : ι} {x : PgDir} {answer : Answer}

/-- The kernel has done what the abstract machine does. -/
structure Acted (S : Setting ι) (c : System ι) (a : Action ι) (answer : Answer) (c' : System ι) : Prop where
  sane : Sane S c'
  effect : Effect S.scarce c.view a answer c'.view
  opened : S.kernel = .eager → c.Opened → c'.Opened

section

omit [DecidableEq ι]

theorem Sane.memory_vacant (sane : Sane S c) (unused : c.state t = .unused) : c.memory t = fun _ => none := by
  funext v
  rw [System.memory, System.table, (sane.vacant t unused).table]
  exact PgDir.memory_absent (by rw [PgDir.pte_empty]; rfl)

theorem Sane.memory_accessible (sane : Sane S c) (used : c.state t ≠ .unused) {va : Nat} (accessible : (c.proc t).Accessible va) :
    c.memory t (pageOf va) = some ⟨c.shared.ram ((c.proc t).entry va).addr, true⟩ := by
  obtain ⟨x, occupied⟩ := sane.occupied t used
  have user := occupied.accessible_user accessible
  obtain ⟨present, privilege⟩ := accessible
  rw [occupied.entry_eq] at present privilege ⊢
  rw [System.memory, System.table, occupied.table, PgDir.memory, if_pos ⟨user, present⟩, privilege]

theorem Sane.shown_iff (sane : Sane S c) (used : c.state t ≠ .unused) {va : Nat} :
    c.view.Shown t va ↔ (c.proc t).Accessible va := by
  constructor
  · rintro ⟨page, shown⟩
    obtain ⟨x, occupied⟩ := sane.occupied t used
    have shown : c.memory t (pageOf va) = some ⟨page, true⟩ := shown
    rw [System.memory, System.table, occupied.table, PgDir.memory] at shown
    rw [Proc.Accessible, occupied.entry_eq]
    split at shown
    · rename_i mapped
      exact ⟨mapped.2, congrArg Cell.user (Option.some.inj shown)⟩
    · cases shown
  · exact fun accessible => ⟨_, sane.memory_accessible used accessible⟩

end

theorem Leaves.view {m : Cells} {sz : Nat} (leaves : Leaves S c t s p m sz) : (c.ran t s p).view = c.view.changed t m sz := by
  have size : (fun w => (update c.proc t p w).sz) = update (fun w => (c.proc w).sz) t sz := by
    funext w
    by_cases here : w = t
    · subst here
      rw [update_self, update_self, leaves.size]
    · rw [update_of_ne here, update_of_ne here]
  exact View.ext leaves.memory size rfl rfl rfl

theorem Leaves.all_opened {m : Cells} {sz : Nat} (leaves : Leaves S c t s p m sz) (eager : S.kernel = .eager) (opened : c.Opened) :
    (c.ran t s p).Opened := by
  intro w
  by_cases here : w = t
  · subst here
    simp only [System.table, update_self]
    exact leaves.opened eager (opened w)
  · simp only [System.table, update_of_ne here]
    exact opened w

omit [KernelImage] [Fintype ι] in
theorem View.changed_same {v : View ι} : v.changed t (v.memory t) (v.size t) = v := by
  simp only [View.changed, update_eq_self]

theorem Leaves.view_same (leaves : Leaves S c t s p (c.memory t) (c.proc t).sz) : (c.ran t s p).view = c.view :=
  leaves.view.trans View.changed_same

section Boot

variable {ram : Nat → Page} {init : List UInt8} {kstack : Nat} {κ : Kernel}

/-- There is memory enough, and an operation may panic. -/
@[reducible] def bootSetting (ι : Type) (κ : Kernel) : Setting ι := ⟨κ, False, False, fun _ => false⟩

theorem first_view (done : Program.run (execute κ) (userinit init) (booted κ ram, .unused) = (.ok kstack, (s, p))) :
    Sane (bootSetting ι κ) (System.first s p kstack t) ∧ (System.first s p kstack t).view = .first t init ∧
      (System.first s p kstack t).Opened := by
  obtain ⟨sane, x, occupied, image⟩ := first_sane (S := bootSetting ι κ) (t := t) id (fun strict => absurd strict id) done
  have calm := Setting.calm_boot (bootSetting ι κ) (booted_booted κ ram)
  have make : (bootSetting ι κ).Outline (userinit init) .unused (.calm (booted κ ram) fun _ => ⟨0, false⟩) _ :=
    userinit_outline id (fun _ => rfl) fun strict => absurd strict id
  have stocked : Program.Along (execute κ) Stocked _ (userinit init) (_, Proc.unused) := supply_userinit (userinit_stock ram κ)
  obtain ⟨_, _, ⟨_, _, _, _, _, _, own⟩, _⟩ := calm.change (t := t) make
    (stocked.weaken fun command state stock same => .inr (stock same)) (fun _ _ _ post => ⟨post.1, post.2.1⟩) done
  have at_t : (System.first s p kstack t).proc t = { p with kstack := kstack } := by
    show update (fun _ : ι => Proc.unused) t _ t = _
    exact update_self ..
  have others : ∀ w, w ≠ t → (System.first s p kstack t).proc w = .unused := by
    intro w other
    show update (fun _ : ι => Proc.unused) t _ w = _
    exact update_of_ne other ..
  have vacant : Vacant .unused := ⟨rfl, rfl⟩
  refine ⟨sane, View.ext (funext fun w => ?_) (funext fun w => ?_) rfl rfl rfl, fun w v user present privilege => ?_⟩
  · show (System.first s p kstack t).memory w = update (fun _ _ => none) t _ w
    rw [System.memory, System.table]
    by_cases first : w = t
    · subst first
      rw [at_t, occupied.table, update_self]
      funext v
      rw [PgDir.memory]
      by_cases zero : v = 0
      · subst zero
        rw [if_pos ⟨by decide, image.present⟩, image.unprivileged, update_self]
        exact congrArg (fun page => some (Cell.mk page true)) image.page
      · rw [update_of_ne zero, if_neg]
        rintro ⟨user, present⟩
        rw [image.rest v zero, kmapPte_user user] at present
        cases present
    · rw [others w first, vacant.table, update_of_ne first]
      funext v
      exact PgDir.memory_absent (by rw [PgDir.pte_empty]; rfl)
  · show ((System.first s p kstack t).proc w).sz = update (fun _ => 0) t pgSize w
    by_cases first : w = t
    · subst first
      rw [at_t, update_self, own]
    · rw [others w first, update_of_ne first]
      rfl
  · rw [System.table] at present privilege ⊢
    by_cases first : w = t
    · subst first
      rw [at_t, occupied.table] at present ⊢
      by_cases zero : v = 0
      · subst zero
        exact image.writable
      · rw [image.rest v zero, kmapPte_user user] at present
        cases present
    · rw [others w first, vacant.table, PgDir.pte_empty] at present
      cases present

end Boot

omit [KernelImage] in
theorem PgDir.entry_of_memory {y : PgDir} {v : Nat} (same : y.memory s' v = x.memory s v) (user : v < userPages)
    (present : (y.pte v).p = true) : (x.pte v).p = true ∧ (y.pte v).u = (x.pte v).u := by
  rw [PgDir.memory, PgDir.memory, if_pos ⟨user, present⟩] at same
  split at same
  · rename_i mapped
    exact ⟨mapped.2, congrArg Cell.user (Option.some.inj same)⟩
  · cases same

omit [KernelImage] in
theorem PgDir.Opened.of_entries {y : PgDir} (opened : x.Opened) (entries : ∀ v, v < userPages → (y.pte v).p = true →
    (x.pte v).p = true ∧ (y.pte v).u = (x.pte v).u ∧ (y.pte v).w = (x.pte v).w) : y.Opened := by
  intro v user present privilege
  obtain ⟨source, privileges, writes⟩ := entries v user present
  rw [writes]
  exact opened v user source (privileges ▸ privilege)

theorem fork_acted (sane : Sane S c) (legal : (Action.fork t u).Legal c) (related : S.family t = S.family u)
    (present : S.strict → ∀ v, v < pgRoundUp (c.proc t).sz → ((c.table t).pte v).p = true)
    (supplied : Sustained S (fork S.kernel (c.proc t).pgdir (c.proc t).sz) c t)
    (done : c.act S.kernel (.fork t u) = .ok (answer, c')) : Acted S c (.fork t u) answer c' := by
  obtain ⟨child, s, p, run, rfl, rfl⟩ := (act_iff (a := .fork t u) (c := c) rfl).mp done
  have after := fork_after sane legal related present supplied run
  have vacant := sane.memory_vacant legal.2
  have memory : ∀ {m : Cells}, (c.settle (.fork t u) (.forked child) s p).memory u = m →
      (c.settle (.fork t u) (.forked child) s p).memory = update c.memory u m := by
    intro m here
    funext w
    by_cases new : w = u
    · subst new
      rw [update_self, here]
    · rw [update_of_ne new, after.memory w new]
  have size : ∀ {sz : Nat}, ((c.settle (.fork t u) (.forked child) s p).proc u).sz = sz →
      (fun w => ((c.settle (.fork t u) (.forked child) s p).proc w).sz) = update (fun w => (c.proc w).sz) u sz := by
    intro sz here
    funext w
    by_cases new : w = u
    · subst new
      rw [update_self, here]
    · rw [update_of_ne new, after.size w new]
  have others : S.kernel = .eager → c.Opened → ∀ w, w ≠ u → ((c.settle (.fork t u) (.forked child) s p).table w).Opened := by
    intro eager opened w other
    by_cases here : w = t
    · subst here
      refine (opened w).of_entries fun v _ present => ?_
      rcases after.parent v with same | ⟨cow, -⟩
      · rw [← same]
        exact ⟨present, rfl, rfl⟩
      · rw [eager] at cow
        cases cow
    · rw [System.table, after.others w here other]
      exact opened w
  have outcome := after.child
  cases child with
  | none =>
    obtain ⟨scarce, state, parent, same⟩ := outcome
    have unused : (c.settle (.fork t u) (.forked none) s p).state u = .unused := by rw [state, legal.2]
    have view : (c.settle (.fork t u) (.forked none) s p).view = c.view := by
      refine View.ext ?_ ?_ state parent rfl
      · exact (memory (after.sane.memory_vacant unused)).trans (by rw [← vacant, update_eq_self])
      · exact (size (congrArg Proc.sz same)).trans (update_eq_self u _)
    refine ⟨after.sane, ?_, fun eager opened w => ?_⟩
    · rw [view]
      exact .unforked scarce
    · by_cases new : w = u
      · subst new
        rw [System.table, same]
        exact opened w
      · exact others eager opened w new
  | some made =>
    obtain ⟨state, parent, inherited, copies, tables⟩ := outcome
    have view : (c.settle (.fork t u) (.forked (some made)) s p).view = c.view.forked t u :=
      View.ext (memory (funext copies)) (size inherited) state parent rfl
    refine ⟨after.sane, ?_, fun eager opened w => ?_⟩
    · rw [view]
      exact .forked
    · by_cases new : w = u
      · subst new
        refine (opened t).of_entries fun v user present => ?_
        have copy := copies v
        by_cases low : v < pgRoundUp (c.proc t).sz
        · rw [if_pos low] at copy
          obtain ⟨source, privilege⟩ := PgDir.entry_of_memory copy user present
          exact ⟨source, privilege, (tables v low).1 eager⟩
        · rw [if_neg low, System.memory, PgDir.memory, if_pos ⟨user, present⟩] at copy
          cases copy
      · exact others eager opened w new

theorem sbrk_acted {n : Int} (sane : Sane S c) (legal : (Action.sbrk t n).Legal c)
    (below : Cells.Below (c.memory t) (c.proc t).sz) (supplied : Sustained S (growproc (c.proc t).pgdir (c.proc t).sz n) c t)
    (done : c.act S.kernel (.sbrk t n) = .ok (answer, c')) : Acted S c (.sbrk t n) answer c' := by
  obtain ⟨grown, s, p, run, rfl, rfl⟩ := (act_iff (a := .sbrk t n) (c := c) rfl).mp done
  obtain ⟨m, sz, leaves, regrown⟩ := sbrk_leaves sane legal.1 below legal.2.2 supplied run
  refine ⟨leaves.sane, ?_, leaves.all_opened⟩
  show Effect S.scarce c.view (.sbrk t n) (.flag grown) (c.ran t s p).view
  rw [leaves.view]
  exact .resized regrown

section Touch

variable {va : Nat} {byte : UInt8}

/-- The kernel without copy-on-write is only asked for what user code may touch. -/
def Fair (S : Setting ι) (c : System ι) (t : ι) (va : Nat) : Prop :=
  Decent c.shared (c.proc t) va ∧ (S.kernel = .eager → (c.proc t).Accessible va)

omit [KernelImage] in
theorem Kernel.cow_of_ne {κ : Kernel} (other : κ ≠ .eager) : κ = .cow := by
  cases κ
  · rfl
  · exact absurd rfl other

omit [Fintype ι] [DecidableEq ι] in
theorem Fair.cow (fair : Fair S c t va) (hidden : ¬ (c.proc t).Accessible va) : S.kernel = .cow :=
  Kernel.cow_of_ne fun eager => hidden (fair.2 eager)

theorem AfterFault.exits (after : AfterFault S c t va s p) (cow : S.kernel = .cow) (sane : Sane S c) (live : c.state t = .live)
    {a : Action ι} (effect : Effect S.scarce c.view a answer (c.view.exited t)) :
    Acted S c a answer ((c.ran t s p).exit t) := by
  have used : c.state t ≠ .unused := by simp [live]
  obtain ⟨mark, calm⟩ := after.calm
  obtain ⟨x, occupied⟩ := after.occupied
  refine ⟨sane.exited calm used occupied, ?_, fun eager => ?_⟩
  · have view : ((c.ran t s p).exit t).view = c.view.exited t := by
      refine View.ext (funext after.memory) (funext fun w => ?_) rfl rfl rfl
      by_cases here : w = t
      · subst here
        simp only [System.exit, update_self]
        exact after.size
      · simp only [System.exit, update_of_ne here]
        rfl
    rw [view]
    exact effect
  · rw [cow] at eager
    cases eager

theorem AfterFault.resumes (after : AfterFault S c t va s p) (cow : S.kernel = .cow) (sane : Sane S c) (live : c.state t = .live)
    (alive : p.killed = false) {a : Action ι} (effect : Effect S.scarce c.view a answer c.view) :
    Acted S c a answer (c.ran t s p) := by
  have leaves := after.leaves cow sane (by simp [live]) fun _ => alive
  refine ⟨leaves.sane, ?_, leaves.all_opened⟩
  rw [leaves.view_same]
  exact effect

theorem read_acted (sane : Sane S c) (legal : (Action.read t va).Legal c) (fair : Fair S c t va)
    (supplied : ¬ (c.proc t).Accessible va → Sustained S (cowFault (c.proc t).pgdir va) c t)
    (done : c.act S.kernel (.read t va) = .ok (answer, c')) : Acted S c (.read t va) answer c' := by
  have live : c.state t = .live := legal.1
  have used : c.state t ≠ .unused := by simp [live]
  obtain ⟨touch, s, p, run, rfl, rfl⟩ := (act_iff (a := .read t va) (c := c) rfl).mp done
  have run : Program.run (execute S.kernel) (touchRead S.kernel (c.proc t).pgdir va) (c.shared, c.proc t) = _ := run
  by_cases accessible : (c.proc t).Accessible va
  · rw [touchRead_granted accessible] at run
    cases run
    have same : c.settle (.read t va) (.touch (.byte (c.shared.ram ((c.proc t).entry va).addr (va % pgSize)))) c.shared
        (c.proc t) = c := by
      show c.ran t c.shared (c.proc t) = c
      simp only [System.ran, update_eq_self]
    rw [same]
    exact ⟨sane, .read (sane.memory_accessible used accessible), fun _ => id⟩
  · have cow := fair.cow accessible
    have hidden : ¬ c.view.Shown t va := fun shown => accessible ((sane.shown_iff used).mp shown)
    rw [cow] at run
    obtain ⟨after, rfl | ⟨alive, rfl | opened⟩⟩ := read_after cow sane live fair.1 accessible (supplied accessible) run
    · exact after.exits cow sane live (.readExits hidden)
    · exact after.resumes cow sane live alive (.misread hidden)
    · have leaves := after.leaves cow sane used fun _ => alive
      have proc : (c.ran t s p).proc t = p := update_self ..
      have shown := (leaves.sane.shown_iff used).mpr (proc.symm ▸ opened)
      rw [leaves.view_same] at shown
      exact absurd shown hidden

omit [DecidableEq ι] in
theorem Sane.allows_write (sane : Sane S c) (used : c.state t ≠ .unused) (opened : c.Opened) (accessible : (c.proc t).Accessible va) :
    ((c.proc t).entry va).allows true .write = true := by
  obtain ⟨x, occupied⟩ := sane.occupied t used
  have user := occupied.accessible_user accessible
  obtain ⟨present, privilege⟩ := accessible
  have writable := opened t
  rw [System.table, occupied.table] at writable
  rw [occupied.entry_eq] at present privilege ⊢
  simp [Pte.allows, present, privilege, writable _ user present privilege]

theorem write_acted (sane : Sane S c) (legal : (Action.write t va byte).Legal c) (fair : Fair S c t va)
    (opened : S.kernel = .eager → c.Opened)
    (supplied : S.kernel = .cow → ((c.proc t).entry va).allows true .write = false →
      Sustained S (cowFault (c.proc t).pgdir va) c t)
    (done : c.act S.kernel (.write t va byte) = .ok (answer, c')) : Acted S c (.write t va byte) answer c' := by
  have live : c.state t = .live := legal.1
  have used : c.state t ≠ .unused := by simp [live]
  obtain ⟨touch, s, p, run, rfl, rfl⟩ := (act_iff (a := .write t va byte) (c := c) rfl).mp done
  have run : Program.run (execute S.kernel) (touchWrite S.kernel (c.proc t).pgdir va byte) (c.shared, c.proc t) = _ := run
  have wrote : ∀ {s' : Shared} {p' : Proc}, Leaves S c t s' p' (Cells.written (c.memory t) va byte) (c.proc t).sz →
      Acted S c (.write t va byte) (.touch .written) (c.ran t s' p') := by
    intro s' p' leaves
    refine ⟨leaves.sane, ?_, leaves.all_opened⟩
    rw [leaves.view]
    exact .written
  cases granted : ((c.proc t).entry va).allows true .write
  · have cow : S.kernel = .cow := by
      apply Kernel.cow_of_ne
      intro eager
      rw [sane.allows_write used (opened eager) (fair.2 eager)] at granted
      cases granted
    rw [cow] at run
    obtain ⟨s', p', after, ended⟩ := write_after cow sane live fair.1 granted (supplied cow granted) run
    cases ended with
    | exits why => exact after.exits cow sane live (.writeExits (.inl why))
    | faults alive hidden =>
      exact after.resumes cow sane live alive (.miswritten fun shown => hidden ((sane.shown_iff used).mp shown))
    | written alive granted' => exact wrote (after.written_leaves cow sane live alive granted')
  · rw [touchWrite_granted granted] at run
    cases run
    exact wrote (write_leaves sane live granted)

end Touch

theorem Loaded.below {sz : Nat} (loaded : Loaded x sz) : Cells.Below (x.memory s) sz := by
  intro v shown
  by_contra high
  have user : v < userPages := by
    by_contra kernel
    rw [PgDir.memory_kernel (by omega)] at shown
    cases shown
  rw [PgDir.memory_isSome user] at shown
  have whole := loaded.whole
  rw [loaded.unmapped v (by unfold pageOf pgRoundUp pgSize at *; omega) user] at shown
  cases shown

theorem Loaded.guard {sz : Nat} (loaded : Loaded x sz) : ∃ page, x.memory s (pageOf (sz - 2 * pgSize)) = some ⟨page, false⟩ := by
  have stack := loaded.stack
  have bound := loaded.bound
  have place : pageOf (sz - 2 * pgSize) = pageOf sz - 2 := by
    unfold pageOf pgSize
    omega
  have low : pageOf sz - 2 < pageOf sz := by
    unfold pageOf pgSize at *
    omega
  have user : pageOf sz - 2 < userPages := by
    rw [userPages_eq]
    unfold pageOf pgSize kernBase at *
    omega
  obtain ⟨present, -, privilege⟩ := loaded.mapped _ low
  refine ⟨s.ram (x.pte (pageOf sz - 2)).addr, ?_⟩
  rw [place, PgDir.memory, if_pos ⟨user, present⟩, Bool.eq_false_iff.mpr fun wrong => privilege.mp wrong rfl]

theorem exec_acted {ip : Option Inode} {argv : List (List UInt8)} (sane : Sane S c) (live : c.state t = .live) (lax : ¬ S.strict)
    (supplied : Sustained S (exec (c.proc t).pgdir ip argv) c t) (done : c.act S.kernel (.exec t ip argv) = .ok (answer, c')) :
    Acted S c (.exec t ip argv) answer c' := by
  obtain ⟨replaced, s, p, run, rfl, rfl⟩ := (act_iff (a := .exec t ip argv) (c := c) rfl).mp done
  obtain ⟨sane', others, ended⟩ := exec_leaves sane live lax supplied run
  have memory : (c.ran t s p).memory = update c.memory t ((c.ran t s p).memory t) := by
    funext w
    by_cases here : w = t
    · subst here
      rw [update_self]
    · rw [update_of_ne here, others w here]
  cases replaced with
  | false =>
    rw [if_neg Bool.false_ne_true] at ended
    obtain ⟨same, rfl⟩ := ended
    have leaves : Leaves S c t s (c.proc t) (c.memory t) (c.proc t).sz :=
      ⟨sane', by rwa [same] at memory, rfl, fun _ opened => opened⟩
    refine ⟨sane', ?_, leaves.all_opened⟩
    show Effect S.scarce c.view (.exec t ip argv) (.flag false) (c.ran t s (c.proc t)).view
    rw [leaves.view_same]
    exact .kept
  | true =>
    rw [if_pos rfl] at ended
    obtain ⟨y, occupied, loaded⟩ := ended
    have leaves : Leaves S c t s p ((c.ran t s p).memory t) p.sz := by
      refine ⟨sane', memory, rfl, fun _ _ => ?_⟩
      rw [occupied.table]
      exact fun v _ present privilege => (loaded.opened present privilege).writable
    have table : (c.ran t s p).memory t = y.memory s := by
      simp only [System.memory, System.table, update_self, occupied.table]
    refine ⟨sane', ?_, leaves.all_opened⟩
    show Effect S.scarce c.view (.exec t ip argv) (.flag true) (c.ran t s p).view
    rw [leaves.view]
    apply Effect.replaced
    · rw [table]
      exact loaded.below
    · rw [table]
      exact loaded.guard

omit [Fintype ι] in
theorem act_exit {κ : Kernel} : c.act κ (.exit t) = if t = c.initproc then .error (.panic "init exiting") else .ok (.done, c.exit t) := by
  have program : (Action.exit t).program κ c = if t = c.initproc then panic "init exiting" else pure .done := rfl
  have same : c.ran t c.shared (c.proc t) = c := by simp only [System.ran, update_eq_self]
  have settled : c.settle (.exit t) .done c.shared (c.proc t) = c.exit t := congrArg (System.exit · t) same
  unfold System.act
  rw [program, ← settled]
  by_cases first : t = c.initproc
  · rw [if_pos first, if_pos first]
    rfl
  · rw [if_neg first, if_neg first]
    rfl

theorem exit_acted (sane : Sane S c) (live : c.state t = .live) (done : c.act S.kernel (.exit t) = .ok (answer, c')) :
    Acted S c (.exit t) answer c' := by
  have used : c.state t ≠ .unused := by simp [live]
  obtain ⟨mark, calm⟩ := sane.calm
  obtain ⟨x, occupied⟩ := sane.occupied t used
  rw [act_exit] at done
  by_cases first : t = c.initproc
  · rw [if_pos first] at done
    cases done
  · rw [if_neg first] at done
    cases done
    have same : c.ran t c.shared (c.proc t) = c := by simp only [System.ran, update_eq_self]
    have exited := sane.exited (c := c) (p := c.proc t) (by rwa [update_eq_self]) used occupied
    rw [same] at exited
    exact ⟨exited, .exited first, fun _ opened => opened⟩

omit [Fintype ι] in
theorem wait_program {κ : Kernel} : (Action.wait t u).program κ c =
    wait (c.proc u).kstack (c.proc u).pgdir >>= fun _ => pure .done := rfl

theorem wait_acted (sane : Sane S c) (legal : (Action.wait t u).Legal c)
    (done : c.act S.kernel (.wait t u) = .ok (answer, c')) : Acted S c (.wait t u) answer c' := by
  have used : c.state u ≠ .unused := by simp [legal.2.1]
  obtain ⟨_, s, p, run, rfl, rfl⟩ := (act_iff wait_program).mp done
  have reaped := wait_leaves sane used run
  refine ⟨reaped.sane, ?_, fun _ opened w => ?_⟩
  · have view : ((c.ran u s p).reap u).view = c.view.reaped u := by
      refine View.ext reaped.memory (funext fun w => ?_) rfl rfl rfl
      by_cases here : w = u
      · subst here
        exact reaped.size
      · exact congrArg Proc.sz (reaped.procs w here)
    show Effect S.scarce c.view (.wait t u) .done ((c.ran u s p).reap u).view
    rw [view]
    exact .reaped
  · by_cases here : w = u
    · subst here
      have vacant := reaped.sane.vacant w (update_self ..)
      show (((c.ran w s p).reap w).proc w).table.Opened
      rw [vacant.table]
      intro v _ present
      rw [PgDir.pte_empty] at present
      cases present
    · show (((c.ran u s p).reap u).proc w).table.Opened
      rw [reaped.procs w here]
      exact opened w

omit [DecidableEq ι] in
theorem Sane.countable {va : Nat} (sane : Sane S c) (cow : S.kernel = .cow) (used : c.state t ≠ .unused)
    (accessible : (c.proc t).Accessible va) : Countable c.shared (c.proc t) va := by
  obtain ⟨x, occupied⟩ := sane.occupied t used
  obtain ⟨mark, calm⟩ := sane.calm
  have user := occupied.accessible_user accessible
  refine ⟨PgDir.has_of_present accessible.1, ?_⟩
  have present := accessible.1
  rw [occupied.entry_eq] at present ⊢
  have holds : 0 < held (account (c.proc t) (.calm c.shared mark)).tally (x.pte (pageOf va)).addr :=
    calm.held occupied.at_pgdir user present _
  constructor
  · exact (calm.available holds).1
  · rw [calm.count_held cow holds]
    exact Nat.lt_of_lt_of_le holds (held_le_total (fun t => account (c.proc t) (.calm c.shared mark)) t _)

end Xv6
