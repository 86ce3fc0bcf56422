import Xv6.Exec.Succeeds
import Xv6.System.Refines

namespace Xv6

open CommandProgram Function Ledger

variable [KernelImage] {ι : Type} [Fintype ι] [DecidableEq ι]
variable {c c' : System ι} {g : ι → Set Nat} {t u : ι} {v : Nat}

/-- `COW_FAULT` is not called to copy a page that user code may not touch. -/
def Considerate (c : System ι) : Action ι → Prop
  | .read t va => Decent c.shared (c.proc t) va
  | .write t va _ => Decent c.shared (c.proc t) va
  | _ => True

/-- The pages from which `clearpteu` took `PTE_U`. A child has those of its parent; they go with the address space, or when
`sbrk` gives them back. -/
def guarded (c c' : System ι) (g : ι → Set Nat) : Action ι → Answer → ι → Set Nat
  | .fork t u, .flag true => update g u (g t)
  | .sbrk t n, _ =>
    let newsz := asked (c.proc t).sz n
    update g t {v ∈ g t | ¬ (n < 0 ∧ newsz < (c.proc t).sz ∧ pgRoundUp newsz ≤ v)}
  | .exec t _ _, .flag true => update g t {pageOf ((c'.proc t).sz - 2 * pgSize)}
  | .wait _ u, _ => update g u ∅
  | _, _ => g

/-- A run, with the guard pages that it has left behind. -/
inductive Guarded (rule : System ι → Action ι → Prop) : System ι → (ι → Set Nat) → Prop
  | boot {c : System ι} (fresh : Reach .cow (fun _ _ => False) c) : Guarded rule c fun _ => ∅
  | act {c c' : System ι} {g : ι → Set Nat} {a : Action ι} {answer : Answer} (guards : Guarded rule c g) (legal : a.Legal c)
    (allowed : rule c a) (done : c.act .cow a = .ok (answer, c')) : Guarded rule c' (guarded c c' g a answer)

/-- No page can be used by more code than it was meant for. -/
structure Contained (c : System ι) (g : ι → Set Nat) : Prop where
  kernel : ∀ t, c.state t ≠ .unused → ∀ v, userPages ≤ v → (c.table t).pte v = kmapPte v
  guards : ∀ t, ∀ v ∈ g t, ((c.table t).pte v).p = true ∧ ((c.table t).pte v).u = false

structure Fenced (w : View ι) (g : ι → Set Nat) : Prop where
  below : ∀ t, w.state t ≠ .unused → (w.memory t).Below (w.size t)
  guards : ∀ t, ∀ v ∈ g t, ∃ page, w.memory t v = some ⟨page, false⟩

namespace Fenced

variable {w : View ι} {m : Cells} {sz : Nat}

section

omit [KernelImage] [Fintype ι]

theorem changed (fenced : Fenced w g) (below : m.Below sz) {pages : Set Nat} (guards : ∀ v ∈ pages, ∃ page, m v = some ⟨page, false⟩) :
    Fenced (w.changed t m sz) (update g t pages) where
  below x used := by
    simp only [View.changed]
    by_cases here : x = t
    · subst here
      rw [update_self, update_self]
      exact below
    · rw [update_of_ne here, update_of_ne here]
      exact fenced.below x used
  guards x v := by
    simp only [View.changed]
    by_cases here : x = t
    · subst here
      rw [update_self, update_self]
      exact guards v
    · rw [update_of_ne here, update_of_ne here]
      exact fenced.guards x v

theorem exited (fenced : Fenced w g) (used : w.state t ≠ .unused) : Fenced (w.exited t) g where
  below x used' := by
    by_cases here : x = t
    · subst here
      exact fenced.below x used
    · exact fenced.below x (by simpa [View.exited, here] using used')
  guards := fenced.guards

theorem forked (fenced : Fenced w g) (used : w.state t ≠ .unused) : Fenced (w.forked t u) (update g u (g t)) where
  below x used' := by
    simp only [View.forked] at used' ⊢
    by_cases new : x = u
    · subst new
      rw [update_self, update_self]
      intro v shown
      by_contra high
      rw [Cells.copied, if_neg high] at shown
      cases shown
    · rw [update_of_ne new] at used'
      rw [update_of_ne new, update_of_ne new]
      exact fenced.below x used'
  guards x v member := by
    simp only [View.forked]
    by_cases new : x = u
    · subst new
      rw [update_self] at member ⊢
      obtain ⟨page, here⟩ := fenced.guards t v member
      refine ⟨page, ?_⟩
      rw [Cells.copied, if_pos (fenced.below t used v (by rw [here]; rfl)), here]
    · rw [update_of_ne new] at member ⊢
      exact fenced.guards x v member

theorem reaped (fenced : Fenced w g) : Fenced (w.reaped u) (update g u ∅) where
  below x used := by
    simp only [View.reaped] at used ⊢
    by_cases gone : x = u
    · subst gone
      exact absurd (update_self ..) used
    · rw [update_of_ne gone] at used ⊢
      exact fenced.below x used
  guards x v member := by
    simp only [View.reaped]
    by_cases gone : x = u
    · subst gone
      rw [update_self] at member
      exact absurd member (Set.notMem_empty v)
    · rw [update_of_ne gone] at member ⊢
      exact fenced.guards x v member

/-- `sbrk` does not give a guard page to user code that it has not taken away before. -/
theorem regrown {scarce : Prop} {n : Int} {grown : Bool} (fenced : Fenced w g) (used : w.state t ≠ .unused)
    (regrown : Regrown scarce (w.memory t) (w.size t) n grown m sz) (bound : w.size t ≤ kernBase) (fits : n < 2 ^ 31) :
    Fenced (w.changed t m sz) (update g t {v ∈ g t |
      ¬ (n < 0 ∧ asked (w.size t) n < w.size t ∧ pgRoundUp (asked (w.size t) n) ≤ v)}) := by
  have below := fenced.below t used
  have low : ∀ v page, w.memory t v = some ⟨page, false⟩ → v < pgRoundUp (w.size t) := by
    intro v page here
    exact below v (by rw [here]; rfl)
  cases regrown with
  | grew grows =>
    have larger := asked_grows bound grows.1 fits
    apply fenced.changed
    · intro v shown
      by_cases new : pgRoundUp (w.size t) ≤ v ∧ v < pgRoundUp (asked (w.size t) n)
      · exact new.2
      · rw [Cells.extended, if_neg new] at shown
        have old := below v shown
        unfold pgRoundUp pgSize at *
        omega
    · rintro v ⟨member, -⟩
      obtain ⟨page, here⟩ := fenced.guards t v member
      have old := low v page here
      exact ⟨page, by rw [Cells.extended, if_neg (by omega), here]⟩
  | failed grows none => exact fenced.changed below fun v member => fenced.guards t v member.1
  | shrank shrinks =>
    apply fenced.changed
    · intro v shown
      by_cases gone : pgRoundUp (asked (w.size t) n) ≤ v ∧ v < pgRoundUp (w.size t)
      · rw [Cells.dropped, if_pos gone] at shown
        cases shown
      · rw [Cells.dropped, if_neg gone] at shown
        have old := below v shown
        split <;> omega
    · rintro v ⟨member, left⟩
      obtain ⟨page, here⟩ := fenced.guards t v member
      have old := low v page here
      exact ⟨page, by rw [Cells.dropped, if_neg fun gone => left ⟨shrinks.1, shrinks.2, gone.1⟩, here]⟩
  | stayed still stays => exact fenced.changed below fun v member => fenced.guards t v member.1

theorem written {va : Nat} {byte : UInt8} (fenced : Fenced w g) (used : w.state t ≠ .unused) :
    Fenced (w.changed t ((w.memory t).written va byte) (w.size t)) g := by
  rw [← update_eq_self t g]
  apply fenced.changed
  · intro v shown
    apply fenced.below t used
    by_cases here : v = pageOf va
    · subst here
      rw [Cells.written, update_self, Option.isSome_map] at shown
      exact shown
    · rwa [Cells.written, update_of_ne here] at shown
  · intro v member
    obtain ⟨page, shown⟩ := fenced.guards t v member
    by_cases here : v = pageOf va
    · subst here
      exact ⟨page.store (va % pgSize) [byte], by rw [Cells.written, update_self, shown]; rfl⟩
    · exact ⟨page, by rw [Cells.written, update_of_ne here, shown]⟩

theorem next {scarce : Prop} {a : Action ι} {answer : Answer} (fenced : Fenced c.view g) (legal : a.Legal c)
    (bound : ∀ t, c.state t ≠ .unused → (c.proc t).sz ≤ kernBase) {w : View ι} (effect : Effect scarce c.view a answer w)
    (after : c'.view = w) : Fenced w (guarded c c' g a answer) := by
  have used : ∀ {t : ι}, c.state t = .live → c.view.state t ≠ .unused := fun live => by simp [live]
  cases effect with
  | forked => exact fenced.forked (used legal.1)
  | unforked none => exact fenced
  | resized regrown => exact fenced.regrown (used legal.1) regrown (bound _ (used legal.1)) legal.2.2
  | read shown => exact fenced
  | misread hidden => exact fenced
  | readExits hidden => exact fenced.exited (used legal.1)
  | written => exact fenced.written (used legal.1)
  | miswritten hidden => exact fenced
  | writeExits why => exact fenced.exited (used legal.1)
  | replaced below guard =>
    rename_i t ip argv m sz
    have size : (c'.proc t).sz = sz := by
      have sizes := congrFun (congrArg View.size after) t
      exact sizes.trans (update_self ..)
    simp only [guarded, size]
    apply fenced.changed below
    rintro v rfl
    exact guard
  | kept => exact fenced
  | exited other => exact fenced.exited (used legal)
  | reaped => exact fenced.reaped

end

end Fenced

/-- Every action, however memory runs out, in the kernel with copy-on-write. -/
theorem considerate_acted {a : Action ι} {answer : Answer} (sane : Sane (execSetting ι .cow) c) (fenced : Fenced c.view g)
    (legal : a.Legal c) (considerate : Considerate c a) (done : c.act .cow a = .ok (answer, c')) :
    Acted (execSetting ι .cow) c a answer c' := by
  have supplied : ∀ {α : Type} (program : Vm α) (t : ι), Sustained (execSetting ι .cow) program c t :=
    fun program t => Setting.Calm.supplied_scarce trivial program _
  have fair : ∀ {t : ι} {va : Nat}, Decent c.shared (c.proc t) va → Fair (execSetting ι .cow) c t va := by
    intro t va decent
    refine ⟨decent, fun eager => ?_⟩
    cases eager
  cases a with
  | fork t u => exact fork_acted sane legal rfl (fun strict => absurd strict id) (supplied ..) done
  | sbrk t n => exact sbrk_acted sane legal (fenced.below t (by simp [legal.1])) (supplied ..) done
  | read t va => exact read_acted sane legal (fair considerate) (fun _ => supplied ..) done
  | write t va byte =>
    refine write_acted sane legal (fair considerate) (fun eager => ?_) (fun _ _ => supplied ..) done
    cases eager
  | exec t ip argv => exact exec_acted sane legal id (supplied ..) done
  | exit t => exact exit_acted sane legal done
  | wait t u => exact wait_acted sane legal done

omit [KernelImage] [Fintype ι] in
theorem Fenced.first {init : List UInt8} : Fenced (.first t init) fun _ => ∅ where
  below w used := by
    by_cases here : w = t
    · subst here
      simp only [View.first, update_self]
      intro v shown
      by_cases zero : v = 0
      · subst zero
        decide
      · rw [update_of_ne zero] at shown
        cases shown
    · have unused : (View.first t init).state w = .unused := by
        show update (fun _ => SlotState.unused) t .live w = .unused
        exact update_of_ne here ..
      exact absurd unused used
  guards w v member := absurd member (Set.notMem_empty v)

theorem Guarded.sound (guards : Guarded Considerate c g) : Sane (execSetting ι .cow) c ∧ Fenced c.view g := by
  induction guards with
  | boot fresh =>
    cases fresh with
    | boot done =>
      rename_i t _ _ _ _
      obtain ⟨sane, view, -⟩ := first_view (t := t) done
      refine ⟨sane.transfer rfl rfl, ?_⟩
      rw [view]
      exact .first
    | act reach legal allowed done => exact allowed.elim
  | act guards legal considerate done ih =>
    obtain ⟨sane, fenced⟩ := ih
    have acted := considerate_acted sane fenced legal considerate done
    refine ⟨acted.sane, fenced.next legal (fun t used => ?_) acted.effect rfl⟩
    obtain ⟨x, occupied⟩ := sane.occupied t used
    exact occupied.size

omit [Fintype ι] in
theorem Reach.guarded {rule : System ι → Action ι → Prop} (reach : Reach .cow rule c) : ∃ g, Guarded rule c g := by
  induction reach with
  | boot done => exact ⟨_, .boot (.boot done)⟩
  | act reach legal allowed done ih =>
    obtain ⟨g, guards⟩ := ih
    exact ⟨_, guards.act legal allowed done⟩

theorem write_copies {S : Setting ι} {r : ι} (sane : Sane S c) (cow : S.kernel = .cow) (live : c.state r = .live) {va : Nat} (byte : UInt8)
    (accessible : (c.proc r).Accessible va) (closed : ((c.proc r).entry va).w = false) (shares : c.SharesPage r (pageOf va))
    (stock : c.shared.kmem.freelist ≠ []) :
    ∃ s p, c.act .cow (.write r va byte) = .ok (.touch .written, c.ran r s p) ∧
      (((c.ran r s p).table r).pte (pageOf va)).addr ∈ c.shared.kmem.freelist := by
  have several : 1 < c.shared.kmem.page_rCount ((c.proc r).entry va).addr := sane.several cow shares
  have refused : ((c.proc r).entry va).allows true .write = false := by simp [Pte.allows, closed]
  obtain ⟨result, s', p', run, fault⟩ := cowFault_run c.shared (c.proc r) va
  obtain rfl := fault.countable.mpr (sane.countable cow (by simp [live]) accessible)
  have retried : Program.run (execute .cow) (touchWrite .cow (c.proc r).pgdir va byte) (c.shared, c.proc r) = _ :=
    touchWrite_retried refused run fault.pgdir
  cases fault with
  | promoted has managed one => omega
  | exhausted has managed several free => exact absurd free stock
  | copied mem rest has managed several free =>
    rw [Proc.killed_setEntry, sane.alive r live, if_neg Bool.false_ne_true, Proc.entry_setEntry has, if_pos (by rfl)] at retried
    generalize Shared.written _ _ va byte = s' at retried
    have entry : ((c.ran r s' ((c.proc r).setEntry va (.make mem permWU))).table r).pte (pageOf va) = .make mem permWU := by
      simp only [System.table, update_self]
      exact Proc.entry_setEntry has _
    refine ⟨_, _, (act_iff (a := .write r va byte) (c := c) rfl).mpr ⟨_, _, _, retried, rfl, rfl⟩, ?_⟩
    rw [entry, free]
    exact List.mem_cons_self

/-- Process `t` has run a program of no bytes: it has a guard page and a page for the stack. -/
structure Running (t : ι) (c₀ c : System ι) (g : ι → Set Nat) : Prop where
  replaced : c₀.act .cow (.exec t (some bare) []) = .ok (.flag true, c)
  guards : Guarded Considerate c g
  state : c.state = update (fun _ => .unused) t .live
  size : (c.proc t).sz = 2 * pgSize
  guard : 0 ∈ g t
  mapped : ∀ v, v < 2 → ((c.table t).pte v).p = true
  stack : ((c.table t).pte 1).u = true
  stock : 40000 ≤ c.shared.kmem.freelist.length

theorem running_reached (t : ι) : ∃ c₀ c g, Running t c₀ c g := by
  obtain ⟨c₀, x, first⟩ : ∃ c x, First .cow Considerate t [] c x := first_reached .cow Considerate t (by decide) fun _ => Shared.junk
  have live : c₀.state t = .live := by rw [first.state, update_self]
  obtain ⟨s, p, execed⟩ := exec_succeeds first [] (by decide) (by decide)
  have replaced : c₀.act .cow (.exec t (some bare) []) = .ok (.flag true, c₀.ran t s p) :=
    (act_iff (a := .exec t (some bare) []) (c := c₀) rfl).mpr ⟨_, _, _, execed.memory, rfl, rfl⟩
  obtain ⟨g, guards⟩ := first.reach.guarded
  have lax : Sane (execSetting ι .cow) c₀ := first.sane.transfer rfl rfl
  obtain ⟨-, -, y, occupied, loaded⟩ := exec_leaves lax live id (Setting.Calm.supplied_scarce trivial _ _) execed.memory
  have size : ((c₀.ran t s p).proc t).sz = 2 * pgSize := by
    show (update c₀.proc t p t).sz = _
    rw [update_self, execed.size]
  have table : (c₀.ran t s p).table t = y := by
    simp only [System.table, update_self, occupied.table]
  have pages : pageOf p.sz = 2 := by
    rw [execed.size]
    decide
  refine ⟨c₀, c₀.ran t s p, _, replaced, guards.act (a := .exec t (some bare) []) live trivial replaced, first.state, size, ?_, ?_, ?_, execed.stock⟩
  · rw [guarded, size, update_self]
    rfl
  · rw [table]
    exact fun v low => (loaded.mapped v (by omega)).1
  · rw [table]
    exact (loaded.mapped 1 (by omega)).2.2.mpr (by omega)

/-- Its child `u` has written to the stack. -/
structure Writing (t u : ι) (c₀ c₁ c₂ c₃ : System ι) (g : ι → Set Nat) : Prop where
  replaced : c₀.act .cow (.exec t (some bare) []) = .ok (.flag true, c₁)
  forked : c₁.act .cow (.fork t u) = .ok (.flag true, c₂)
  written : c₂.act .cow (.write u 8191 7) = .ok (.touch .written, c₃)
  guards : Guarded Considerate c₃ g
  guard : 0 ∈ g t
  guard' : 0 ∈ g u

theorem writing_child (different : t ≠ u) : ∃ c₀ c₁ c₂ c₃ g, Writing t u c₀ c₁ c₂ c₃ g := by
  obtain ⟨c₀, c₁, g, running⟩ := running_reached t
  have live : c₁.state t = .live := by rw [running.state, update_self]
  have legal : (Action.fork t u).Legal c₁ := ⟨live, by rw [running.state, update_of_ne different.symm]⟩
  have sane : Sane (sureSetting ι .cow) c₁ := running.guards.sound.1.transfer rfl rfl
  have pages : pgRoundUp (c₁.proc t).sz = 2 := by
    rw [running.size]
    decide
  have stock := running.stock
  obtain ⟨made, c₂, forked, after, room⟩ := fork_succeeds (n := 1) sane legal
    (fun v low => running.mapped v (by omega)) (by unfold npdEntries; omega)
  obtain ⟨state, -, -, -, tables⟩ := after.child
  have entry : (c₂.table u).pte 1 = ((c₁.table t).pte 1).shared := (tables 1 (by omega)).2 rfl
  have parent : ((c₂.table t).pte 1).p = true ∧ ((c₂.table t).pte 1).addr = ((c₁.table t).pte 1).addr := by
    have present := running.mapped 1 (by decide)
    rcases after.parent 1 with same | ⟨-, weaker⟩
    · rw [same]
      exact ⟨present, rfl⟩
    · rw [weaker]
      exact ⟨present, rfl⟩
  have low : 1 < userPages := by decide
  have page : pageOf 8191 = 1 := by decide
  have accessible : (c₂.proc u).Accessible 8191 := by
    show ((c₂.table u).pte (pageOf 8191)).p = true ∧ ((c₂.table u).pte (pageOf 8191)).u = true
    rw [page, entry]
    exact ⟨rfl, running.stack⟩
  have closed : ((c₂.proc u).entry 8191).w = false := by
    show ((c₂.table u).pte (pageOf 8191)).w = false
    rw [page, entry]
    rfl
  have shares : c₂.SharesPage u (pageOf 8191) := by
    rw [page]
    refine ⟨low, ?_, t, different, 1, low, ?_⟩
    · rw [entry]
      rfl
    · rw [entry]
      exact parent
  have forkedLive : c₂.state u = .live := by rw [state, update_self]
  have free : c₂.shared.kmem.freelist ≠ [] := by
    intro empty
    simp [empty] at room
  obtain ⟨s, p, written, -⟩ := write_copies after.sane rfl forkedLive 7 accessible closed shares free
  have guards := running.guards.act (a := .fork t u) legal trivial forked
  refine ⟨c₀, c₁, c₂, _, _, running.replaced, forked, written, guards.act (a := .write u 8191 7) ⟨forkedLive, by decide⟩ (.inl accessible) written, ?_, ?_⟩
  · show 0 ∈ update g u (g t) t
    rw [update_of_ne different]
    exact running.guard
  · show 0 ∈ update g u (g t) u
    rw [update_self]
    exact running.guard

/-- As long as no fault copies a page that user code may not touch, the kernel half of every page table is the one that
`setupkvm` installed and the guard pages are out of reach of user code. -/
theorem rights_kept (guards : Guarded Considerate c g) : Contained c g := by
  obtain ⟨sane, fenced⟩ := guards.sound
  constructor
  case kernel =>
    intro t used
    obtain ⟨x, occupied⟩ := sane.occupied t used
    rw [System.table, occupied.table]
    exact occupied.kernel
  case guards =>
    intro t v member
    obtain ⟨page, shown⟩ := fenced.guards t v member
    have shown : c.memory t v = some ⟨page, false⟩ := shown
    rw [System.memory, PgDir.memory] at shown
    split at shown
    · rename_i mapped
      exact ⟨mapped.2, congrArg Cell.user (Option.some.inj shown)⟩
    · cases shown

omit [KernelImage] in
/-- The first process runs a program of no bytes and forks, and the child writes to the stack that it shares. -/
theorem rights_kept_of_child :
    letI := builtImage
    ∃ (c₀ c₁ c₂ c₃ : System (Fin 2)) (g : Fin 2 → Set Nat), c₀.act .cow (.exec 0 (some bare) []) = .ok (.flag true, c₁) ∧
      c₁.act .cow (.fork 0 1) = .ok (.flag true, c₂) ∧ c₂.act .cow (.write 1 8191 7) = .ok (.touch .written, c₃) ∧
      0 ∈ g 0 ∧ 0 ∈ g 1 ∧ Contained c₃ g := by
  let := builtImage
  obtain ⟨c₀, c₁, c₂, c₃, g, child⟩ := writing_child (show (0 : Fin 2) ≠ 1 by decide)
  exact ⟨c₀, c₁, c₂, c₃, g, child.replaced, child.forked, child.written, child.guard, child.guard', rights_kept child.guards⟩

theorem Pair.several {rule : System ι → Action ι → Prop} {x y : PgDir} (twins : Pair rule t u c x y) (different : t ≠ u) :
    (y.pte 0).p = true ∧ (y.pte 0).addr = (x.pte 0).addr ∧ 1 < c.shared.kmem.page_rCount (x.pte 0).addr ∧
      Managed (x.pte 0).addr := by
  have present : (y.pte 0).p = true := by
    rw [twins.shared]
    rfl
  have same : (y.pte 0).addr = (x.pte 0).addr := by rw [twins.shared]; rfl
  have table : c.table t = x := twins.parent.table
  have table' : c.table u = y := twins.child.table
  have shares : c.SharesPage t 0 := by
    unfold System.SharesPage
    rw [table]
    exact ⟨by decide, twins.present, u, different.symm, 0, by decide, table' ▸ present, table' ▸ same⟩
  have several := twins.sane.several rfl shares
  rw [table] at several
  obtain ⟨mark, count, inv⟩ := twins.sane.calm
  refine ⟨present, same, several, inv.managed_of_held (t := t) rfl ?_⟩
  exact held_of_pte ((inv.tidy t).bound _ (by rw [twins.parent.at_pgdir]; exact Option.some_ne_none _))
    twins.parent.at_pgdir (by decide) twins.present

/-- A read makes a page of the kernel half a page for user code. -/
structure Widened (c c' : System ι) (t : ι) (va : Nat) : Prop where
  legal : (Action.read t va).Legal c
  kernel : kernBase ≤ va
  before : (c.table t).pte (pageOf va) = kmapPte (pageOf va)
  done : ∃ answer, c.act .cow (.read t va) = .ok (answer, c')
  after : (c'.table t).pte (pageOf va) ≠ kmapPte (pageOf va)
  user : ((c'.table t).pte (pageOf va)).u = true

theorem Pair.widened {rule : System ι → Action ι → Prop} {x y : PgDir} (twins : Pair rule t u c x y) (different : t ≠ u) :
    ∃ c' va, Widened c c' u va := by
  obtain ⟨-, -, several, managed⟩ := twins.several different
  have range := managed.lt_frames
  rw [frames_eq] at range
  generalize (x.pte 0).addr = f at several managed range
  have page : pageOf ((userPages + f) * pgSize) = userPages + f := Nat.mul_div_cancel _ (by decide)
  have entry : (c.proc u).entry ((userPages + f) * pgSize) = .make f permW := by
    rw [twins.child.entry_eq, page, twins.child.kernel _ (Nat.le_add_right ..)]
    exact kmapPte_managed managed
  have kernel : kernBase ≤ (userPages + f) * pgSize := by
    unfold pgSize kernBase
    rw [userPages_eq]
    omega
  have small : (userPages + f) * pgSize < 2 ^ 32 := by
    unfold pgSize
    rw [userPages_eq]
    omega
  generalize (userPages + f) * pgSize = va at page entry kernel small
  have refused : ¬ (c.proc u).Accessible va := by
    rintro ⟨-, privilege⟩
    rw [entry] at privilege
    cases privilege
  obtain ⟨result, s', p', run, fault⟩ := cowFault_run c.shared (c.proc u) va
  have at_f : ((c.proc u).entry va).addr = f := by rw [entry]; rfl
  cases fault with
  | absent missing =>
    refine absurd (PgDir.has_of_present ?_) missing
    show ((c.proc u).entry va).p = true
    rw [entry]
    rfl
  | foreign has outside => exact absurd (at_f ▸ managed) outside
  | uncounted has managed' zero =>
    rw [at_f] at zero
    omega
  | promoted has managed' one =>
    rw [at_f] at one
    omega
  | exhausted has managed' several' free => exact absurd free twins.stock
  | copied mem rest has managed' several' free =>
    have retried : Program.run (execute .cow) (touchRead .cow (c.proc u).pgdir va) (c.shared, c.proc u) = _ :=
      touchRead_retried refused run rfl
    rw [Proc.killed_setEntry, twins.sane.alive u twins.forked.1, if_neg Bool.false_ne_true, Proc.entry_setEntry has,
      if_pos (by rfl)] at retried
    generalize c.shared.copied mem ((c.proc u).entry va).addr = s' at retried
    have table : ((c.ran u s' ((c.proc u).setEntry va (.make mem permWU))).table u).pte (pageOf va) = .make mem permWU := by
      simp only [System.table, update_self]
      exact Proc.entry_setEntry has _
    refine ⟨c.ran u s' ((c.proc u).setEntry va (.make mem permWU)), va, ⟨twins.forked.1, small⟩, kernel, ?_,
      ⟨_, (act_iff (a := .read u va) (c := c) rfl).mpr ⟨_, _, _, retried, rfl, rfl⟩⟩, ?_, ?_⟩
    · show (c.proc u).entry va = _
      rw [entry, page, kmapPte_managed managed]
    · rw [table, page, kmapPte_managed managed]
      intro same
      cases congrArg Pte.u same
    · rw [table]
      rfl

omit [KernelImage] in
/-- The child of a first `fork` reads the frame of its page 0 where the kernel maps it. -/
theorem rights_widened :
    letI := builtImage
    ∃ (c c' : System (Fin 2)) (va : Nat), Reach .cow (fun _ _ => True) c ∧ Reach .cow (fun _ _ => True) c' ∧ Widened c c' 1 va := by
  let := builtImage
  obtain ⟨c, x, y, twins⟩ : ∃ c x y, Pair (fun _ _ => True) (0 : Fin 2) 1 c x y := pair_reached (by decide) fun _ => trivial
  obtain ⟨c', va, widened⟩ := twins.widened (by decide)
  obtain ⟨answer, done⟩ := widened.done
  exact ⟨c, c', va, twins.reach, twins.reach.act widened.legal trivial done, widened⟩

end Xv6
