import Xv6.System.Complete

namespace Xv6

open CommandProgram Function Ledger

variable [KernelImage] {ι : Type} [DecidableEq ι]

/-- What the process `r` does, and those that descend from it; `kin` are those of them that have not been reaped. `r` itself
forks and touches its pages, and no fault copies a page that user code may not touch. -/
def Within (r : ι) (kin : Set ι) (c : System ι) : Action ι → Prop
  | .fork t _ => t = r ∨ t ∈ kin
  | .read t va => (t = r ∨ t ∈ kin) ∧ Decent c.shared (c.proc t) va
  | .write t va _ => (t = r ∨ t ∈ kin) ∧ Decent c.shared (c.proc t) va
  | .sbrk t _ => t ∈ kin
  | .exec t _ _ => t ∈ kin
  | .exit t => t ∈ kin
  | .wait _ u => u ∈ kin

def descendants (kin : Set ι) : Action ι → Answer → Set ι
  | .fork _ u, .flag true => insert u kin
  | .wait _ u, _ => kin \ {u}
  | _, _ => kin

/-- A run in which only `r` and its descendants do anything, and in which zombies among these are reaped. -/
inductive Family (r : ι) (start : System ι) : System ι → Set ι → Prop
  | start : Family r start start ∅
  | act {c c' : System ι} {kin : Set ι} {a : Action ι} {answer : Answer} (family : Family r start c kin) (legal : a.Legal c)
    (within : Within r kin c a) (done : c.act .cow a = .ok (answer, c')) : Family r start c' (descendants kin a answer)

/-- The table of a process is as before, but for frames that are not used elsewhere. -/
structure Relocated (elsewhere : Nat → Prop) (q q' : Proc) : Prop where
  pgdir : q'.pgdir = q.pgdir
  kstack : q'.kstack = q.kstack
  pde : q'.table.pde = q.table.pde
  present : ∀ v, v < userPages → (q'.table.pte v).p = (q.table.pte v).p
  frames : ∀ v, v < userPages → (q'.table.pte v).p = true →
    (q'.table.pte v).addr = (q.table.pte v).addr ∨ ¬ elsewhere (q'.table.pte v).addr

namespace Relocated

variable {elsewhere : Nat → Prop} {q q' q'' : Proc}

omit [KernelImage] in
theorem refl : Relocated elsewhere q q := ⟨rfl, rfl, rfl, fun _ _ => rfl, fun _ _ _ => .inl rfl⟩

omit [KernelImage] in
theorem trans (first : Relocated elsewhere q q') (second : Relocated elsewhere q' q'') : Relocated elsewhere q q'' where
  pgdir := second.pgdir.trans first.pgdir
  kstack := second.kstack.trans first.kstack
  pde := second.pde.trans first.pde
  present v user := (second.present v user).trans (first.present v user)
  frames v user present := by
    rcases second.frames v user present with same | away
    · rw [same]
      exact first.frames v user (second.present v user ▸ present)
    · exact .inr away

end Relocated

omit [KernelImage] in
theorem Proc.table_setEntry (q : Proc) (va : Nat) (e : Pte) : (q.setEntry va e).table = q.table.setPte (pageOf va) e := by
  simp [Proc.table, Proc.setEntry, Proc.dir, Proc.setDir]

variable [Fintype ι]
variable {elsewhere : Nat → Prop} {q q' : Proc} {s s' : Shared} {va : Nat}

omit [KernelImage] in
theorem Relocated.setEntry (has : (q.dir q.pgdir).Has (pageOf va)) {e : Pte} (present : pageOf va < userPages → e.p = (q.entry va).p)
    (frame : pageOf va < userPages → e.addr = (q.entry va).addr ∨ ¬ elsewhere e.addr) : Relocated elsewhere q (q.setEntry va e) := by
  have entries : (q.setEntry va e).table.pte = update q.table.pte (pageOf va) e := by
    rw [Proc.table_setEntry]
    exact PgDir.pte_setPte has e
  constructor
  case pgdir => rfl
  case kstack => rfl
  case pde => rw [Proc.table_setEntry, PgDir.pde_setPte]
  case present =>
    intro v user
    rw [entries]
    by_cases here : v = pageOf va
    · subst here
      rw [update_self, present user]
      rfl
    · rw [update_of_ne here]
  case frames =>
    intro v user _
    rw [entries]
    by_cases here : v = pageOf va
    · subst here
      rw [update_self]
      exact frame user
    · rw [update_of_ne here]
      exact .inl rfl

theorem FaultRun.relocated (fault : FaultRun s q va (.ok ()) s' q') (decent : Decent s q va)
    (busy : ∀ f, elsewhere f → f ∉ s.kmem.freelist) : Relocated elsewhere q q' := by
  cases fault with
  | promoted has managed one => exact .setEntry has (fun _ => rfl) fun _ => .inl rfl
  | copied mem rest has managed several free =>
    refine .setEntry has (fun _ => ?_) fun _ => .inr fun used => ?_
    · have accessible : q.Accessible va := by
        rcases decent with accessible | foreign | few | empty
        · exact accessible
        · exact absurd managed foreign
        · omega
        · simp [free] at empty
      rw [accessible.1]
      rfl
    · exact busy mem used (by simp [free])
  | exhausted has managed several free => exact ⟨rfl, rfl, rfl, fun _ _ => rfl, fun _ _ _ => .inl rfl⟩

theorem Touched.relocated (touched : Touched va s q s' q') (decent : Decent s q va)
    (busy : ∀ f, elsewhere f → f ∉ s.kmem.freelist) : Relocated elsewhere q q' := by
  obtain ⟨s₁, same | run, -⟩ := touched
  · cases same
    exact .refl
  · obtain ⟨result, s₂, p₂, run', fault⟩ := cowFault_run s q va
    rw [run] at run'
    cases run'
    exact fault.relocated decent busy

variable {c c' : System ι} {t u w : ι} {a : Action ι} {answer : Answer}

omit [Fintype ι] in
theorem act_apart {κ : Kernel} (done : c.act κ a = .ok (answer, c')) (other : w ≠ a.subject) (child : ∀ t, a ≠ .fork t w) :
    c'.proc w = c.proc w ∧ c'.state w = c.state w := by
  have settled : ∃ outcome s p, c' = c.settle a outcome s p := by
    unfold System.act at done
    split at done
    · cases done
      exact ⟨_, _, _, rfl⟩
    · cases done
  obtain ⟨outcome, s, p, rfl⟩ := settled
  unfold System.settle
  split
  · rename_i t u kstack d
    have apart : w ≠ u := fun same => child t (by rw [same])
    have other : w ≠ t := other
    simp [System.adopt, Action.subject, apart, other]
  · rename_i t _
    have other : w ≠ t := other
    simp [System.exit, Action.subject, other]
  · rename_i t _ _
    have other : w ≠ t := other
    simp [System.exit, Action.subject, other]
  · rename_i t
    have other : w ≠ t := other
    simp [System.exit, Action.subject, other]
  · rename_i t u
    have other : w ≠ u := other
    simp [System.reap, Action.subject, other]
  · exact ⟨update_of_ne other .., rfl⟩

section

omit [KernelImage] [Fintype ι]

theorem Effect.used {scarce : Prop} {v v' : View ι} (effect : Effect scarce v a answer v') (used : v.state w ≠ .unused)
    (kept : ∀ t, a ≠ .wait t w) : v'.state w ≠ .unused := by
  have exited : ∀ t, (v.exited t).state w ≠ .unused := by
    intro t
    simp only [View.exited]
    by_cases here : w = t
    · rw [here, update_self]
      decide
    · rwa [update_of_ne here]
  cases effect with
  | forked =>
    rename_i t u
    simp only [View.forked]
    by_cases here : w = u
    · rw [here, update_self]
      decide
    · rwa [update_of_ne here]
  | reaped =>
    rename_i t u
    simp only [View.reaped]
    have other : w ≠ u := fun same => kept t (by rw [same])
    rwa [update_of_ne other]
  | readExits => exact exited _
  | writeExits => exact exited _
  | exited => exact exited _
  | _ => exact used

theorem Effect.child {scarce : Prop} {v v' : View ι} (effect : Effect scarce v (.fork t u) (.flag true) v') :
    v'.state u = .live := by
  cases effect with
  | forked => exact update_self ..

theorem Effect.childless {scarce : Prop} {v v' : View ι} (effect : Effect scarce v (.fork t u) answer v')
    (failed : answer ≠ .flag true) : v' = v := by
  cases effect with
  | forked => exact absurd rfl failed
  | unforked none => rfl

theorem Effect.gone {scarce : Prop} {v v' : View ι} (effect : Effect scarce v (.wait t u) answer v') : v'.state u = .unused := by
  cases effect with
  | reaped => exact update_self ..

end

section Members

variable {r : ι} {kin : Set ι}

omit [DecidableEq ι] [Fintype ι] in
theorem Within.considerate (within : Within r kin c a) : Considerate c a := by
  cases a with
  | read t va => exact within.2
  | write t va byte => exact within.2
  | _ => trivial

omit [DecidableEq ι] [Fintype ι] in
theorem Within.subject (within : Within r kin c a) : a.subject = r ∨ a.subject ∈ kin := by
  cases a with
  | fork t u => exact within
  | read t va => exact within.1
  | write t va byte => exact within.1
  | _ => exact .inr within

omit [KernelImage] [DecidableEq ι] [Fintype ι] in
theorem mem_descendants : w ∈ descendants kin a answer ↔
    (w ∈ kin ∧ ∀ t, a ≠ .wait t w) ∨ ∃ t, a = .fork t w ∧ answer = .flag true := by
  cases a with
  | fork t u =>
    by_cases success : answer = .flag true
    · subst success
      simp [descendants, or_comm, eq_comm]
    · have same : descendants kin (.fork t u) answer = kin := by
        unfold descendants
        split
        · rename_i forks
          cases forks
          exact absurd rfl success
        · rename_i waits
          cases waits
        · rfl
      simp [same, success]
  | wait t u => simp [descendants, eq_comm]
  | _ => simp [descendants]

end Members

omit [KernelImage] [Fintype ι] in
theorem settle_read {s : Shared} {p : Proc} {touch : Touch} : (c.settle (.read t va) (.touch touch) s p).proc t = p := by
  cases touch <;> exact update_self ..

omit [KernelImage] [Fintype ι] in
theorem settle_write {s : Shared} {p : Proc} {touch : Touch} {byte : UInt8} :
    (c.settle (.write t va byte) (.touch touch) s p).proc t = p := by
  cases touch <;> exact update_self ..

theorem fork_relocated {elsewhere : Nat → Prop} (sane : Sane (execSetting ι .cow) c) (legal : (Action.fork t u).Legal c)
    (done : c.act .cow (.fork t u) = .ok (answer, c')) : Relocated elsewhere (c.proc t) (c'.proc t) := by
  obtain ⟨child, s, p, run, rfl, rfl⟩ := (act_iff (a := .fork t u) (c := c) rfl).mp done
  have supplied : Sustained (execSetting ι .cow) (fork .cow (c.proc t).pgdir (c.proc t).sz) c t := Setting.Calm.supplied_scarce trivial _ _
  have after := fork_after sane legal rfl (fun strict => absurd strict id) supplied run
  obtain ⟨pgdir, kstack, pde⟩ := after.pages
  have entries : ∀ v, (((c.settle (.fork t u) (.forked child) s p).table t).pte v).p = ((c.table t).pte v).p ∧
      (((c.settle (.fork t u) (.forked child) s p).table t).pte v).addr = ((c.table t).pte v).addr := by
    intro v
    rcases after.parent v with same | ⟨-, weaker⟩
    · rw [same]
      exact ⟨rfl, rfl⟩
    · rw [weaker]
      exact ⟨rfl, rfl⟩
  exact ⟨pgdir, kstack, pde, fun v _ => (entries v).1, fun v _ _ => .inl (entries v).2⟩

def System.Elsewhere (c : System ι) (r : ι) (f : Nat) : Prop := ∃ w, w ≠ r ∧ 0 < held (c.proc w).refs f

/-- What holds of a family in a run that began in state `start`. -/
structure Kin (r : ι) (start c : System ι) (kin : Set ι) : Prop where
  sane : Sane (execSetting ι .cow) c
  fenced : ∃ g, Fenced c.view g
  complete : Complete c.shared
  root : r ∉ kin ∧ c.state r ≠ .unused
  fresh : ∀ w ∈ kin, start.state w = .unused ∧ c.state w ≠ .unused
  others : ∀ w, w ≠ r → w ∉ kin → c.state w = start.state w ∧ (c.proc w).dirs = (start.proc w).dirs ∧
    (c.proc w).kpages = (start.proc w).kpages
  own : Relocated (start.Elsewhere r) (start.proc r) (c.proc r)

namespace Kin

variable {r : ι} {start : System ι} {kin : Set ι}

omit [DecidableEq ι] in
theorem busy (family : Kin r start c kin) (sane : Sane (execSetting ι .cow) start) {f : Nat} (used : start.Elsewhere r f) :
    f ∉ c.shared.kmem.freelist := by
  obtain ⟨w, other, holds⟩ := used
  obtain ⟨mark, calm⟩ := family.sane.calm
  have same : (c.proc w).refs = (start.proc w).refs := by
    by_cases member : w ∈ kin
    · have none := (sane.vacant w (family.fresh w member).1).refs
      simp only [held, none, Nat.lt_irrefl] at holds
    · obtain ⟨-, dirs, kpages⟩ := family.others w other member
      exact Proc.refs_congr dirs kpages
  intro free
  have reader := calm.unheld free w .reader
  have writer := calm.unheld free w .writer
  have owner := calm.unheld free w .owner
  rw [same] at reader writer owner
  simp only [held, reader, writer, owner, Nat.lt_irrefl] at holds

/-- What the process itself does moves none of its pages, but for copies to free frames. -/
theorem moved (family : Kin r start c kin) (sane : Sane (execSetting ι .cow) start) (legal : a.Legal c) (within : Within r kin c a)
    (done : c.act .cow a = .ok (answer, c')) (mine : a.subject = r) : Relocated (start.Elsewhere r) (c.proc r) (c'.proc r) := by
  have busy : ∀ f, start.Elsewhere r f → f ∉ c.shared.kmem.freelist := fun f => family.busy sane
  have stranger : a.subject ∉ kin := mine ▸ family.root.1
  cases a with
  | fork t u =>
    obtain rfl : t = r := mine
    exact fork_relocated family.sane legal done
  | read t va =>
    obtain rfl : t = r := mine
    obtain ⟨touch, s, p, run, rfl, rfl⟩ := (act_iff (a := .read t va) (c := c) rfl).mp done
    rw [settle_read]
    exact (touchRead_touched run).relocated within.2 busy
  | write t va byte =>
    obtain rfl : t = r := mine
    obtain ⟨touch, s, p, run, rfl, rfl⟩ := (act_iff (a := .write t va byte) (c := c) rfl).mp done
    rw [settle_write]
    exact (touchWrite_touched run).relocated within.2 busy
  | _ => exact absurd within stranger

theorem act (family : Kin r start c kin) (sane : Sane (execSetting ι .cow) start) (legal : a.Legal c) (within : Within r kin c a)
    (done : c.act .cow a = .ok (answer, c')) : Kin r start c' (descendants kin a answer) := by
  obtain ⟨g, fenced⟩ := family.fenced
  have acted := considerate_acted family.sane fenced legal within.considerate done
  have used : ∀ w, c.state w ≠ .unused → (∀ t, a ≠ .wait t w) → c'.state w ≠ .unused := fun w => acted.effect.used
  have unused : ∀ t w, a = .fork t w → c.state w = .unused := by
    rintro t w rfl
    exact legal.2
  have apart : ∀ t w, a = .fork t w → w ≠ r ∧ w ∉ kin := by
    intro t w forks
    have none := unused t w forks
    exact ⟨fun same => family.root.2 (same ▸ none), fun member => (family.fresh w member).2 none⟩
  constructor
  case sane => exact acted.sane
  case fenced =>
    refine ⟨_, fenced.next legal (fun t used => ?_) acted.effect rfl⟩
    obtain ⟨x, occupied⟩ := family.sane.occupied t used
    exact occupied.size
  case complete => exact act_complete family.sane rfl family.complete done
  case root =>
    constructor
    · intro member
      rcases mem_descendants.mp member with ⟨old, -⟩ | ⟨t, forks, -⟩
      · exact family.root.1 old
      · exact (apart t r forks).1 rfl
    · apply used r family.root.2
      rintro t rfl
      exact family.root.1 within
  case fresh =>
    intro w member
    rcases mem_descendants.mp member with ⟨old, kept⟩ | ⟨t, forks, success⟩
    · obtain ⟨before, now⟩ := family.fresh w old
      exact ⟨before, used w now kept⟩
    · obtain ⟨other, outside⟩ := apart t w forks
      have none := unused t w forks
      subst forks success
      rw [(family.others w other outside).1] at none
      have live : c'.view.state w = .live := acted.effect.child
      refine ⟨none, ?_⟩
      rw [show c'.state w = .live from live]
      decide
  case others =>
    intro w other outside
    by_cases none : c'.state w = .unused ∧ start.state w = .unused
    · have vacant := acted.sane.vacant w none.1
      have vacant' := sane.vacant w none.2
      exact ⟨none.1.trans none.2.symm, vacant.dirs.trans vacant'.dirs.symm, vacant.kpages.trans vacant'.kpages.symm⟩
    · have outside' : w ∉ kin := by
        intro member
        refine outside (mem_descendants.mpr (.inl ⟨member, ?_⟩))
        rintro t rfl
        exact none ⟨acted.effect.gone, (family.fresh w member).1⟩
      have same := family.others w other outside'
      have childless : ∀ t, a ≠ .fork t w := by
        rintro t rfl
        have failed : answer ≠ .flag true := fun success => outside (mem_descendants.mpr (.inr ⟨t, rfl, success⟩))
        have before : c.state w = .unused := legal.2
        have after : c'.view.state w = c.state w := congrArg (View.state · w) (acted.effect.childless failed)
        exact none ⟨after.trans before, same.1 ▸ before⟩
      have unsubject : w ≠ a.subject := by
        rcases within.subject with mine | descends
        · exact mine ▸ other
        · exact fun here => outside' (here ▸ descends)
      obtain ⟨proc, state⟩ := act_apart done unsubject childless
      rw [proc, state]
      exact same
  case own =>
    by_cases mine : a.subject = r
    · exact family.own.trans (family.moved sane legal within done mine)
    · have idle : ∀ t, a ≠ .fork t r := fun t forks => (apart t r forks).1 rfl
      rw [(act_apart done (Ne.symm mine) idle).1]
      exact family.own

theorem first {g : ι → Set Nat} (guards : Guarded Considerate start g) (used : start.state r ≠ .unused) : Kin r start start ∅ where
  sane := guards.sound.1
  fenced := ⟨g, guards.sound.2⟩
  complete := guards.complete
  root := ⟨Set.notMem_empty r, used⟩
  fresh w member := absurd member (Set.notMem_empty w)
  others _ _ _ := ⟨rfl, rfl, rfl⟩
  own := .refl

end Kin

theorem Family.kin {r : ι} {start : System ι} {kin : Set ι} {g : ι → Set Nat} (family : Family r start c kin)
    (guards : Guarded Considerate start g) (used : start.state r ≠ .unused) : Kin r start c kin := by
  induction family with
  | start => exact .first guards used
  | act family legal within done ih => exact ih.act guards.sound.1 legal within done

end Xv6
