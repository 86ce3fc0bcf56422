import Xv6.Cow.Clients
import Xv6.System.Fault

namespace Xv6

open CommandProgram Function Ledger

variable [KernelImage] {ι : Type} [Fintype ι] [DecidableEq ι]
variable {S : Setting ι} {c : System ι} {s s' : Shared} {p p' : Proc} {mark : Nat → Mark} {t u : ι} {va : Nat} {byte : UInt8} {x : PgDir}

def Proc.Accessible (p : Proc) (va : Nat) : Prop := (p.entry va).p = true ∧ (p.entry va).u = true

/-- `COW_FAULT` does not copy a page that user code may not touch. -/
def Decent (s : Shared) (p : Proc) (va : Nat) : Prop :=
  p.Accessible va ∨ ¬ Managed (p.entry va).addr ∨ s.kmem.page_rCount (p.entry va).addr ≤ 1 ∨ s.kmem.freelist = []

theorem Occupied.entry_eq (occupied : Occupied p x) : p.entry va = x.pte (pageOf va) := by
  rw [Proc.entry, occupied.dir]

theorem Occupied.accessible_user (occupied : Occupied p x) (accessible : p.Accessible va) : pageOf va < userPages := by
  by_contra high
  have privilege := accessible.2
  rw [occupied.entry_eq, occupied.kernel _ (by omega), kmapPte_unprivileged] at privilege
  exact absurd privilege (by decide)

/-- What a fault leaves: another table at most, and the same memory for everyone. -/
structure AfterFault (S : Setting ι) (c : System ι) (t : ι) (va : Nat) (s : Shared) (p : Proc) : Prop where
  calm : ∃ mark, S.Calm s (update c.proc t p) mark
  occupied : ∃ x, Occupied p x
  memory : ∀ w, (c.ran t s p).memory w = c.memory w
  size : p.sz = (c.proc t).sz
  others : ∀ v, v ≠ pageOf va → p.table.pte v = (c.table t).pte v

theorem Occupied.setEntry (occupied : Occupied p x) (has : (p.dir p.pgdir).Has (pageOf va)) {e : Pte}
    (kernel : userPages ≤ pageOf va → e = p.entry va) :
    p.setEntry va e = p.setDir p.pgdir (x.setPte (pageOf va) e) ∧
      (x.setPte (pageOf va) e).pte = update x.pte (pageOf va) e ∧
      Occupied (p.setEntry va e) (x.setPte (pageOf va) e) := by
  rw [occupied.dir] at has
  have entries := PgDir.pte_setPte has e
  have same : p.setEntry va e = p.setDir p.pgdir (x.setPte (pageOf va) e) := by rw [Proc.setEntry, occupied.dir]
  refine ⟨same, entries, ?_⟩
  rw [same]
  apply occupied.setDir
  intro v high
  rw [entries]
  by_cases here : v = pageOf va
  · subst here
    rw [update_self, kernel high, occupied.entry_eq]
  · rw [update_of_ne here]

theorem AfterFault.of_opened (occupied : Occupied (c.proc t) x) (has : ((c.proc t).dir (c.proc t).pgdir).Has (pageOf va))
    (kernel : userPages ≤ pageOf va → { (c.proc t).entry va with w := true } = (c.proc t).entry va)
    (calm : S.Calm c.shared (update c.proc t ((c.proc t).setEntry va { (c.proc t).entry va with w := true })) mark) :
    AfterFault S c t va c.shared ((c.proc t).setEntry va { (c.proc t).entry va with w := true }) := by
  obtain ⟨same, entries, occupied'⟩ := occupied.setEntry has kernel
  rw [occupied.entry_eq] at *
  constructor
  case calm => exact ⟨mark, calm⟩
  case occupied => exact ⟨_, occupied'⟩
  case memory =>
    intro w
    by_cases here : w = t
    · subst here
      simp only [System.memory, System.table, update_self, occupied'.table, occupied.table]
      apply memory_eq
      · intro v _
        by_cases faulted : v = pageOf va
        · subst faulted
          simp [entries]
        · simp [entries, faulted]
      · intro v _ _
        by_cases faulted : v = pageOf va
        · subst faulted
          simp [entries]
        · simp [entries, faulted]
    · simp only [System.memory, System.table, update_of_ne here]
  case size => rfl
  case others =>
    intro v other
    rw [occupied'.table, System.table, occupied.table, entries, update_of_ne other]

theorem Setting.Calm.setEntry (calm : S.Calm c.shared c.proc mark) (occupied : Occupied (c.proc t) x)
    (has : ((c.proc t).dir (c.proc t).pgdir).Has (pageOf va)) {e : Pte}
    (same : pageOf va < userPages → e.refs = ((c.proc t).entry va).refs) :
    ∃ mark', S.Calm c.shared (update c.proc t ((c.proc t).setEntry va e)) mark' := by
  rw [occupied.dir] at has
  rw [occupied.entry_eq] at same
  have outline : S.Outline (ask (.setPte (c.proc t).pgdir (pageOf va) e)) (c.proc t) (.calm c.shared mark)
      (fun _ _ gh' => Rested gh') := by
    rw [← Program.bind_ret (ask _)]
    apply setPte_keep_rule occupied.at_pgdir has same fun _ claim => claim
    exact fun _ => pure_rule (Gh.resting_rested _)
  have supplied : Sustained S (ask (.setPte (c.proc t).pgdir (pageOf va) e)) c t := by
    rw [← Program.bind_ret (ask _)]
    exact along_ask (fun wrong => absurd wrong (by simp)) (along_pure trivial)
  have done : Program.run (execute S.kernel) (ask (.setPte (c.proc t).pgdir (pageOf va) e)) (c.shared, c.proc t) =
      (.ok (), (c.shared, (c.proc t).setEntry va e)) := rfl
  obtain ⟨_, mark', _, change⟩ := calm.change outline supplied (fun _ _ _ rested => rested) done
  exact ⟨mark', change.calm⟩

theorem fault_after (cow : S.kernel = .cow) (sane : Sane S c) (used : c.state t ≠ .unused)
    (decent : Decent c.shared (c.proc t) va)
    (supplied : Sustained S (cowFault (c.proc t).pgdir va) c t)
    (done : Program.run (execute .cow) (cowFault (c.proc t).pgdir va) (c.shared, c.proc t) = (.ok (), (s, p))) :
    AfterFault S c t va s p := by
  obtain ⟨x, occupied⟩ := sane.occupied t used
  obtain ⟨mark, calm⟩ := sane.calm
  obtain ⟨result, s', p', run, fault⟩ := cowFault_run c.shared (c.proc t) va
  rw [run] at done
  simp only [Prod.mk.injEq] at done
  obtain ⟨rfl, rfl, rfl⟩ := done
  have change : pageOf va < userPages → (x.pte (pageOf va)).p = true → ∃ gh' mark',
      S.Change c.shared c.proc mark t s' p' gh' mark' ∧ SeesAs (c.proc t, .calm c.shared mark) (p', gh') := by
    intro user present
    have outline : S.Outline (cowFault (c.proc t).pgdir va) (c.proc t) (.calm c.shared mark) _ :=
      cowFault_outline cow occupied.at_pgdir user present (fun _ claim => claim) (fun _ => rfl)
    rw [← cow] at run
    obtain ⟨gh', mark', ⟨_, _, _, sees⟩, change⟩ := calm.change outline supplied
      (fun _ _ _ post => ⟨post.2.1, post.2.2.1⟩) run
    exact ⟨gh', mark', change, sees⟩
  cases fault with
  | promoted has managed one =>
    have kernel : userPages ≤ pageOf va → { (c.proc t).entry va with w := true } = (c.proc t).entry va := by
      intro high
      have entry : (c.proc t).entry va = kmapPte (pageOf va) := by rw [occupied.entry_eq, occupied.kernel _ high]
      have writable : ((c.proc t).entry va).w = true := by
        rw [entry] at managed ⊢
        exact kmapPte_writable managed
      rw [← writable]
    by_cases mapped : pageOf va < userPages ∧ (x.pte (pageOf va)).p = true
    · obtain ⟨gh', mark', change, _⟩ := change mapped.1 mapped.2
      exact .of_opened occupied has kernel change.calm
    · obtain ⟨mark', calm'⟩ := calm.setEntry occupied has (e := { (c.proc t).entry va with w := true }) fun user => by
        have absent : ((c.proc t).entry va).p = false := by
          rw [occupied.entry_eq]
          simpa [user] using mapped
        funext k f
        rw [Pte.refs_zero absent, Pte.refs_zero (e := { (c.proc t).entry va with w := true }) absent]
      exact .of_opened occupied has kernel calm'
  | copied mem rest has managed several free =>
    have accessible : (c.proc t).Accessible va := by
      rcases decent with accessible | foreign | few | empty
      · exact accessible
      · exact absurd managed foreign
      · omega
      · simp [free] at empty
    have user := occupied.accessible_user accessible
    have present : (x.pte (pageOf va)).p = true := by
      rw [← occupied.entry_eq]
      exact accessible.1
    obtain ⟨gh', mark', change, sees⟩ := change user present
    obtain ⟨same, entries, occupied'⟩ := occupied.setEntry has (e := .make mem permWU) fun high => by omega
    constructor
    case calm => exact ⟨mark', change.calm⟩
    case occupied => exact ⟨_, occupied'⟩
    case memory =>
      intro w
      by_cases here : w = t
      · subst here
        simp only [System.memory, System.table, update_self, occupied'.table, occupied.table]
        apply memory_eq
        · intro v _
          by_cases faulted : v = pageOf va
          · subst faulted
            rw [entries, update_self, present]
            rfl
          · simp [entries, faulted]
        · intro v below shown
          by_cases faulted : v = pageOf va
          · subst faulted
            have privilege := accessible.2
            rw [occupied.entry_eq] at privilege
            rw [entries, update_self]
            refine ⟨by rw [privilege]; rfl, ?_⟩
            simp [Shared.copied, Shared.setPage, Shared.dRCount, Pte.make, Shared.kalloc, free, occupied.entry_eq]
          · rw [entries, update_of_ne faulted]
            refine ⟨rfl, ?_⟩
            have at_pgdir := occupied'.at_pgdir
            have page := change.page at_pgdir below (by rw [entries, update_of_ne faulted, shown])
            rw [entries, update_of_ne faulted] at page
            rw [page]
            exact sees _ (calm.held occupied.at_pgdir below shown _)
      · exact sane.memory_others calm change here
    case size => rfl
    case others =>
      intro v other
      rw [occupied'.table, System.table, occupied.table, entries, update_of_ne other]
  | exhausted has managed several free =>
    refine ⟨⟨mark, calm.fields fun w => ?_⟩, ⟨x, ⟨occupied.dirs, occupied.kpages, occupied.size, occupied.kernel⟩⟩,
      fun w => ?_, rfl, fun _ _ => rfl⟩
    · by_cases here : w = t
      · subst here
        simp
      · simp [here]
    · by_cases here : w = t
      · subst here
        simp only [System.memory, System.table, update_self]
        rfl
      · simp only [System.memory, System.table, update_of_ne here]

end Xv6
