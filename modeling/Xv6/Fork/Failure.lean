import Xv6.Books.Image
import Xv6.Books.Processes
import Xv6.Cow.Sharers
import Xv6.Cow.Restored
import Xv6.Fork.Code
import Xv6.Fork.Writes
import Xv6.Memory.Refusal

namespace Xv6

open CommandProgram Program Function Ledger Discipline

variable [KernelImage]

namespace Fork

variable {nextpid pgdir sz : Nat} {slot : Option Child}

omit [KernelImage] in
theorem allocproc_heeds : (allocproc nextpid slot).Heeds NoPage (fun found => found.2 = false) := by
  unfold allocproc
  cases slot with
  | none => exact heeds_ret
  | some p =>
    refine heeds_option heeds_kalloc ?_ heeds_ret fun kstack => ?_
    · exact returns_ret rfl
    · exact heeds_after (by simp) fun _ => heeds_ret

theorem fork_heeds : (fork nextpid slot pgdir sz).Heeds NoPage (fun result => result.1 = -1) := by
  unfold fork
  apply heeds_bind allocproc_heeds
  · rintro ⟨_ | np, _⟩ rfl
    · exact returns_ret rfl
    · exact returns_ret rfl
  · rintro ⟨_ | np, _ | _⟩
    · exact heeds_ret
    · exact heeds_ret
    · exact heeds_ret
    · refine heeds_option copyuvm_heeds ?_ ?_ fun d => heeds_ret
      · exact returns_bind (returns_any _) fun _ _ => returns_bind (returns_any _) fun _ _ => returns_ret rfl
      · exact heeds_after (by simp) fun _ => Freeing.heeds (uses_bind kfree_uses fun _ => uses_pure)

/-- A child that did not come about has given its slot back. -/
def Vacated (slot : Option Child) (result : Int × Option Child) : Prop :=
  result.2.isSome = slot.isSome ∧ (result.1 = -1 → ∀ np, result.2 = some np → np.state = .unused ∧ np.kstack = 0)

omit [KernelImage] in
theorem allocproc_returns : (allocproc nextpid slot).Returns fun found =>
    found.1.isSome = slot.isSome ∧ (found.2 = false → ∀ np, found.1 = some np → np.state = .unused ∧ np.kstack = 0) := by
  unfold allocproc
  cases slot with
  | none => exact returns_ret ⟨rfl, fun _ np wrong => by cases wrong⟩
  | some p =>
    refine returns_bind (returns_any _) fun page _ => ?_
    cases page with
    | none =>
      refine returns_ret ⟨rfl, fun _ np same => ?_⟩
      cases same
      exact ⟨rfl, rfl⟩
    | some kstack => exact returns_bind (returns_any _) fun _ _ => returns_ret ⟨rfl, fun wrong => by cases wrong⟩

theorem fork_returns : (fork nextpid slot pgdir sz).Returns (Vacated slot) := by
  unfold fork
  refine returns_bind allocproc_returns fun found left => ?_
  obtain ⟨_ | np, _ | _⟩ := found
  · exact returns_ret ⟨left.1, fun _ => left.2 rfl⟩
  · exact returns_ret ⟨left.1, fun _ np wrong => by cases wrong⟩
  · exact returns_ret ⟨left.1, fun _ => left.2 rfl⟩
  · refine returns_bind (returns_any _) fun new _ => ?_
    cases new with
    | none =>
      refine returns_bind (returns_any _) fun _ _ => returns_bind (returns_any _) fun _ _ => returns_ret ⟨left.1, fun _ np same => ?_⟩
      cases same
      exact ⟨rfl, rfl⟩
    | some d =>
      refine returns_ret ⟨left.1, fun wrong => ?_⟩
      dsimp only at wrong
      omega

theorem run_failed {np : Child} {result : Int × Option Child} {state state' : Shared × Proc}
    (ran : run (execute .cow) (fork nextpid (some np) pgdir sz) state = (.ok result, state')) (failed : result.1 = -1) :
    run (execute .cow) (Xv6.fork .cow pgdir sz) state = (.ok none, state') := by
  have nobody : made result = none := by
    obtain ⟨-, vacated⟩ := fork_returns.result ran
    obtain ⟨value, _ | child⟩ := result
    · rfl
    · have unused := (vacated failed child rfl).1
      simp [made, unused]
  rw [run_memory nextpid np, ran, ← nobody]
  rfl

theorem fork_uses {allowed : Cmd → Prop} (maps : Maps allowed fun _ => True) (keep : ∀ pa, allowed (.keep pa))
    (unkeep : ∀ pa, allowed (.unkeep pa)) : (fork nextpid slot pgdir sz).Uses allowed := by
  unfold fork allocproc
  cases slot with
  | none => exact uses_pure
  | some p =>
    simp only [bind_assoc]
    refine uses_bind (uses_ask maps.kalloc) fun page => ?_
    cases page with
    | none => exact uses_pure
    | some kstack =>
      simp only [bind_assoc, pure_bind]
      refine uses_bind (uses_ask (keep _)) fun _ => uses_bind (copyuvm_maps maps) fun new => ?_
      cases new with
      | none => exact uses_bind (uses_ask (unkeep _)) fun _ => uses_bind (kfree_frees maps.toFrees) fun _ => uses_pure
      | some d => exact uses_pure

end Fork

omit [KernelImage] in
theorem held_setDir {p : Proc} {d : Nat} {x : PgDir} (bound : d < frames) (at_d : p.dirs d = some x) (x' : PgDir) (f : Nat) :
    held (p.setDir d x').refs f + held (x.refs d) f = held p.refs f + held (x'.refs d) f := by
  have reader := Proc.refs_setDir bound at_d x' .reader f
  have writer := Proc.refs_setDir bound at_d x' .writer f
  have owner := Proc.refs_setDir bound at_d x' .owner f
  unfold held
  omega

omit [KernelImage] in
theorem PgDir.Weakened.held {x x' : PgDir} {last : Nat} (weak : x.Weakened x' last) (d f : Nat) :
    Ledger.held (x'.refs d) f = Ledger.held (x.refs d) f := by
  have maps : x'.maps f = x.maps f := by
    unfold PgDir.maps
    refine Finset.sum_congr rfl fun v _ => ?_
    rcases weak.entries v with same | ⟨_, weaker⟩
    · rw [same]
    · rw [weaker]
  have owns : x'.owns d f = x.owns d f := by
    unfold PgDir.owns
    rw [weak.pde]
  rw [held_dir, held_dir, maps, owns]

section

variable {ι : Type} [Fintype ι] [DecidableEq ι]
variable {S : Setting ι} {s s' : Shared} {own : ι → Proc} {mark : Nat → Mark} {t : ι} {p p' : Proc} {x x' : PgDir} {va : Nat}

theorem Restored.refl (s : Shared) : Restored s s := ⟨rfl, fun _ => Iff.rfl, rfl, fun _ _ _ => rfl⟩

omit [KernelImage] in
theorem Proc.entry_of {p : Proc} (at_pgdir : p.dirs p.pgdir = some x) (va : Nat) : p.entry va = x.pte (pageOf va) := by
  rw [Proc.entry, Proc.dir_of at_pgdir]

omit [DecidableEq ι] in
theorem Setting.Calm.count_writer (calm : S.Calm s own mark) (cow : S.kernel = .cow) {d v : Nat}
    (at_d : (own t).dirs d = some x) (user : v < userPages) (present : (x.pte v).p = true) (writable : (x.pte v).w = true) :
    Managed (x.pte v).addr ∧ s.kmem.page_rCount (x.pte v).addr = 1 := by
  have bound := calm.bound at_d
  have holds : Held (own t, .calm s mark) (x.pte v).addr := held_of_pte bound at_d user present
  rw [calm.count_held cow holds]
  obtain ⟨count, inv⟩ := calm
  have writes : 0 < (account (own t) (.calm s mark)).tally .writer (x.pte v).addr :=
    tally_of_pte bound at_d user present (by simp [writable])
  exact ⟨inv.managed_of_held (t := t) rfl holds, inv.books.alone t _ (.inl writes)⟩

omit [DecidableEq ι] in
/-- A page that the parent could write before it still can: what lost its permission has one user, who gets it back. -/
theorem Setting.Calm.writable_kept (calm : S.Calm s own mark) (cow : S.kernel = .cow) (at_pgdir : p.dirs p.pgdir = some x)
    (dirs : (own t).dirs = p.dirs) {last : Nat} (user : last ≤ userPages) (weak : x.Weakened x' last) (restored : Restored s s')
    (alive : p.killed = false) (writable : Writable s p va) : Writable s' (p.setDir p.pgdir x') va := by
  have at_pgdir' : (p.setDir p.pgdir x').dirs (p.setDir p.pgdir x').pgdir = some x' := update_self ..
  have has : ((p.setDir p.pgdir x').dir p.pgdir).Has (pageOf va) ↔ (p.dir p.pgdir).Has (pageOf va) := by
    rw [Proc.dir_setDir, Proc.dir_of at_pgdir]
    unfold PgDir.Has
    rw [weak.pde]
  have free : s'.kmem.freelist ≠ [] ↔ s.kmem.freelist ≠ [] := by
    simp only [ne_eq, List.eq_nil_iff_forall_not_mem, restored.free]
  unfold Writable Countable at *
  rw [Proc.entry_of at_pgdir', restored.counts, free]
  rw [Proc.entry_of at_pgdir] at writable
  change _ ∨ p.killed = false ∧ (((p.setDir p.pgdir x').dir p.pgdir).Has (pageOf va) ∧ _) ∧ _
  rw [has]
  rcases weak.entries (pageOf va) with same | ⟨below, weaker⟩
  · rw [same]
    exact writable
  · rw [weaker]
    rcases writable with granted | rest
    · rw [Pte.allows] at granted
      simp only [ne_eq, not_true_eq_false, decide_false, Bool.false_or, Bool.not_true, Bool.and_eq_true] at granted
      obtain ⟨⟨present, permitted⟩, unprivileged⟩ := granted
      obtain ⟨managed, one⟩ := calm.count_writer cow (dirs ▸ at_pgdir) (Nat.lt_of_lt_of_le below user) present permitted
      have here : (p.dir p.pgdir).Has (pageOf va) := by
        rw [Proc.dir_of at_pgdir]
        exact PgDir.has_of_present present
      exact .inr ⟨alive, ⟨here, managed, Nat.lt_of_lt_of_eq Nat.zero_lt_one one.symm⟩, .inl ⟨one, present, unprivileged⟩⟩
    · exact .inr rest

/-- A `fork` that failed has left everything as it was, but for the parent's pages that are marked for copying. -/
structure Undone (s : Shared) (p : Proc) (x : PgDir) (s' : Shared) (p' : Proc) : Prop where
  restored : Restored s s'
  contents : ∀ f, f ∉ s.kmem.freelist → s'.ram f = s.ram f
  parent : ∃ x', x.Weakened x' (pgRoundUp p.sz) ∧ p' = p.setDir p.pgdir x'
  writes : p.killed = false → ∀ va byte s₁ p₁,
    run (execute .cow) (touchWrite .cow p.pgdir va byte) (s, p) = (.ok .written, (s₁, p₁)) →
    ∃ s₂ p₂, run (execute .cow) (touchWrite .cow p'.pgdir va byte) (s', p') = (.ok .written, (s₂, p₂)) ∧
      (s'.kmem.page_rCount (p'.entry va).addr = 1 → s₂.kmem = s'.kmem)

omit [DecidableEq ι] in
theorem Setting.Calm.undone (calm : S.Calm s own mark) (cow : S.kernel = .cow) (at_pgdir : (own t).dirs (own t).pgdir = some x)
    (size : (own t).sz ≤ kernBase) (weak : x.Weakened x' (pgRoundUp (own t).sz)) (restored : Restored s s')
    (contents : ∀ f, f ∉ s.kmem.freelist → s'.ram f = s.ram f) :
    Undone s (own t) x s' ((own t).setDir (own t).pgdir x') := by
  refine ⟨restored, contents, ⟨x', weak, rfl⟩, fun alive va byte s₁ p₁ ran => ?_⟩
  have user : pgRoundUp (own t).sz ≤ userPages := roundUp_user size
  obtain ⟨result, _, _, same, before, -⟩ := touchWrite_cases s (own t) va byte
  rw [ran] at same
  simp only [Prod.mk.injEq] at same
  have writable := before.mp same.1.symm
  have writable' := calm.writable_kept cow at_pgdir rfl user weak restored alive writable
  obtain ⟨result', s₂, p₂, ran', after, unused⟩ := touchWrite_cases s' ((own t).setDir (own t).pgdir x') va byte
  rw [after.mpr writable'] at ran'
  exact ⟨s₂, p₂, ran', unused⟩

variable {nextpid : Nat} {slot : Option Fork.Child} {result : Int × Option Fork.Child}

theorem fork_undone (calm : (clientSetting ι).Calm s own mark) (complete : Complete s)
    (at_pgdir : (own t).dirs (own t).pgdir = some x) (size : (own t).sz ≤ kernBase)
    (ran : run (execute .cow) (Fork.fork nextpid slot (own t).pgdir (own t).sz) (s, own t) = (.ok result, (s', p')))
    (failed : result.1 = -1) : Undone s (own t) x s' p' := by
  have harmless : (Fork.fork nextpid slot (own t).pgdir (own t).sz).Uses Harmless :=
    Fork.fork_uses .harmless (fun _ => ⟨⟩) fun _ => ⟨⟩
  have whole : ∀ {x'}, x.Weakened x' (pgRoundUp (own t).sz) → p' = (own t).setDir (own t).pgdir x' → Restored s s' →
      (∀ f, ¬ Available f → s'.ram f = s.ram f) → Undone s (own t) x s' p' := by
    intro x' weak own' restored foreign
    rw [own']
    refine calm.undone rfl at_pgdir size weak restored fun f busy => ?_
    by_cases available : Available f
    · exact restored.contents f available busy
    · exact foreign f available
  cases slot with
  | none =>
    have same : ((-1, none), (s, own t)) = (result, (s', p')) := by
      have value : run (execute .cow) (Fork.fork nextpid none (own t).pgdir (own t).sz) (s, own t) = (.ok (-1, none), (s, own t)) := rfl
      rw [value] at ran
      simpa using ran
    simp only [Prod.mk.injEq] at same
    obtain ⟨-, rfl, rfl⟩ := same
    exact whole (.refl x _) (Proc.setDir_self at_pgdir).symm (.refl s) fun _ _ => rfl
  | some np =>
    have ran' := Fork.run_failed ran failed
    have outline : (clientSetting ι).Outline (Xv6.fork .cow (own t).pgdir (own t).sz) (own t) (.calm s mark) _ :=
      fork_outline at_pgdir size (fun _ claim => claim) (fun _ => rfl) fun strict => absurd strict id
    have supplied : Along (execute .cow) (clientSetting ι).Supplied (fun _ _ => True) (Xv6.fork .cow (own t).pgdir (own t).sz) (s, own t) :=
      (Program.along_true _ _).weaken fun _ _ _ _ => .inl trivial
    have byteless : (Xv6.fork .cow (own t).pgdir (own t).sz).Uses Byteless := by
      rw [← Fork.fork_memory nextpid np]
      exact uses_bind (Fork.fork_uses .byteless (fun _ => ⟨⟩) fun _ => ⟨⟩) fun _ => uses_pure
    obtain ⟨gh', mark', ⟨-, -, x', weak, -, -, own', sees⟩, change⟩ := calm.change outline
      supplied (fun _ _ _ post => ⟨post.1, post.2.1⟩) ran'
    have same : p' = (own t).setDir (own t).pgdir x' := own'
    refine whole weak same (change.restored calm rfl complete (complete.ran harmless ran) (fun f => ?_) sees) fun f foreign =>
      Byteless.ran byteless ((calm.frees outline supplied).weaken fun _ _ frees free => foreign (frees f free)) ran'
    have exchange := held_setDir (calm.bound at_pgdir) at_pgdir x' f
    rw [weak.held] at exchange
    rw [same]
    omega

theorem fork_ends (nextpid : Nat) (slot : Option Fork.Child) (calm : (clientSetting ι).Calm s own mark) (at_pgdir : (own t).dirs (own t).pgdir = some x)
    (size : (own t).sz ≤ kernBase) (present : ∀ v, v < pgRoundUp (own t).sz → (x.pte v).p = true) :
    ∃ result s' p', run (execute .cow) (Fork.fork nextpid slot (own t).pgdir (own t).sz) (s, own t) = (.ok result, (s', p')) := by
  rcases ran : run (execute .cow) (Fork.fork nextpid slot (own t).pgdir (own t).sz) (s, own t) with ⟨halt | result, s', p'⟩
  · exfalso
    cases slot with
    | none =>
      have value : run (execute .cow) (Fork.fork nextpid none (own t).pgdir (own t).sz) (s, own t) = (.ok (-1, none), (s, own t)) := rfl
      rw [value] at ran
      cases ran
    | some np =>
      let T : Setting ι := ⟨.cow, True, True, fun _ => false⟩
      have outline : T.Outline (Xv6.fork .cow (own t).pgdir (own t).sz) (own t) (.calm s mark) _ :=
        fork_outline at_pgdir size (fun _ claim => claim) (fun _ => rfl) fun _ => present
      have memory := Fork.run_memory nextpid np (own t).pgdir (own t).sz (s, own t)
      rw [ran] at memory
      have calm' : T.Calm s own mark := calm.transfer rfl rfl
      rcases calm'.perform outline ((Program.along_true _ _).weaken fun _ _ _ _ => .inl trivial) memory with
        ⟨_, _, _, _, wrong, _⟩ | ⟨_, _, lax, _⟩
      · cases wrong
      · exact lax trivial
  · exact ⟨result, s', p', rfl⟩

end

end Xv6
