import Xv6.Exec.Built
import Xv6.Exec.Outline
import Xv6.System.First

namespace Xv6

open CommandProgram Function Ledger Discipline

/-- Where `exec` puts the strings on the stack. -/
def argPlaces (sp : Nat) : List (List UInt8) → List Nat
  | [] => []
  | arg :: rest => argPlace sp arg.length :: argPlaces (argPlace sp arg.length) rest

def argEnd (sp : Nat) : List (List UInt8) → Nat
  | [] => sp
  | arg :: rest => argEnd (argPlace sp arg.length) rest

def argRoom (argv : List (List UInt8)) : Nat := (argv.map fun arg => arg.length + 4).sum

theorem argEnd_le (sp : Nat) (argv : List (List UInt8)) (fits : argRoom argv ≤ sp) (bound : sp < 2 ^ 32) :
    argEnd sp argv ≤ sp ∧ sp ≤ argEnd sp argv + argRoom argv := by
  induction argv generalizing sp with
  | nil => exact ⟨Nat.le_refl _, Nat.le_refl _⟩
  | cons arg rest ih =>
    have split : argRoom (arg :: rest) = arg.length + 4 + argRoom rest := by
      rw [argRoom, List.map_cons, List.sum_cons, argRoom]
    rw [split] at fits ⊢
    have place : argPlace sp arg.length = (sp - (arg.length + 1)) / 4 * 4 := by
      unfold argPlace
      omega
    have later := ih (argPlace sp arg.length) (by omega) (by omega)
    rw [argEnd]
    omega

theorem argPlaces_length (sp : Nat) (argv : List (List UInt8)) : (argPlaces sp argv).length = argv.length := by
  induction argv generalizing sp with
  | nil => rfl
  | cons arg rest ih => rw [argPlaces, List.length_cons, List.length_cons, ih]

section Programs

variable {κ : Kernel} {α : Type}

theorem Freeing.freelist_le {program : Vm α} (uses : program.Uses Freeing) (s : Shared) (p : Proc) :
    s.kmem.freelist.length ≤ (Program.run (execute κ) program (s, p)).2.1.kmem.freelist.length := by
  have along : Program.Along (execute κ) (fun command _ => Freeing command) (fun _ _ => True) program (s, p) :=
    uses.along (fun _ _ freeing => freeing) (s, p)
  have kept : ∀ command (state : Shared × Proc), s.kmem.freelist.length ≤ state.1.kmem.freelist.length → Freeing command →
      s.kmem.freelist.length ≤ (execute κ command state).2.1.kmem.freelist.length := by
    rintro command ⟨s₁, p₁⟩ before freeing
    have freed : ∀ pa, s₁.kmem.freelist.length ≤ (s₁.kfree κ pa).kmem.freelist.length := by
      intro pa
      cases κ with
      | eager => simp [Shared.kfree]
      | cow =>
        unfold Shared.kfree
        dsimp only
        generalize (if 0 < s₁.kmem.page_rCount pa then _ else _) = counts
        split
        · exact Nat.le_succ _
        · exact Nat.le_refl _
    cases command
    case dRCount pa => exact freeing.elim
    case kalloc => exact freeing.elim
    case kfree pa => exact before.trans (freed pa)
    case freePte pgdir v pa => exact before.trans (freed pa)
    all_goals exact before
  exact along.invariant kept (Nat.le_refl _)

end Programs

variable [KernelImage] {ι : Type} [Fintype ι] [DecidableEq ι]
variable {κ : Kernel} {t : ι} {s s₁ : Shared} {own : ι → Proc} {p : Proc} {d : Nat} {x x₀ : PgDir} {mark : Nat → Mark}
variable {c : System ι} {rule : System ι → Action ι → Prop} {init : List UInt8}

theorem copyout_done {d k va : Nat} {bytes : List UInt8} (calm : (execSetting ι κ).Calm s own mark)
    (at_d : (own t).dirs d = some x) (clean : x.Clean) (small : va < 2 ^ 32)
    (fuel : bytes = [] ∨ va % pgSize + bytes.length ≤ k * pgSize) (reached : ReachesUser x va bytes.length) :
    ∃ s' mark', Program.run (execute κ) (copyout d k va bytes) (s, own t) = (.ok true, (s', own t)) ∧
      (execSetting ι κ).Calm s' own mark' ∧ s'.kmem = s.kmem := by
  have plain := clean.plain calm at_d
  have ready : x.Ready := ⟨plain, fun v user => ⟨clean.user v user, user.1, clean.writable v (clean.user v user) user.1⟩⟩
  have dir : (own t).dir d = x := Proc.dir_of at_d
  have back : own t = ((own t).dropDir d).setDir d x := by
    conv_lhs => rw [← Proc.setDir_self at_d]
    simp only [Proc.setDir, Proc.dropDir, update_idem]
  have beside : Beside d x ((own t).dropDir d, .calm s mark) (own t, .calm s mark) :=
    ⟨update_self .., back, rfl, fun _ claim => claim, fun _ _ => rfl⟩
  have outline : (execSetting ι κ).Outline (copyout d k va bytes) (own t) (.calm s mark) _ :=
    copyout_outline beside ready id small fuel
  rw [← dir] at plain reached
  obtain ⟨ram', _, ⟨ran, -, -⟩ | ⟨-, other⟩ | ⟨-, hole⟩⟩ := copyout_run (κ := κ) s va bytes plain small fuel
  · obtain ⟨gh', mark', _, change⟩ := calm.ran trivial outline (fun _ _ _ after => ⟨after.1.tok, after.1.noclaim⟩) ran
    have calm' := change.calm
    rw [update_eq_self] at calm'
    exact ⟨_, mark', ran, calm', rfl⟩
  · obtain ⟨j, low, _, away, _⟩ := other
    exact absurd (reached j low) away
  · exact absurd reached hole.not_other.1

namespace Stacked

theorem copies (stacked : Stacked t c s p d x) (k va : Nat) (bytes : List UInt8)
    (calm : (execSetting ι .cow).Calm s₁ (update c.proc t p) mark) (low : pgSize ≤ va) (high : va + bytes.length ≤ 2 * pgSize)
    (fuel : va % pgSize + bytes.length ≤ k * pgSize) :
    ∃ s₂ mark₂, Program.run (execute .cow) (copyout d k va bytes) (s₁, p) = (.ok true, (s₂, p)) ∧
      (execSetting ι .cow).Calm s₂ (update c.proc t p) mark₂ ∧ s₂.kmem = s₁.kmem := by
  have at_t : update c.proc t p t = p := update_self ..
  have at_d : (update c.proc t p t).dirs d = some x := by rw [at_t, stacked.at_d]
  obtain ⟨_, x', _, at_d', clean⟩ := stacked.built.clean
  rw [at_d] at at_d'
  cases at_d'
  have user : ReachesUser x va bytes.length := by
    intro j inside
    have page : bytePage va j = 1 := by
      unfold bytePage pageOf pgSize at *
      omega
    rw [page]
    exact stacked.user
  have done := copyout_done (k := k) calm at_d clean (by unfold pgSize at *; omega) (.inr fuel) user
  rwa [at_t] at done

theorem pushes (stacked : Stacked t c s p d x) (sp : Nat) (argv : List (List UInt8)) (pointers : List Nat)
    (calm : (execSetting ι .cow).Calm s₁ (update c.proc t p) mark) (few : pointers.length + argv.length ≤ maxArg)
    (fits : pgSize + argRoom argv ≤ sp) (top : sp ≤ 2 * pgSize) :
    ∃ s₂ mark₂, Program.run (execute .cow) (pushArgs d argv sp pointers) (s₁, p) =
        (.ok (some (argEnd sp argv, pointers ++ argPlaces sp argv)), (s₂, p)) ∧
      (execSetting ι .cow).Calm s₂ (update c.proc t p) mark₂ ∧ s₂.kmem = s₁.kmem := by
  induction argv generalizing sp pointers s₁ mark with
  | nil =>
    rw [argPlaces, List.append_nil]
    exact ⟨s₁, mark, rfl, calm, rfl⟩
  | cons arg rest ih =>
    have split : argRoom (arg :: rest) = arg.length + 4 + argRoom rest := by
      rw [argRoom, List.map_cons, List.sum_cons, argRoom]
    have place : argPlace sp arg.length = (sp - (arg.length + 1)) / 4 * 4 := by
      unfold argPlace pgSize at *
      omega
    rw [split] at fits
    rw [List.length_cons] at few
    obtain ⟨s₂, mark₂, copied, calm₂, same⟩ := stacked.copies (pgRoundUp arg.length + 2) (argPlace sp arg.length)
      (arg ++ [0]) calm (by omega) (by rw [List.length_append, List.length_singleton]; omega)
      (by rw [List.length_append, List.length_singleton]; unfold pgRoundUp pgSize; omega)
    obtain ⟨s₃, mark₃, pushed, calm₃, same'⟩ := ih (argPlace sp arg.length) (pointers ++ [argPlace sp arg.length]) calm₂
      (by rw [List.length_append, List.length_singleton]; omega) (by omega) (by omega)
    refine ⟨s₃, mark₃, ?_, calm₃, same'.trans same⟩
    rw [pushArgs, if_neg (by omega)]
    show Program.run _ (copyout d (pgRoundUp arg.length + 2) (argPlace sp arg.length) (arg ++ [0]) >>= _) _ = _
    rw [Program.run_bind_ok copied, if_pos rfl]
    refine Eq.trans pushed ?_
    rw [List.append_assoc]
    rfl

theorem pushed (stacked : Stacked t c s p d x) {argv : List (List UInt8)} (few : argv.length ≤ maxArg)
    (fits : argRoom argv + 16 + 4 * argv.length ≤ pgSize) : ∃ s₂ s₃ mark sp,
      Program.run (execute .cow) (pushArgs d argv (2 * pgSize) []) (s, p) =
        (.ok (some (argEnd (2 * pgSize) argv, argPlaces (2 * pgSize) argv)), (s₂, p)) ∧
      (argEnd (2 * pgSize) argv + 2 ^ 32 - (ustack (argEnd (2 * pgSize) argv) (argPlaces (2 * pgSize) argv)).length) % 2 ^ 32 = sp ∧
      Program.run (execute .cow) (copyout d 3 sp (ustack (argEnd (2 * pgSize) argv) (argPlaces (2 * pgSize) argv))) (s₂, p) =
        (.ok true, (s₃, p)) ∧ (execSetting ι .cow).Calm s₃ (update c.proc t p) mark ∧ s₃.kmem = s.kmem := by
  obtain ⟨mark, x', calm, -⟩ := stacked.built.clean
  have ends := argEnd_le (2 * pgSize) argv (by unfold pgSize at *; omega) (by decide)
  obtain ⟨s₂, mark₂, pushed, calm₂, same⟩ := stacked.pushes (2 * pgSize) argv [] calm (by rw [List.length_nil]; omega)
    (by omega) (Nat.le_refl _)
  rw [List.nil_append] at pushed
  generalize argEnd (2 * pgSize) argv = sp at ends pushed ⊢
  have length : (ustack sp (argPlaces (2 * pgSize) argv)).length = 16 + 4 * argv.length := by
    rw [ustack_length, argPlaces_length]
  have place : (sp + 2 ^ 32 - (16 + 4 * argv.length)) % 2 ^ 32 = sp - (16 + 4 * argv.length) := by
    unfold pgSize at *
    omega
  obtain ⟨s₃, mark₃, copied, calm₃, same'⟩ := stacked.copies 3 (sp - (16 + 4 * argv.length))
    (ustack sp (argPlaces (2 * pgSize) argv)) calm₂ (by omega) (by rw [length]; omega)
    (by rw [length]; unfold pgSize at *; omega)
  exact ⟨s₂, s₃, mark₃, _, pushed, by rw [length, place], copied, calm₃, same'.trans same⟩

end Stacked

def bare : Inode := ⟨some ⟨elfMagic, 0⟩, fun _ => none, []⟩

/-- `exec` has installed it, with both models of `exec`. -/
structure Execed (t : ι) (c : System ι) (argv : List (List UInt8)) (s' : Shared) (p' : Proc) : Prop where
  memory : Program.run (execute .cow) (exec (c.proc t).pgdir (some bare) argv) (c.shared, c.proc t) = (.ok true, (s', p'))
  code : ∀ task path, ∃ task', Program.run (execute .cow) (Exec.exec task path (c.proc t).pgdir (some ⟨bare, 0⟩) argv)
    (c.shared, c.proc t) = (.ok (true, task'), (s', p'))
  size : p'.sz = 2 * pgSize
  stock : 40000 ≤ s'.kmem.freelist.length

/-- With memory enough, `exec` of a program whose arguments fit into the page for the stack succeeds. -/
theorem exec_succeeds (first : First .cow rule t init c x₀) (argv : List (List UInt8)) (few : argv.length ≤ maxArg)
    (fits : argRoom argv + 16 + 4 * argv.length ≤ pgSize) : ∃ s' p', Execed t c argv s' p' := by
  obtain ⟨s, p, d, x, stacked⟩ := stacked_reached first
  obtain ⟨s₁, p₁, s₂, p₂, made, grown, guarded⟩ := stacked.made
  obtain ⟨s₃, s₄, mark, sp, pushed, place, copied, calm, same⟩ := stacked.pushed few fits
  -- the old table goes
  have apart : (c.proc t).pgdir ≠ d := by
    intro same
    have absent := stacked.fresh
    rw [← same, first.occupied.at_pgdir] at absent
    cases absent
  obtain ⟨q, committed⟩ : ∃ q : Proc, q = { p with pgdir := d, sz := 2 * pgSize } := ⟨_, rfl⟩
  have fields : ∀ u, (update c.proc t q u).dirs = (update c.proc t p u).dirs ∧
      (update c.proc t q u).kpages = (update c.proc t p u).kpages := by
    intro u
    by_cases here : u = t
    · rw [here, update_self, update_self, committed]
      exact ⟨rfl, rfl⟩
    · rw [update_of_ne here, update_of_ne here]
      exact ⟨rfl, rfl⟩
  have calm' : (sureSetting ι .cow).Calm s₄ (update c.proc t q) mark := (calm.fields fields).transfer rfl rfl
  have at_old : (update c.proc t q t).dirs (c.proc t).pgdir = some x₀ := by
    rw [(fields t).1, update_self, stacked.others _ apart, first.occupied.at_pgdir]
  have free : (sureSetting ι .cow).Outline (freevm (c.proc t).pgdir) (update c.proc t q t) (.calm s₄ mark) _ :=
    freevm_outline at_old (fun _ claim => claim) fun _ => rfl
  obtain ⟨_, s₅, p₅, _, _, _, freed, ⟨own, -⟩, -⟩ := calm'.succeed (t := t) trivial free (Freeing.stocked freevm_uses _)
  rw [update_self] at freed own
  have more := Freeing.freelist_le (κ := .cow) (show (freevm (c.proc t).pgdir).Uses Freeing from freevm_uses) s₄ q
  rw [freed] at more
  refine ⟨s₅, p₅, ?_, fun task path => ?_, ?_, ?_⟩
  · show Program.run _ (setupkvm >>= _) _ = _
    rw [Program.run_bind_ok made]
    show Program.run _ (image d bare 0 argv >>= _) _ = _
    have imaged : Program.run (execute .cow) (image d bare 0 argv) (s₁, p₁) = (.ok (some (2 * pgSize)), (s₄, p)) := by
      show Program.run _ (allocuvm d 0 (2 * pgSize) >>= _) _ = _
      rw [Program.run_bind_ok grown, if_neg (by decide)]
      show Program.run _ (clearpteu d 0 >>= _) _ = _
      rw [Program.run_bind_ok guarded]
      show Program.run _ (pushArgs d argv (2 * pgSize) [] >>= _) _ = _
      rw [Program.run_bind_ok pushed]
      dsimp only
      rw [place, Program.run_bind_ok copied]
      rfl
    rw [Program.run_bind_ok imaged]
    show Program.run _ (freevm (c.proc t).pgdir >>= _) (s₄, { p with pgdir := d, sz := 2 * pgSize }) = _
    rw [← committed, Program.run_bind_ok freed]
    rfl
  · show ∃ task', Program.run _ (setupkvm >>= _) _ = _
    rw [Program.run_bind_ok made]
    show ∃ task', Program.run _ (Exec.stack d 0 argv >>= _) _ = _
    have stacked : Program.run (execute .cow) (Exec.stack d 0 argv) (s₁, p₁) = (.ok (some (2 * pgSize, sp)), (s₄, p)) := by
      show Program.run _ (allocuvm d 0 (2 * pgSize) >>= _) _ = _
      rw [Program.run_bind_ok grown, if_neg (by decide)]
      show Program.run _ (clearpteu d 0 >>= _) _ = _
      rw [Program.run_bind_ok guarded]
      show Program.run _ (pushArgs d argv (2 * pgSize) [] >>= _) _ = _
      rw [Program.run_bind_ok pushed]
      dsimp only
      rw [place, Program.run_bind_ok copied]
      rfl
    rw [Program.run_bind_ok stacked]
    show ∃ task', Program.run _ (freevm (c.proc t).pgdir >>= _) (s₄, { p with pgdir := d, sz := 2 * pgSize }) = _
    rw [← committed, Program.run_bind_ok freed]
    exact ⟨_, rfl⟩
  · rw [show p₅ = _ from own, committed]
    rfl
  · rw [same] at more
    exact stacked.stock.trans more

end Xv6
