import Xv6.Books.Lifetime

namespace Xv6

open CommandProgram Function Ledger Discipline

variable [KernelImage] {ι : Type} [Fintype ι] [DecidableEq ι]
variable {S : Setting ι} {lo : Proc} {gh : Gh} {pgdir : Nat} {x : PgDir}

/-- After `fork`: as after `copyuvm`, and the parent keeps the kernel stack of the child. -/
def ForkedSpace (S : Setting ι) (pgdir : Nat) (x : PgDir) (last : Nat) (a : Proc × Gh) (child : Option (Nat × Nat))
    (b : Proc × Gh) : Prop :=
  b.2.tok = a.2.tok ∧ (∀ f, ¬ b.2.claim f) ∧ ∃ x', x.Weakened x' last ∧ (S.kernel = .eager → x' = x) ∧
    match child with
    | none => S.scarce ∧ b.1 = a.1.setDir pgdir x' ∧ SeesAs a b
    | some (kstack, d) => pgdir ≠ d ∧ a.1.dirs d = none ∧ Grows a b ∧ ∃ y,
      b.1 = ({ a.1 with kpages := kstack :: a.1.kpages }.setDir pgdir x').setDir d y ∧
      (∀ v, v < last → Copied x y a.2 b.2 v ∧ (S.kernel = .eager → (y.pte v).w = (x.pte v).w) ∧
        (S.kernel = .cow → y.pte v = (x.pte v).shared)) ∧
      ∀ v, last ≤ v → y.pte v = kmapPte v

theorem fork_outline {sz : Nat} (at_pgdir : lo.dirs pgdir = some x) (bound : sz ≤ kernBase)
    (noclaim : ∀ f, ¬ gh.claim f) (settled : ∀ f, gh.tok .uncounted f = 0)
    (present : S.strict → ∀ v, v < pgRoundUp sz → (x.pte v).p = true) :
    S.Outline (fork S.kernel pgdir sz) lo gh (fun child lo' gh' =>
      ForkedSpace S pgdir x (pgRoundUp sz) (lo, gh) child (lo', gh')) := by
  have user : pgRoundUp sz ≤ userPages := by
    rw [userPages_eq]
    unfold pgRoundUp pgSize
    unfold kernBase at bound
    omega
  apply known_rule
  intro known
  show S.Outline (fork S.kernel pgdir sz) lo gh _
  unfold fork
  apply kalloc_rule
  · intro kstack c managed unheld
    apply keep_rule (by simp [Gh.take, unit])
    intro kept
    have grows := (Grows.take c unheld).trans kept
    have tokens : ((gh.take kstack c).lose .owner kstack).tok = gh.tok := Gh.gain_lose gh .owner kstack
    have noclaim₁ : ∀ f, ¬ ((gh.take kstack c).lose .owner kstack).claim f := fun _ claim => claim
    generalize (gh.take kstack c).lose .owner kstack = gh₁ at grows tokens noclaim₁
    have at_pgdir₁ : ({ lo with kpages := kstack :: lo.kpages } : Proc).dirs pgdir = some x := at_pgdir
    apply Outline.andThen (copyuvm_outline at_pgdir₁ bound noclaim₁ (by rw [tokens]; exact settled) present)
    rintro (_ | d) lo₂ gh₂ ⟨x', weak, same, copied⟩
    · obtain ⟨scarce, own, tok, noclaim₂, sees⟩ := copied
      have own₂ : lo₂ = { lo with kpages := kstack :: lo.kpages }.setDir pgdir x' := own
      subst own₂
      apply unkeep_rule (by simp [Proc.setDir])
      intro managed
      apply kfree_rule managed (by simp [Gh.gain, unit])
      refine pure_rule ⟨?_, fun _ claim => claim, x', weak, same, scarce, ?_, ?_⟩
      · exact (Gh.gain_lose gh₂ .owner kstack).trans (tok.trans tokens)
      · simp [Proc.setDir]
      · exact fun f holds => (grows.seesAs_trans sees) f holds
    · obtain ⟨different, absent, y, forked, entries, kernel⟩ := copied
      refine pure_rule ⟨forked.tok.trans tokens, forked.noclaim, x', weak, same, different, absent,
        grows.trans forked.grows, y, forked.own, fun v low => ?_, kernel⟩
      obtain ⟨⟨source, shown, unprivileged, page⟩, kernels⟩ := entries v low
      have holds := (known.entry at_pgdir (by omega) source).2
      exact ⟨⟨source, shown, unprivileged, page.trans (grows.held _ holds).2⟩, kernels⟩
  · intro scarce
    refine pure_rule ⟨rfl, noclaim, x, .refl x _, fun _ => rfl, scarce, ?_, fun _ _ => rfl⟩
    exact (Proc.setDir_self at_pgdir).symm

/-- The size that `growproc` asks for. -/
def asked (sz : Nat) (n : Int) : Nat := ((sz + n) % 2 ^ 32).toNat

/-- After `growproc`: new pages of zeros, or none of them when memory has run out; or pages gone, where a
    size of 0 is not noted; or nothing. -/
def Resized (S : Setting ι) (pgdir sz : Nat) (n : Int) (x : PgDir) (a : Proc × Gh) (grown : Bool) (b : Proc × Gh) : Prop :=
  b.2.tok = a.2.tok ∧ (∀ f, ¬ b.2.claim f) ∧ SeesAs a b ∧
    ∃ x' sz', b.1 = { a.1.setDir pgdir x' with sz := sz' } ∧
      if 0 < n ∧ asked sz n < kernBase then
        (∀ v, ¬ (pgRoundUp sz ≤ v ∧ v < pgRoundUp (asked sz n)) → x'.pte v = x.pte v) ∧
        ((grown = true ∧ sz' = asked sz n ∧
            ∀ v, pgRoundUp sz ≤ v → v < pgRoundUp (asked sz n) → ZeroPage x' b.2 v) ∨
          (grown = false ∧ S.scarce ∧ sz' = sz ∧
            ∀ v, pgRoundUp sz ≤ v → v < pgRoundUp (asked sz n) → (x'.pte v).p = false))
      else if n < 0 ∧ asked sz n < sz then
        x'.pte = PgDir.cleared x.pte (pgRoundUp (asked sz n)) (pgRoundUp sz) ∧
          grown = decide (asked sz n ≠ 0) ∧ sz' = if asked sz n = 0 then sz else asked sz n
      else x'.pte = x.pte ∧ sz' = sz ∧ grown = decide (n = 0 ∨ n < 0 ∧ sz ≠ 0)

omit [KernelImage] in
theorem asked_grows {sz : Nat} {n : Int} (bound : sz ≤ kernBase) (positive : 0 < n) (fits : n < 2 ^ 31) :
    sz < asked sz n := by
  unfold asked
  unfold kernBase at bound
  omega

theorem growproc_outline {sz : Nat} {n : Int} (at_pgdir : lo.dirs pgdir = some x) (current : lo.pgdir = pgdir)
    (size : lo.sz = sz) (bound : sz ≤ kernBase) (fits : n < 2 ^ 31) (noclaim : ∀ f, ¬ gh.claim f)
    (settled : ∀ f, gh.tok .uncounted f = 0)
    (free : S.strict → ∀ v, pgRoundUp sz ≤ v → v < userPages → (x.pte v).p = false) :
    S.Outline (growproc pgdir sz n) lo gh (fun grown lo' gh' => Resized S pgdir sz n x (lo, gh) grown (lo', gh')) := by
  have commit : ∀ x' : PgDir, ({ lo.setDir pgdir x' with pgdir := pgdir, sz := sz } : Proc) = lo.setDir pgdir x' := by
    intro x'
    cases lo
    simp_all [Proc.setDir]
  unfold growproc
  by_cases zero : n = 0
  · rw [if_pos zero]
    apply commit_rule noclaim
    refine pure_rule ⟨rfl, noclaim, fun _ _ => rfl, x, sz, ?_, ?_⟩
    · rw [Proc.setDir_self at_pgdir, ← current, ← size]
    · rw [if_neg (by omega), if_neg (by omega)]
      simp [zero]
  · rw [if_neg zero]
    have target : ((sz + n) % 2 ^ 32).toNat = asked sz n := rfl
    rw [target]
    by_cases positive : 0 < n
    · have larger := asked_grows bound positive fits
      rw [if_pos positive]
      apply Outline.andThen (allocuvm_outline at_pgdir noclaim settled fun strict small v low high => ?_)
      · intro grown lo₁ gh₁ done
        dsimp only
        by_cases small : asked sz n < kernBase
        · rw [if_pos ⟨small, by omega⟩] at done
          rcases done with ⟨whole, x', added, outside, inside⟩ | ⟨failed, scarce, x', own, tok, noclaim₁, sees, outside, inside⟩
          · rw [whole, if_neg (by omega)]
            apply commit_rule added.noclaim
            refine pure_rule ⟨added.tok, added.noclaim, added.grows.seesAs, x', asked sz n, ?_, ?_⟩
            · have own : lo₁ = lo.setDir pgdir x' := added.own
              rw [own, ← current]
              rfl
            · rw [if_pos ⟨positive, small⟩]
              exact ⟨outside, .inl ⟨rfl, rfl, inside⟩⟩
          · rw [failed, if_pos rfl]
            refine pure_rule ⟨tok, noclaim₁, sees, x', sz, ?_, ?_⟩
            · have own₁ : lo₁ = lo.setDir pgdir x' := own
              rw [own₁, ← size]
              rfl
            · rw [if_pos ⟨positive, small⟩]
              exact ⟨outside, .inr ⟨rfl, scarce, rfl, inside⟩⟩
        · rw [if_neg (fun both => small both.1), if_pos (by omega)] at done
          obtain ⟨rfl, rfl, rfl⟩ := done
          rw [if_pos rfl]
          refine pure_rule ⟨rfl, noclaim, fun _ _ => rfl, x, sz, ?_, ?_⟩
          · rw [Proc.setDir_self at_pgdir, ← size]
          · rw [if_neg (fun both => small both.2), if_neg (by omega)]
            simp only [true_and, Bool.false_eq, decide_eq_false_iff_not]
            omega
      · apply free strict v low
        rw [userPages_eq]
        unfold kernBase at small
        unfold pgRoundUp pgSize at high
        omega
    · rw [if_neg positive]
      apply Outline.andThen (deallocuvm_outline at_pgdir bound noclaim settled)
      rintro grown lo₁ gh₁ ⟨whole, rfl, x', own, pde, cleared⟩
      dsimp only
      by_cases kept : sz ≤ asked sz n
      · rw [if_pos kept] at whole
        have same : x'.pte = x.pte := by
          have order : pgRoundUp sz ≤ pgRoundUp (asked sz n) := by
            unfold pgRoundUp pgSize
            omega
          rw [cleared]
          funext v
          rw [PgDir.cleared, if_neg (by omega)]
        have shape : lo.setDir pgdir x' = { lo.setDir pgdir x' with sz := sz } := by
          rw [← size]
          rfl
        rw [whole, own]
        by_cases none : sz = 0
        · rw [if_pos none]
          refine pure_rule ⟨rfl, noclaim, fun _ _ => rfl, x', sz, shape, ?_⟩
          rw [if_neg (by omega), if_neg (by omega)]
          exact ⟨same, rfl, by simp [zero, none]⟩
        · rw [if_neg none]
          apply commit_rule noclaim
          refine pure_rule ⟨rfl, noclaim, fun _ _ => rfl, x', sz, ?_, ?_⟩
          · rw [← current]
            rfl
          · rw [if_neg (by omega), if_neg (by omega)]
            have negative : n < 0 := by omega
            exact ⟨same, rfl, by simp [negative, none]⟩
      · rw [if_neg kept] at whole
        rw [whole]
        have small : n < 0 ∧ asked sz n < sz := ⟨by omega, by omega⟩
        by_cases none : asked sz n = 0
        · rw [if_pos none]
          refine pure_rule ⟨rfl, noclaim, fun _ _ => rfl, x', sz, ?_, ?_⟩
          · rw [own, ← size]
            rfl
          · rw [if_neg (by omega), if_pos small]
            exact ⟨cleared, by simp [none], by simp [none]⟩
        · rw [if_neg none]
          apply commit_rule noclaim
          refine pure_rule ⟨rfl, noclaim, fun _ _ => rfl, x', asked sz n, ?_, ?_⟩
          · rw [own, ← current]
            rfl
          · rw [if_neg (by omega), if_pos small]
            exact ⟨cleared, by simp [none], by simp [none]⟩

theorem wait_outline {kstack : Nat} (at_pgdir : lo.dirs pgdir = some x) (kept : kstack ∈ lo.kpages)
    (settled : ∀ f, gh.tok .uncounted f = 0) :
    S.Outline (wait kstack pgdir) lo gh (fun _ lo' gh' => gh'.tok = gh.tok ∧ (∀ f, ¬ gh'.claim f) ∧
      lo' = { lo with kpages := lo.kpages.erase kstack }.dropDir pgdir) := by
  unfold wait
  apply unkeep_rule kept
  intro managed
  apply kfree_rule managed (by simp [Gh.gain, unit])
  have tokens : ((gh.gain .owner kstack).lose .owner kstack).tok = gh.tok := Gh.gain_lose gh .owner kstack
  have free : S.Outline (freevm pgdir) { lo with kpages := lo.kpages.erase kstack }
      ((gh.gain .owner kstack).lose .owner kstack) _ :=
    freevm_outline at_pgdir (fun _ claim => claim) (by rw [tokens]; exact settled)
  refine free.mono ?_
  rintro _ lo' gh' ⟨own, rfl⟩
  exact ⟨tokens, fun _ claim => claim, own⟩

/-- The first process: one page with its program at address 0, and nothing else of its own. -/
structure FirstImage (init : List UInt8) (x : PgDir) (g : Gh) : Prop where
  present : (x.pte 0).p = true
  writable : (x.pte 0).w = true
  unprivileged : (x.pte 0).u = true
  page : (g.seen (x.pte 0).addr).1 = Page.store (fun _ => 0) 0 init
  rest : ∀ v, v ≠ 0 → x.pte v = kmapPte v

theorem userinit_outline {init : List UInt8} (plenty : ¬ S.scarce)
    (settled : ∀ f, gh.tok .uncounted f = 0) (short : S.strict → init.length < pgSize) :
    S.Outline (userinit init) lo gh (fun kstack lo' gh' => gh'.tok = gh.tok ∧ (∀ f, ¬ gh'.claim f) ∧
      ∃ d x, lo.dirs d = none ∧ FirstImage init x gh' ∧
        lo' = { { lo with kpages := kstack :: lo.kpages }.setDir d x with pgdir := d, sz := pgSize }) := by
  unfold userinit
  apply kalloc_rule _ (fun scarce => absurd scarce plenty)
  intro kstack c managed unheld
  apply keep_rule (by simp [Gh.take, unit])
  intro _
  have tokens : ((gh.take kstack c).lose .owner kstack).tok = gh.tok := Gh.gain_lose gh .owner kstack
  have noclaim₁ : ∀ f, ¬ ((gh.take kstack c).lose .owner kstack).claim f := fun _ claim => claim
  generalize (gh.take kstack c).lose .owner kstack = gh₁ at tokens noclaim₁
  apply Outline.andThen (setupkvm_outline noclaim₁ (by rw [tokens]; exact settled))
  rintro (_ | d) lo₂ gh₂ made
  · exact absurd made.1 plenty
  · obtain ⟨absent, y, added, kernel⟩ := made
    dsimp only
    unfold inituvm
    by_cases large : pgSize ≤ init.length
    · rw [if_pos large]
      exact Outline.bind (panic_rule fun strict => absurd (short strict) (by omega))
    · rw [if_neg large, bind_assoc]
      apply kalloc_rule _ (fun scarce => absurd scarce plenty)
      intro mem c managed unheld
      simp only [bind_assoc]
      apply memset_rule (by simp [Gh.take, unit])
      have empty : (y.pte 0).p = false := by
        rw [kernel, kmapPte_user (by decide)]
        rfl
      have owned : 0 < ((gh₂.take mem c).see mem (fun _ => 0)).tok .owner mem := by simp [Gh.see, Gh.take, unit]
      show S.Outline (mappages d (0 * pgSize) pgSize mem permWU >>= _) lo₂ _ _
      apply mapPage_rule added.at_d (by decide) (fun _ claim => claim) (fun _ => empty) _
        (fun scarce => absurd scarce plenty)
      intro y₁ gh₃ widened has absent₁ tok₃ noclaim₃ grows₃
      have at_y₁ : (lo₂.setDir d y₁).dirs d = some y₁ := by simp
      apply setPte_install_rule at_y₁ has (by decide) (by rw [widened.pte]; exact empty) (by rw [tok₃]; exact owned)
      intro gh₄ tok₄ noclaim₄ grows₄
      rw [Proc.setDir_setDir] at grows₄ ⊢
      have entries : (y₁.setPte 0 (.make mem permWU)).pte = update y.pte 0 (.make mem permWU) := by
        rw [PgDir.pte_setPte has, widened.pte]
      have fresh : Held (lo₂, (gh₂.take mem c).see mem (fun _ => 0)) mem :=
        held_of_tally (k := .owner) (.inr (.inr rfl)) (by simp only [account]; omega)
      have zero := ((grows₃.trans grows₄).held mem fresh).2
      apply known_rule
      intro known
      have writes := known.writer (d := d) (v := 0) (x := y₁.setPte 0 (.make mem permWU)) (by simp) (by decide)
        (by rw [entries]; rfl) (by rw [entries]; rfl)
      rw [entries] at writes
      show S.Outline (ask (.store mem 0 init) >>= _) _ gh₄ _
      apply store_rule (.inl writes)
      apply commit_rule (fun _ claim => claim)
      refine pure_rule ⟨?_, fun _ claim => claim, d, y₁.setPte 0 (.make mem permWU), absent, ?_, ?_⟩
      · show gh₄.tok = gh.tok
        rw [tok₄]
        funext k f
        have tok₂ : gh₂.tok = gh.tok := added.tok.trans tokens
        simp [Gh.lose, tok₃, Gh.see, Gh.take, tok₂]
      · constructor
        case rest =>
          intro v other
          rw [entries, update_of_ne other, kernel]
        case page =>
          rw [entries]
          show (update gh₄.seen mem ((gh₄.seen mem).1.store 0 init, (gh₄.seen mem).2) mem).1 = _
          rw [update_self, zero]
          simp [Gh.see]
        all_goals
          rw [entries]
          rfl
      · have own : lo₂ = { lo with kpages := kstack :: lo.kpages }.setDir d y := added.own
        rw [own, Proc.setDir_setDir]

end Xv6
