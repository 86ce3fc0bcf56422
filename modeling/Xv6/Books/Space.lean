import Xv6.Books.Kernel

namespace Xv6

open CommandProgram Function Ledger Discipline

variable {ι : Type} [Fintype ι] [DecidableEq ι]
variable {S : Setting ι} {α : Type} {lo : Proc} {gh : Gh} {post : α → Proc → Gh → Prop}
variable {d : Nat} {x : PgDir}

theorem Grows.back {g : Gh} (tok : g.tok = gh.tok) (noclaim : ∀ f, ¬ g.claim f)
    (sees : ∀ f, Held (lo, gh) f → (g.seen f).1 = (gh.seen f).1) : Grows (lo, gh) (lo, g) where
  claim f claim := absurd claim (noclaim f)
  held f holds := by
    refine ⟨?_, sees f holds⟩
    unfold Held at *
    simpa only [account, tok] using holds

variable [KernelImage]

theorem setupkvm_outline (noclaim : ∀ f, ¬ gh.claim f) (settled : ∀ f, gh.tok .uncounted f = 0) :
    S.Outline setupkvm lo gh (fun new lo' gh' =>
      match new with
      | none => S.scarce ∧ lo' = lo ∧ gh'.tok = gh.tok ∧ (∀ f, ¬ gh'.claim f) ∧ Grows (lo, gh) (lo, gh')
      | some d => lo.dirs d = none ∧ ∃ x, Added d x (lo, gh) (lo', gh') ∧ x.pte = kmapPte) := by
  unfold setupkvm
  apply kalloc_rule
  · intro d c managed unheld
    apply newPgdir_rule managed (by simp [Gh.take, unit])
    intro absent grows
    have low : ¬ kernBase + physTop > devSpace := by decide
    rw [if_neg low]
    have added : Added d .empty (lo, gh) (lo.setDir d .empty, (gh.take d c).lose .owner d) :=
      ⟨rfl, Gh.gain_lose gh .owner d, fun _ claim => claim, (Grows.take c unheld).trans grows⟩
    apply Outline.andThen (mapRows_outline added.at_d kmap_fits kmap_apart added.noclaim
      (fun _ row _ v _ _ => rfl))
    rintro mapped lo₁ gh₁ ⟨x₁, added₁, _, whole, failing⟩
    have both := added.trans added₁
    cases mapped
    · apply Outline.andThen (freevm_outline both.at_d both.noclaim (by rw [both.tok]; exact settled))
      rintro _ lo₂ gh₂ ⟨own, same⟩
      subst same
      have restored : lo₂ = lo := by
        rw [own, both.own]
        simp only [Proc.setDir, Proc.dropDir, update_idem]
        rw [← absent, update_eq_self]
      subst restored
      exact pure_rule ⟨failing rfl, rfl, both.tok, both.noclaim, .back both.tok both.noclaim both.grows.seesAs⟩
    · exact pure_rule ⟨absent, x₁, both, whole rfl⟩
  · exact fun scarce => pure_rule ⟨scarce, rfl, rfl, noclaim, .refl _⟩

/-- Page `v` is mapped for the user, full of zeros. -/
structure ZeroPage (x : PgDir) (g : Gh) (v : Nat) : Prop where
  present : (x.pte v).p = true
  writable : (x.pte v).w = true
  unprivileged : (x.pte v).u = true
  zero : (g.seen (x.pte v).addr).1 = fun _ => 0

/-- After growing the table from page `a` up to `last`: new pages of zeros or, when memory has run out, no
    page from `first` on. -/
def Grown (S : Setting ι) (d : Nat) (x : PgDir) (a first last newsz : Nat) (before : Proc × Gh) (size : Nat)
    (after : Proc × Gh) : Prop :=
  (size = newsz ∧ ∃ x', Added d x' before after ∧ (∀ v, ¬ (a ≤ v ∧ v < last) → x'.pte v = x.pte v) ∧
      ∀ v, a ≤ v → v < last → ZeroPage x' after.2 v) ∨
    (size = 0 ∧ S.scarce ∧ ∃ x', after.1 = before.1.setDir d x' ∧ after.2.tok = before.2.tok ∧
      (∀ f, ¬ after.2.claim f) ∧ SeesAs before after ∧
      (∀ v, ¬ (first ≤ v ∧ v < last) → x'.pte v = x.pte v) ∧ ∀ v, first ≤ v → v < last → (x'.pte v).p = false)

theorem allocLoop_outline {n a oldsz newsz : Nat} (at_d : lo.dirs d = some x) (span : a + n = pgRoundUp newsz)
    (start : pgRoundUp oldsz ≤ a) (bound : newsz ≤ kernBase) (noclaim : ∀ f, ¬ gh.claim f)
    (settled : ∀ f, gh.tok .uncounted f = 0)
    (free : S.strict → ∀ v, a ≤ v → v < pgRoundUp newsz → (x.pte v).p = false) :
    S.Outline (allocLoop d oldsz newsz n a) lo gh (fun size lo' gh' =>
      Grown S d x a (pgRoundUp oldsz) (pgRoundUp newsz) newsz (lo, gh) size (lo', gh')) := by
  have user : pgRoundUp newsz ≤ userPages := by
    rw [userPages_eq]
    unfold pgRoundUp pgSize
    unfold kernBase at bound
    omega
  -- the cleanup takes away the pages of earlier rounds too
  have cleanup : ∀ {lo₁ : Proc} {x₁ : PgDir}, lo₁.dirs d = some x₁ → lo₁ = lo.setDir d x₁ →
      (∀ v, ¬ (pgRoundUp oldsz ≤ v ∧ v < pgRoundUp newsz) → x₁.pte v = x.pte v) →
      ∀ {gh₁ : Gh}, (∀ f, ¬ gh₁.claim f) → (∀ f, gh₁.tok .uncounted f = 0) →
      S.Outline (deallocuvm d newsz oldsz) lo₁ gh₁ (fun _ lo' gh' => gh' = gh₁ ∧ ∃ x', lo' = lo.setDir d x' ∧
        (∀ v, ¬ (pgRoundUp oldsz ≤ v ∧ v < pgRoundUp newsz) → x'.pte v = x.pte v) ∧
        ∀ v, pgRoundUp oldsz ≤ v → v < pgRoundUp newsz → (x'.pte v).p = false) := by
    intro lo₁ x₁ at_d₁ own outside gh₁ noclaim₁ settled₁
    refine (deallocuvm_outline at_d₁ bound noclaim₁ settled₁).mono ?_
    rintro _ lo' gh' ⟨_, same, x', own', _, pte⟩
    refine ⟨same, x', by rw [own', own, Proc.setDir_setDir], fun v out => ?_, fun v low high => ?_⟩
    · rw [pte, PgDir.cleared, if_neg (fun h => out ⟨h.1, h.2.1⟩), outside v out]
    · rw [pte, PgDir.cleared]
      by_cases present : (x₁.pte v).p = true
      · rw [if_pos ⟨low, high, present⟩]
        rfl
      · rw [if_neg (fun h => present h.2.2)]
        simpa using present
  induction n generalizing a x lo gh with
  | zero =>
    unfold allocLoop
    refine pure_rule (.inl ⟨rfl, x, .refl at_d noclaim, fun _ _ => rfl, fun v low high => ?_⟩)
    omega
  | succ n ih =>
    unfold allocLoop
    apply kalloc_rule
    · intro mem c managed unheld
      apply memset_rule (by simp [Gh.take, unit])
      have owned : 0 < ((gh.take mem c).see mem (fun _ => 0)).tok .owner mem := by simp [Gh.see, Gh.take, unit]
      have started := Grows.take_see c (fun _ => 0) unheld
      apply mapPage_rule at_d (by omega) (fun _ claim => claim) (fun strict => free strict a (le_refl a) (by omega))
      · intro x₁ gh₁ widened has absent tok noclaim₁ grows₁
        have at_d₁ : (lo.setDir d x₁).dirs d = some x₁ := by simp
        apply setPte_install_rule at_d₁ has (by omega) (by rw [widened.pte]; exact absent) (by rw [tok]; exact owned)
        intro gh₂ tok₂ noclaim₂ grows₂
        rw [Proc.setDir_setDir] at grows₂ ⊢
        rw [if_pos rfl]
        have entries : (x₁.setPte a (.make mem permWU)).pte = update x.pte a (.make mem permWU) := by
          rw [PgDir.pte_setPte has, widened.pte]
        have tokens : gh₂.tok = gh.tok := by
          rw [tok₂]
          funext k f
          simp [Gh.lose, tok, Gh.see, Gh.take]
        have added : Added d (x₁.setPte a (.make mem permWU)) (lo, gh)
            (lo.setDir d (x₁.setPte a (.make mem permWU)), gh₂) :=
          ⟨rfl, tokens, noclaim₂, started.trans (grows₁.trans grows₂)⟩
        have fresh : Held (lo, (gh.take mem c).see mem (fun _ => 0)) mem :=
          held_of_tally (k := .owner) (.inr (.inr rfl)) (by simp only [account]; omega)
        obtain ⟨held₂, zero₂⟩ := (grows₁.trans grows₂).held mem fresh
        refine (ih added.at_d (by omega) (by omega) noclaim₂ (by rw [tokens]; exact settled) ?_ ?_).mono ?_
        · intro strict v low high
          rw [entries, update_of_ne (by omega)]
          exact free strict v (by omega) high
        · intro lo₃ x₃ at_d₃ own outside gh₃ noclaim₃ settled₃
          refine (cleanup at_d₃ (by rw [own, Proc.setDir_setDir]) (fun v out => ?_) noclaim₃ settled₃).mono ?_
          · rw [outside v out, entries, update_of_ne (by omega)]
          · rintro _ lo' gh' ⟨same, x', own', out', in'⟩
            refine ⟨same, x', by rw [own', Proc.setDir_setDir], fun v out => ?_, in'⟩
            rw [out' v out, entries, update_of_ne (by omega)]
        · rintro size lo' gh' (⟨done, x', added', outside, inside⟩ | ⟨failed, scarce, x', own, tok', noclaim', sees, outside, inside⟩)
          · refine .inl ⟨done, x', added.trans added', fun v out => ?_, fun v low high => ?_⟩
            · rw [outside v (by omega), entries, update_of_ne (by omega)]
            · by_cases here : v = a
              · subst here
                have entry : x'.pte v = .make mem permWU := by
                  rw [outside v (by omega), entries, update_self]
                have zero := (added'.grows.held mem held₂).2
                constructor
                case zero =>
                  rw [entry]
                  exact (zero.trans zero₂).trans (by simp [Gh.see])
                all_goals
                  rw [entry]
                  rfl
              · exact inside v (by omega) high
          · refine .inr ⟨failed, scarce, x', by rw [own]; simp, by rw [tok', tokens], noclaim',
              added.grows.seesAs_trans sees, fun v out => ?_, inside⟩
            rw [outside v out, entries, update_of_ne (by omega)]
      · intro scarce
        simp only [Bool.false_eq_true, if_false]
        apply Outline.andThen (cleanup at_d (Proc.setDir_self at_d).symm (fun _ _ => rfl) (fun _ claim => claim)
          (fun f => by simp [Gh.see, Gh.take, unit, settled]))
        rintro _ lo₁ gh₁ ⟨same, x', own, outside, inside⟩
        subst same
        apply kfree_rule managed owned
        refine pure_rule (.inr ⟨rfl, scarce, x', own, ?_, fun _ claim => claim, fun f holds => ?_, outside, inside⟩)
        · funext k f
          simp [Gh.lose, Gh.see, Gh.take]
        · exact (started.held f holds).2
    · intro scarce
      apply Outline.andThen (cleanup at_d (Proc.setDir_self at_d).symm (fun _ _ => rfl) noclaim settled)
      rintro _ lo₁ gh₁ ⟨same, x', own, outside, inside⟩
      subst same
      exact pure_rule (.inr ⟨rfl, scarce, x', own, rfl, noclaim, fun _ _ => rfl, outside, inside⟩)

theorem allocuvm_outline {oldsz newsz : Nat} (at_d : lo.dirs d = some x) (noclaim : ∀ f, ¬ gh.claim f)
    (settled : ∀ f, gh.tok .uncounted f = 0)
    (free : S.strict → newsz < kernBase → ∀ v, pgRoundUp oldsz ≤ v → v < pgRoundUp newsz → (x.pte v).p = false) :
    S.Outline (allocuvm d oldsz newsz) lo gh (fun size lo' gh' =>
      if newsz < kernBase ∧ oldsz ≤ newsz then
        Grown S d x (pgRoundUp oldsz) (pgRoundUp oldsz) (pgRoundUp newsz) newsz (lo, gh) size (lo', gh')
      else size = (if kernBase ≤ newsz then 0 else oldsz) ∧ lo' = lo ∧ gh' = gh) := by
  unfold allocuvm
  by_cases large : kernBase ≤ newsz
  · rw [if_pos large]
    apply pure_rule
    rw [if_neg (by omega), if_pos large]
    exact ⟨rfl, rfl, rfl⟩
  · rw [if_neg large]
    by_cases small : newsz < oldsz
    · rw [if_pos small]
      apply pure_rule
      rw [if_neg (by omega), if_neg large]
      exact ⟨rfl, rfl, rfl⟩
    · rw [if_neg small]
      have order : pgRoundUp oldsz ≤ pgRoundUp newsz := by
        unfold pgRoundUp pgSize
        omega
      have grown := allocLoop_outline (S := S) (a := pgRoundUp oldsz)
        (n := pgRoundUp newsz - pgRoundUp oldsz) at_d (by omega) (le_refl _) (by omega) noclaim settled
        (fun strict => free strict (by omega))
      refine grown.mono fun size lo' gh' done => ?_
      rw [if_pos (by omega)]
      exact done

theorem clearpteu_outline {uva : Nat} (at_d : lo.dirs d = some x) (noclaim : ∀ f, ¬ gh.claim f)
    (has : S.strict → x.Has (pageOf uva)) :
    S.Outline (clearpteu d uva) lo gh (fun _ lo' gh' => gh' = gh ∧ ∃ x', lo' = lo.setDir d x' ∧
      x'.pte = update x.pte (pageOf uva) { x.pte (pageOf uva) with u := false } ∧ Grows (lo, gh) (lo', gh')) := by
  unfold clearpteu
  apply walk_rule at_d
  · intro has
    apply pte_rule
    intro _
    rw [Proc.dir_of at_d]
    generalize entry : x.pte (pageOf uva) = e
    rw [← Program.bind_ret (ask _)]
    apply setPte_keep_rule at_d has ?_ noclaim
    · intro grows
      exact pure_rule ⟨rfl, _, rfl, PgDir.pte_setPte has _, grows⟩
    · intro _
      rw [entry]
      rfl
  · exact fun missing => panic_rule fun strict => missing (has strict)

end Xv6
