import Xv6.Books.Space

namespace Xv6

open CommandProgram Function Ledger Discipline

variable {ι : Type} [Fintype ι] [DecidableEq ι]
variable {S : Setting ι} {α : Type} {lo : Proc} {gh : Gh} {post : α → Proc → Gh → Prop}
variable {pgdir d : Nat} {x y : PgDir}

theorem Proc.setDir_comm (p : Proc) {d e : Nat} (different : d ≠ e) (x y : PgDir) :
    (p.setDir d x).setDir e y = (p.setDir e y).setDir d x := by
  unfold Proc.setDir
  rw [update_comm different.symm]

theorem Grows.of_tok {g : Gh} (noclaim : ∀ f, ¬ g.claim f) (seen : g.seen = gh.seen)
    (tok : ∀ k f, k ≠ .uncounted → k ≠ .dropped → g.tok k f = gh.tok k f) : Grows (lo, gh) (lo, g) := by
  refine .of_held noclaim (fun f => ?_) (fun f => by rw [seen])
  unfold Ledger.held
  simp only [account]
  rw [tok .reader f (by decide) (by decide), tok .writer f (by decide) (by decide),
    tok .owner f (by decide) (by decide)]

/-- Entries below `last` may have lost their write permission, and nothing else is different. -/
structure PgDir.Weakened (x x' : PgDir) (last : Nat) : Prop where
  pde : x'.pde = x.pde
  entries : ∀ v, x'.pte v = x.pte v ∨ (v < last ∧ x'.pte v = { x.pte v with w := false })

theorem PgDir.Weakened.refl (x : PgDir) (last : Nat) : x.Weakened x last := ⟨rfl, fun _ => .inl rfl⟩

theorem PgDir.Weakened.mono {x x' : PgDir} {last last' : Nat} (weak : x.Weakened x' last) (le : last ≤ last') :
    x.Weakened x' last' := by
  refine ⟨weak.pde, fun v => ?_⟩
  rcases weak.entries v with same | ⟨below, weaker⟩
  · exact .inl same
  · exact .inr ⟨by omega, weaker⟩

theorem PgDir.Weakened.trans {x y z : PgDir} {last : Nat} (first : x.Weakened y last) (second : y.Weakened z last) :
    x.Weakened z last := by
  refine ⟨second.pde.trans first.pde, fun v => ?_⟩
  rcases second.entries v with same | ⟨below, weaker⟩
  · rw [same]
    exact first.entries v
  · rcases first.entries v with same₁ | ⟨below₁, weaker₁⟩
    · exact .inr ⟨below, by rw [weaker, same₁]⟩
    · exact .inr ⟨below, by rw [weaker, weaker₁]⟩

/-- Two tables beside each other: that of a parent and the one made for its child. -/
structure Forked (pgdir d : Nat) (x' y' : PgDir) (a b : Proc × Gh) : Prop where
  own : b.1 = (a.1.setDir pgdir x').setDir d y'
  tok : b.2.tok = a.2.tok
  noclaim : ∀ f, ¬ b.2.claim f
  grows : Grows a b

/-- The child's table did not come about and is gone; the parent's is `x'`. -/
structure Unforked (pgdir d : Nat) (x' : PgDir) (a b : Proc × Gh) : Prop where
  own : b.1 = (a.1.setDir pgdir x').dropDir d
  tok : b.2.tok = a.2.tok
  noclaim : ∀ f, ¬ b.2.claim f
  sees : SeesAs a b

variable [KernelImage]

section

variable {x₁ y₁ x₂ y₂ : PgDir} {a b c : Proc × Gh}

section

omit [KernelImage]

theorem Forked.trans (different : pgdir ≠ d) (first : Forked pgdir d x₁ y₁ a b) (second : Forked pgdir d x₂ y₂ b c) :
    Forked pgdir d x₂ y₂ a c where
  own := by
    rw [second.own, first.own, Proc.setDir_comm _ different.symm, Proc.setDir_setDir, Proc.setDir_setDir,
      Proc.setDir_comm _ different]
  tok := second.tok.trans first.tok
  noclaim := second.noclaim
  grows := first.grows.trans second.grows

theorem Forked.then_unforked (different : pgdir ≠ d) (first : Forked pgdir d x₁ y₁ a b)
    (second : Unforked pgdir d x₂ b c) : Unforked pgdir d x₂ a c where
  own := by
    rw [second.own, first.own]
    simp only [Proc.setDir, Proc.dropDir]
    rw [update_comm different.symm, update_idem, update_idem, update_comm different]
  tok := second.tok.trans first.tok
  noclaim := second.noclaim
  sees := first.grows.seesAs_trans second.sees

theorem Forked.at_pgdir (different : pgdir ≠ d) (forked : Forked pgdir d x₁ y₁ a b) : b.1.dirs pgdir = some x₁ := by
  rw [forked.own]
  simp [different]

theorem Forked.at_d (forked : Forked pgdir d x₁ y₁ a b) : b.1.dirs d = some y₁ := by
  rw [forked.own]
  simp

theorem Forked.refl {p : Proc} {g : Gh} (at_pgdir : p.dirs pgdir = some x) (at_d : p.dirs d = some y)
    (noclaim : ∀ f, ¬ g.claim f) : Forked pgdir d x y (p, g) (p, g) where
  own := by rw [Proc.setDir_self at_pgdir, Proc.setDir_self at_d]
  tok := rfl
  noclaim := noclaim
  grows := .refl _

end

end

theorem unfork_outline {lo₁ : Proc} {gh₁ : Gh} (forked : Forked pgdir d x y (lo, gh) (lo₁, gh₁))
    (settled : ∀ f, gh.tok .uncounted f = 0) :
    S.Outline (freevm d) lo₁ gh₁ (fun _ lo' gh' => Unforked pgdir d x (lo, gh) (lo', gh')) := by
  have tok : gh₁.tok = gh.tok := forked.tok
  refine (freevm_outline forked.at_d forked.noclaim (fun f => by rw [tok, settled])).mono ?_
  rintro _ lo' gh' ⟨own, rfl⟩
  have own₁ : lo₁ = (lo.setDir pgdir x).setDir d y := forked.own
  exact ⟨by rw [own, own₁]; simp [Proc.setDir, Proc.dropDir], tok, forked.noclaim, forked.grows.seesAs⟩

/-- The entry that `copyuvm` gives the child. -/
def Pte.shared (e : Pte) : Pte := .make e.addr ⟨false, e.u⟩

theorem shareLoop_outline {n i : Nat} (cow : S.kernel = .cow) (different : pgdir ≠ d)
    (at_pgdir : lo.dirs pgdir = some x) (at_d : lo.dirs d = some y) (user : i + n ≤ userPages)
    (noclaim : ∀ f, ¬ gh.claim f) (settled : ∀ f, gh.tok .uncounted f = 0)
    (present : S.strict → ∀ v, i ≤ v → v < i + n → (x.pte v).p = true)
    (free : S.strict → ∀ v, i ≤ v → v < i + n → (y.pte v).p = false) :
    S.Outline (shareLoop pgdir d n i) lo gh (fun copied lo' gh' => ∃ x', x.Weakened x' (i + n) ∧
      (0 < n → x'.pte i = { x.pte i with w := false }) ∧
      (copied = true → ∃ y', Forked pgdir d x' y' (lo, gh) (lo', gh') ∧
        (∀ v, i ≤ v → v < i + n → (x.pte v).p = true ∧ y'.pte v = (x.pte v).shared) ∧
        ∀ v, ¬ (i ≤ v ∧ v < i + n) → y'.pte v = y.pte v) ∧
      (copied = false → S.scarce ∧ Unforked pgdir d x' (lo, gh) (lo', gh'))) := by
  induction n generalizing i x y lo gh with
  | zero =>
    unfold shareLoop
    refine pure_rule ⟨x, .refl x _, fun some => absurd some (by decide),
      fun _ => ⟨y, .refl at_pgdir at_d noclaim, fun v low high => ?_, fun _ _ => rfl⟩, fun wrong => absurd wrong (by decide)⟩
    omega
  | succ n ih =>
    unfold shareLoop
    have page : pageOf (i * pgSize) = i := by
      unfold pageOf pgSize
      omega
    apply walk_rule at_pgdir
    · intro has
      rw [page] at has ⊢
      apply pte_rule
      intro facts
      have managed := facts.entry (v := i) at_pgdir (by omega)
      rw [Proc.dir_of at_pgdir]
      generalize entry : x.pte i = e at managed
      by_cases mapped : e.p = true
      · rw [if_pos mapped]
        apply setPte_restrict_rule at_pgdir has entry noclaim
        intro grows₁
        have entries : (x.setPte i { e with w := false }).pte = update x.pte i { e with w := false } :=
          PgDir.pte_setPte has _
        have at_d₁ : (lo.setDir pgdir (x.setPte i { e with w := false })).dirs d = some y := by
          simpa [different.symm] using at_d
        have weak₁ : x.Weakened (x.setPte i { e with w := false }) (i + 1) := by
          refine ⟨PgDir.pde_setPte .., fun v => ?_⟩
          rw [entries]
          by_cases here : v = i
          · subst here
            exact .inr ⟨by omega, by rw [update_self, entry]⟩
          · exact .inl (by rw [update_of_ne here])
        apply mapPage_rule at_d₁ (by omega) noclaim (fun strict => free strict i (le_refl i) (by omega))
        · intro y₁ gh₁ widened has₁ absent tok₁ noclaim₁ grows₂
          have at_y₁ : ((lo.setDir pgdir (x.setPte i { e with w := false })).setDir d y₁).dirs d = some y₁ := by
            simp
          have at_x₁ : ((lo.setDir pgdir (x.setPte i { e with w := false })).setDir d y₁).dirs pgdir =
              some (x.setPte i { e with w := false }) := by
            simp [different]
          apply setPte_share_rule at_y₁ has₁ (by omega) (by rw [widened.pte]; exact absent) at_x₁
            (by rw [entries, update_self]; exact ⟨mapped, rfl, rfl⟩) (by rw [tok₁]; exact settled _)
          intro grows₃
          rw [if_pos rfl]
          apply iRCount_rule cow (managed mapped).1 (by simp [Gh.gain, unit])
          rw [Proc.setDir_setDir] at grows₃ ⊢
          have tokens : ((gh₁.gain .uncounted e.addr).lose .uncounted e.addr).tok = gh.tok := by
            rw [Gh.gain_lose, tok₁]
          have grows₄ : Grows (((lo.setDir pgdir (x.setPte i { e with w := false })).setDir d
              (y₁.setPte i (.make e.addr ⟨false, e.u⟩))), gh₁.gain .uncounted e.addr)
              (((lo.setDir pgdir (x.setPte i { e with w := false })).setDir d
              (y₁.setPte i (.make e.addr ⟨false, e.u⟩))), (gh₁.gain .uncounted e.addr).lose .uncounted e.addr) := by
            refine Grows.of_tok (fun _ claim => claim) rfl ?_
            intro k f notUncounted _
            simp [Gh.lose, unit, notUncounted]
          have forked : Forked pgdir d (x.setPte i { e with w := false }) (y₁.setPte i (.make e.addr ⟨false, e.u⟩))
              (lo, gh) (((lo.setDir pgdir (x.setPte i { e with w := false })).setDir d
              (y₁.setPte i (.make e.addr ⟨false, e.u⟩))), (gh₁.gain .uncounted e.addr).lose .uncounted e.addr) :=
            ⟨rfl, tokens, fun _ claim => claim, grows₁.trans (grows₂.trans (grows₃.trans grows₄))⟩
          have childs : (y₁.setPte i (.make e.addr ⟨false, e.u⟩)).pte = update y.pte i e.shared := by
            rw [PgDir.pte_setPte has₁, widened.pte]
            rfl
          refine (ih (forked.at_pgdir different) forked.at_d (by omega) forked.noclaim
            (by rw [tokens]; exact settled) ?_ ?_).mono ?_
          · intro strict v low high
            rw [entries, update_of_ne (by omega)]
            exact present strict v (by omega) (by omega)
          · intro strict v low high
            rw [childs, update_of_ne (by omega)]
            exact free strict v (by omega) (by omega)
          · rintro copied lo' gh' ⟨x', weak, _, success, failure⟩
            have first : x'.pte i = { e with w := false } := by
              rcases weak.entries i with same | ⟨_, weaker⟩
              · rw [same, entries, update_self]
              · rw [weaker, entries, update_self]
            refine ⟨x', (weak₁.mono (by omega)).trans (weak.mono (by omega)), fun _ => first, fun done => ?_, fun failed => ?_⟩
            · obtain ⟨y', forked', inside, outside⟩ := success done
              refine ⟨y', forked.trans different forked', fun v low high => ?_, fun v out => ?_⟩
              · by_cases here : v = i
                · subst here
                  rw [outside v (by omega), childs, update_self, entry]
                  exact ⟨mapped, rfl⟩
                · have old := inside v (by omega) (by omega)
                  rwa [entries, update_of_ne here] at old
              · rw [outside v (by omega), childs, update_of_ne (by omega)]
            · exact ⟨(failure failed).1, forked.then_unforked different (failure failed).2⟩
        · intro scarce
          rw [if_neg (by decide)]
          have forked : Forked pgdir d (x.setPte i { e with w := false }) y (lo, gh)
              (lo.setDir pgdir (x.setPte i { e with w := false }), gh) :=
            ⟨(Proc.setDir_self at_d₁).symm, rfl, noclaim, grows₁⟩
          apply Outline.andThen (unfork_outline forked settled)
          intro _ lo' gh' unforked
          refine pure_rule ⟨_, weak₁.mono (by omega), fun _ => ?_, fun wrong => absurd wrong (by decide),
            fun _ => ⟨scarce, unforked⟩⟩
          rw [entries, update_self]
      · rw [if_neg mapped]
        exact panic_rule (fun strict => mapped (entry ▸ present strict i (le_refl i) (by omega)))
    · intro missing
      rw [page] at missing
      exact panic_rule fun strict => missing (PgDir.has_of_present (present strict i (le_refl i) (by omega)))

/-- The entries of the child's table from `i` up to `last` lead to copies of the parent's pages. -/
structure Copied (x y : PgDir) (g g' : Gh) (v : Nat) : Prop where
  source : (x.pte v).p = true
  present : (y.pte v).p = true
  unprivileged : (y.pte v).u = (x.pte v).u
  page : (g'.seen (y.pte v).addr).1 = (g.seen (x.pte v).addr).1

theorem copyLoop_outline {n i : Nat} (different : pgdir ≠ d)
    (at_pgdir : lo.dirs pgdir = some x) (at_d : lo.dirs d = some y) (user : i + n ≤ userPages)
    (noclaim : ∀ f, ¬ gh.claim f) (settled : ∀ f, gh.tok .uncounted f = 0)
    (present : S.strict → ∀ v, i ≤ v → v < i + n → (x.pte v).p = true)
    (free : S.strict → ∀ v, i ≤ v → v < i + n → (y.pte v).p = false) :
    S.Outline (copyLoop pgdir d n i) lo gh (fun copied lo' gh' =>
      (copied = true → ∃ y', Forked pgdir d x y' (lo, gh) (lo', gh') ∧
        (∀ v, i ≤ v → v < i + n → Copied x y' gh gh' v ∧ (y'.pte v).w = (x.pte v).w) ∧
        ∀ v, ¬ (i ≤ v ∧ v < i + n) → y'.pte v = y.pte v) ∧
      (copied = false → S.scarce ∧ Unforked pgdir d x (lo, gh) (lo', gh'))) := by
  induction n generalizing i y lo gh with
  | zero =>
    unfold copyLoop
    refine pure_rule ⟨fun _ => ⟨y, .refl at_pgdir at_d noclaim, fun v low high => ?_, fun _ _ => rfl⟩,
      fun wrong => absurd wrong (by decide)⟩
    omega
  | succ n ih =>
    unfold copyLoop
    have page : pageOf (i * pgSize) = i := by
      unfold pageOf pgSize
      omega
    apply walk_rule at_pgdir
    · intro has
      rw [page] at has ⊢
      apply pte_rule
      intro facts
      have source := facts.entry (v := i) at_pgdir (by omega)
      rw [Proc.dir_of at_pgdir]
      generalize entry : x.pte i = e at source
      by_cases mapped : e.p = true
      · rw [if_pos mapped]
        apply kalloc_rule
        · intro mem c managed unheld
          have other : e.addr ≠ mem := fun same => unheld (same ▸ (source mapped).2)
          apply memmove_rule (by simp [Gh.take, unit]) ((Grows.take c unheld).held _ (source mapped).2).1
          have bytes : ((gh.take mem c).seen e.addr).1 = (gh.seen e.addr).1 := by simp [Gh.take, other]
          rw [bytes]
          have owned : 0 < ((gh.take mem c).see mem (gh.seen e.addr).1).tok .owner mem := by
            simp [Gh.see, Gh.take, unit]
          have started := Grows.take_see c (gh.seen e.addr).1 unheld
          apply mapPage_rule at_d (by omega) (fun _ claim => claim)
            (fun strict => free strict i (le_refl i) (by omega))
          · intro y₁ gh₁ widened has₁ absent tok₁ noclaim₁ grows₁
            have at_y₁ : (lo.setDir d y₁).dirs d = some y₁ := by simp
            apply setPte_install_rule at_y₁ has₁ (by omega) (by rw [widened.pte]; exact absent)
              (by rw [tok₁]; exact owned)
            intro gh₂ tok₂ noclaim₂ grows₂
            rw [Proc.setDir_setDir] at grows₂ ⊢
            rw [if_pos rfl]
            have childs : (y₁.setPte i (.make mem ⟨e.w, e.u⟩)).pte = update y.pte i (.make mem ⟨e.w, e.u⟩) := by
              rw [PgDir.pte_setPte has₁, widened.pte]
            have tokens : gh₂.tok = gh.tok := by
              rw [tok₂]
              funext k f
              simp [Gh.lose, tok₁, Gh.see, Gh.take]
            have forked : Forked pgdir d x (y₁.setPte i (.make mem ⟨e.w, e.u⟩)) (lo, gh)
                (lo.setDir d (y₁.setPte i (.make mem ⟨e.w, e.u⟩)), gh₂) :=
              ⟨by rw [Proc.setDir_self at_pgdir], tokens, noclaim₂, started.trans (grows₁.trans grows₂)⟩
            have fresh : Held (lo, (gh.take mem c).see mem (gh.seen e.addr).1) mem :=
              held_of_tally (k := .owner) (.inr (.inr rfl)) (by simp only [account]; omega)
            obtain ⟨held₂, bytes₂⟩ := (grows₁.trans grows₂).held mem fresh
            refine (ih (forked.at_pgdir different) forked.at_d (by omega) noclaim₂ (by rw [tokens]; exact settled)
              ?_ ?_).mono ?_
            · exact fun strict v low high => present strict v (by omega) (by omega)
            · intro strict v low high
              rw [childs, update_of_ne (by omega)]
              exact free strict v (by omega) (by omega)
            · rintro copied lo' gh' ⟨success, failure⟩
              refine ⟨fun done => ?_, fun failed => ?_⟩
              · obtain ⟨y', forked', inside, outside⟩ := success done
                refine ⟨y', forked.trans different forked', fun v low high => ?_, fun v out => ?_⟩
                · by_cases here : v = i
                  · subst here
                    have child : y'.pte v = .make mem ⟨e.w, e.u⟩ := by
                      rw [outside v (by omega), childs, update_self]
                    have bytes₃ := (forked'.grows.held mem held₂).2
                    refine ⟨⟨entry ▸ mapped, by rw [child]; rfl, by rw [child, entry]; rfl, ?_⟩, by rw [child, entry]; rfl⟩
                    rw [child, entry]
                    exact (bytes₃.trans bytes₂).trans (by simp [Gh.see])
                  · obtain ⟨old, writable⟩ := inside v (by omega) (by omega)
                    refine ⟨⟨old.source, old.present, old.unprivileged, ?_⟩, writable⟩
                    have holds := (facts.entry at_pgdir (by omega) old.source).2
                    exact old.page.trans (forked.grows.held _ holds).2
                · rw [outside v (by omega), childs, update_of_ne (by omega)]
              · exact ⟨(failure failed).1, forked.then_unforked different (failure failed).2⟩
          · intro scarce
            rw [if_neg (by decide)]
            apply kfree_rule managed owned
            have tokens : (((gh.take mem c).see mem (gh.seen e.addr).1).lose .owner mem).tok = gh.tok := by
              funext k f
              simp [Gh.lose, Gh.see, Gh.take]
            have forked : Forked pgdir d x y (lo, gh) (lo, ((gh.take mem c).see mem (gh.seen e.addr).1).lose .owner mem) :=
              ⟨by rw [Proc.setDir_self at_pgdir, Proc.setDir_self at_d], tokens, fun _ claim => claim,
                .back tokens (fun _ claim => claim) (fun f holds => (started.held f holds).2)⟩
            apply Outline.andThen (unfork_outline forked settled)
            intro _ lo' gh' unforked
            exact pure_rule ⟨fun wrong => absurd wrong (by decide), fun _ => ⟨scarce, unforked⟩⟩
        · intro scarce
          apply Outline.andThen (unfork_outline (.refl at_pgdir at_d noclaim) settled)
          intro _ lo' gh' unforked
          exact pure_rule ⟨fun wrong => absurd wrong (by decide), fun _ => ⟨scarce, unforked⟩⟩
      · rw [if_neg mapped]
        exact panic_rule (fun strict => mapped (entry ▸ present strict i (le_refl i) (by omega)))
    · intro missing
      rw [page] at missing
      exact panic_rule fun strict => missing (PgDir.has_of_present (present strict i (le_refl i) (by omega)))

/-- After `copyuvm` of the pages below `last`: the parent has the same mapped, the child has copies of it. -/
def CopiedSpace (S : Setting ι) (pgdir : Nat) (x : PgDir) (last : Nat) (a : Proc × Gh) (new : Option Nat)
    (b : Proc × Gh) : Prop :=
  ∃ x', x.Weakened x' last ∧ (S.kernel = .eager → x' = x) ∧
    match new with
    | none => S.scarce ∧ b.1 = a.1.setDir pgdir x' ∧ b.2.tok = a.2.tok ∧ (∀ f, ¬ b.2.claim f) ∧ SeesAs a b
    | some d => pgdir ≠ d ∧ a.1.dirs d = none ∧ ∃ y, Forked pgdir d x' y a b ∧
      (∀ v, v < last → Copied x y a.2 b.2 v ∧ (S.kernel = .eager → (y.pte v).w = (x.pte v).w) ∧
        (S.kernel = .cow → y.pte v = (x.pte v).shared)) ∧
      ∀ v, last ≤ v → y.pte v = kmapPte v

theorem copyuvm_outline {sz : Nat} (at_pgdir : lo.dirs pgdir = some x) (bound : sz ≤ kernBase)
    (noclaim : ∀ f, ¬ gh.claim f) (settled : ∀ f, gh.tok .uncounted f = 0)
    (present : S.strict → ∀ v, v < pgRoundUp sz → (x.pte v).p = true) :
    S.Outline (copyuvm S.kernel pgdir sz) lo gh (fun new lo' gh' =>
      CopiedSpace S pgdir x (pgRoundUp sz) (lo, gh) new (lo', gh')) := by
  have user : pgRoundUp sz ≤ userPages := by
    rw [userPages_eq]
    unfold pgRoundUp pgSize
    unfold kernBase at bound
    omega
  apply known_rule
  intro known
  show S.Outline (copyuvm S.kernel pgdir sz) lo gh _
  unfold copyuvm
  apply Outline.andThen (setupkvm_outline noclaim settled)
  rintro (_ | d) lo₁ gh₁
  · rintro ⟨scarce, rfl, tok, noclaim₁, grows⟩
    refine pure_rule ⟨x, .refl x _, fun _ => rfl, scarce, ?_, tok, noclaim₁, grows.seesAs⟩
    rw [Proc.setDir_self at_pgdir]
  · rintro ⟨absent, y, added, kernel⟩
    have different : pgdir ≠ d := by
      intro same
      rw [same, absent] at at_pgdir
      exact absurd at_pgdir (by simp)
    have at_pgdir₁ : lo₁.dirs pgdir = some x := by
      have own : lo₁ = lo.setDir d y := added.own
      rw [own]
      simpa [different] using at_pgdir
    have forked : Forked pgdir d x y (lo, gh) (lo₁, gh₁) :=
      ⟨by rw [added.own, Proc.setDir_self at_pgdir], added.tok, added.noclaim, added.grows⟩
    have settled₁ : ∀ f, gh₁.tok .uncounted f = 0 := by
      have tok : gh₁.tok = gh.tok := added.tok
      rwa [tok]
    have empty : ∀ v, v < userPages → (y.pte v).p = false := by
      intro v inside
      rw [kernel, kmapPte_user inside]
      rfl
    have unforked : ∀ {x' lo' gh'}, Unforked pgdir d x' (lo, gh) (lo', gh') → lo' = lo.setDir pgdir x' := by
      intro x' lo' gh' gone
      have own : lo' = (lo.setDir pgdir x').dropDir d := gone.own
      rw [own]
      simp only [Proc.setDir, Proc.dropDir]
      rw [update_comm different, ← absent, update_eq_self]
    cases cow : S.kernel
    · have loop := shareLoop_outline (S := S) (n := pgRoundUp sz) (i := 0) cow different at_pgdir₁ added.at_d
        (by omega) added.noclaim settled₁ (fun strict v _ high => present strict v (by omega))
        (fun _ v _ high => empty v (by omega))
      apply Outline.andThen loop
      rintro copied lo' gh' ⟨x', weak, _, success, failure⟩
      rw [Nat.zero_add] at weak success
      cases copied
      · obtain ⟨scarce, gone⟩ := failure rfl
        have gone := forked.then_unforked different gone
        exact pure_rule ⟨x', weak, fun wrong => absurd wrong (by simp [cow]), scarce, unforked gone, gone.tok,
          gone.noclaim, gone.sees⟩
      · obtain ⟨y', forked', inside, outside⟩ := success rfl
        refine pure_rule ⟨x', weak, fun wrong => absurd wrong (by simp [cow]), different, absent, y',
          forked.trans different forked', fun v low => ?_, fun v high => ?_⟩
        · obtain ⟨source, entry⟩ := inside v (Nat.zero_le v) low
          refine ⟨?_, fun wrong => absurd wrong (by simp [cow]), fun _ => entry⟩
          refine ⟨source, by rw [entry]; rfl, by rw [entry]; rfl, ?_⟩
          rw [entry]
          exact ((forked.trans different forked').grows.held _ (known.entry at_pgdir (by omega) source).2).2
        · rw [outside v (by omega), kernel]
    · have loop := copyLoop_outline (S := S) (n := pgRoundUp sz) (i := 0) different at_pgdir₁ added.at_d
        (by omega) added.noclaim settled₁ (fun strict v _ high => present strict v (by omega))
        (fun _ v _ high => empty v (by omega))
      apply Outline.andThen loop
      rintro copied lo' gh' ⟨success, failure⟩
      rw [Nat.zero_add] at success
      cases copied
      · obtain ⟨scarce, gone⟩ := failure rfl
        have gone := forked.then_unforked different gone
        exact pure_rule ⟨x, .refl x _, fun _ => rfl, scarce, unforked gone, gone.tok, gone.noclaim, gone.sees⟩
      · obtain ⟨y', forked', inside, outside⟩ := success rfl
        refine pure_rule ⟨x, .refl x _, fun _ => rfl, different, absent, y', forked.trans different forked',
          fun v low => ?_, fun v high => ?_⟩
        · obtain ⟨old, writable⟩ := inside v (Nat.zero_le v) low
          refine ⟨⟨old.source, old.present, old.unprivileged, ?_⟩, fun _ => writable,
            fun wrong => absurd wrong (by simp [cow])⟩
          have holds := (known.entry at_pgdir (by omega) old.source).2
          exact old.page.trans (forked.grows.held _ holds).2
        · rw [outside v (by omega), kernel]

/-- After a fault at page `v`: the entry has become writable for the only user, leads to a copy, or the
    process is to die. The other entries are as they were. -/
inductive Faulted (S : Setting ι) (pgdir : Nat) (x : PgDir) (v : Nat) (a b : Proc × Gh) : Prop where
  | promoted (x' : PgDir) (own : b.1 = a.1.setDir pgdir x')
      (entries : x'.pte = update x.pte v { x.pte v with w := true })
  | copied (x' : PgDir) (mem : Nat) (own : b.1 = a.1.setDir pgdir x')
      (entries : x'.pte = update x.pte v (.make mem permWU))
      (page : (b.2.seen mem).1 = (a.2.seen (x.pte v).addr).1)
  | exhausted (scarce : S.scarce) (own : b.1 = { a.1 with killed := true })

theorem cowFault_outline {va : Nat} (cow : S.kernel = .cow) (at_pgdir : lo.dirs pgdir = some x)
    (user : pageOf va < userPages) (present : (x.pte (pageOf va)).p = true)
    (noclaim : ∀ f, ¬ gh.claim f) (settled : ∀ f, gh.tok .uncounted f = 0) :
    S.Outline (cowFault pgdir va) lo gh (fun _ lo' gh' =>
      Faulted S pgdir x (pageOf va) (lo, gh) (lo', gh') ∧ gh'.tok = gh.tok ∧ (∀ f, ¬ gh'.claim f) ∧
        SeesAs (lo, gh) (lo', gh')) := by
  unfold cowFault
  apply walk_rule at_pgdir
  · intro has
    apply pte_rule
    intro facts
    have source := facts.entry at_pgdir user present
    rw [Proc.dir_of at_pgdir]
    generalize entry : x.pte (pageOf va) = e at source present
    apply getRCount_rule cow source.1 source.2 (settled _)
    · rw [if_neg (by decide), if_pos rfl, ← Program.bind_ret (ask _)]
      refine setPte_promote_rule at_pgdir has user entry present ?_ ?_ ?_
      · rfl
      · exact settled _
      refine pure_rule ⟨.promoted _ rfl ?_, rfl, fun _ claim => claim, fun _ _ => rfl⟩
      rw [PgDir.pte_setPte has, entry]
    · intro n several
      rw [if_neg (by omega), if_neg (by omega)]
      have plain := Gh.plain_eq noclaim
      rw [plain]
      apply kalloc_rule
      · intro mem c managed unheld
        have other : e.addr ≠ mem := fun same => unheld (same ▸ source.2)
        apply memmove_rule (by simp [Gh.take, unit]) ((Grows.take c unheld).held _ source.2).1
        have bytes : ((gh.take mem c).seen e.addr).1 = (gh.seen e.addr).1 := by simp [Gh.take, other]
        rw [bytes]
        have started := Grows.take_see c (gh.seen e.addr).1 unheld
        apply setPte_replace_rule at_pgdir has user entry present (by simp [Gh.see, Gh.take, unit])
          (by simp [Gh.see, Gh.take, unit, settled])
        intro gh₁ tok₁ noclaim₁ seen₁
        rw [← Program.bind_ret (dRCount _)]
        apply dRCount_rule cow source.1 (by simp [tok₁, Gh.gain, unit])
        refine pure_rule ⟨.copied _ mem rfl ?_ ?_, ?_, fun _ claim => claim, ?_⟩
        · rw [PgDir.pte_setPte has]
        · rw [entry]
          exact (seen₁ mem).trans (by simp [Gh.see])
        · funext k f
          simp [Gh.lose, tok₁, Gh.gain, Gh.see, Gh.take]
        · exact fun f holds => (seen₁ f).trans (started.held f holds).2
      · intro scarce
        rw [← Program.bind_ret (ask _)]
        apply kill_rule noclaim
        exact pure_rule ⟨.exhausted scarce rfl, rfl, noclaim, fun _ _ => rfl⟩
  · exact fun missing => absurd (PgDir.has_of_present present) missing

end Xv6
