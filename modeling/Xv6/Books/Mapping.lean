import Xv6.Books.Tables

namespace Xv6

open CommandProgram Function Ledger Discipline

variable [KernelImage] {ι : Type} [Fintype ι] [DecidableEq ι]
variable {S : Setting ι} {α : Type} {lo : Proc} {gh : Gh} {post : α → Proc → Gh → Prop}
variable {d : Nat} {x : PgDir}

theorem panic_rule {message : String} (lax : ¬ S.strict) : S.Outline (panic message : Vm α) lo gh post :=
  outline_fail.mpr ⟨lax, by simp⟩

theorem pure_rule {value : α} (done : post value lo gh) : S.Outline (pure value) lo gh post :=
  outline_ret.mpr done

theorem Outline.andThen {β : Type} {program : Vm β} {rest : β → Vm α} {mid : β → Proc → Gh → Prop}
    (first : S.Outline program lo gh mid)
    (second : ∀ value lo' gh', mid value lo' gh' → S.Outline (rest value) lo' gh' post) :
    S.Outline (program >>= rest) lo gh post :=
  Outline.bind (first.mono second)

omit [KernelImage] in
theorem Gh.plain_eq {g : Gh} (noclaim : ∀ f, ¬ g.claim f) : ({ g with claim := fun _ => False } : Gh) = g := by
  have none : g.claim = fun _ => False := funext fun f => eq_false (noclaim f)
  cases g
  simp_all

omit [KernelImage] in
theorem Gh.ext_plain {g g' : Gh} (tok : g'.tok = g.tok) (seen : g'.seen = g.seen) (noclaim : ∀ f, ¬ g.claim f)
    (noclaim' : ∀ f, ¬ g'.claim f) : g' = g := by
  have claim : g'.claim = g.claim := funext fun f => propext ⟨fun c => absurd c (noclaim' f), fun c => absurd c (noclaim f)⟩
  cases g
  cases g'
  simp_all

/-- The bytes of what was held stay the same, whether or not it still is. -/
def SeesAs (a b : Proc × Gh) : Prop := ∀ f, Held a f → (b.2.seen f).1 = (a.2.seen f).1

section

omit [KernelImage]

theorem Grows.seesAs {a b : Proc × Gh} (grows : Grows a b) : SeesAs a b := fun f holds => (grows.held f holds).2

theorem Grows.seesAs_trans {a b c : Proc × Gh} (grows : Grows a b) (sees : SeesAs b c) : SeesAs a c := by
  intro f holds
  obtain ⟨kept, same⟩ := grows.held f holds
  exact (sees f kept).trans same

theorem Grows.take {f : Nat} (c : Page × Mark) (unheld : ¬ Held (lo, gh) f) : Grows (lo, gh) (lo, gh.take f c) where
  claim f claim := absurd claim id
  held g holds := by
    refine ⟨?_, ?_⟩
    · unfold Held Ledger.held at *
      simp only [account, Gh.take] at *
      omega
    · have other : g ≠ f := fun same => unheld (same ▸ holds)
      simp [Gh.take, other]

theorem Grows.take_see {f : Nat} (c : Page × Mark) (page : Page) (unheld : ¬ Held (lo, gh) f) :
    Grows (lo, gh) (lo, (gh.take f c).see f page) where
  claim f claim := absurd claim id
  held g holds := by
    obtain ⟨kept, same⟩ := (Grows.take c unheld).held g holds
    refine ⟨kept, ?_⟩
    have other : g ≠ f := fun equal => unheld (equal ▸ holds)
    simpa [Gh.see, other] using same

end

/-- `x'` is `x` with page tables added. -/
structure PgDir.Widened (x x' : PgDir) : Prop where
  pte : x'.pte = x.pte
  pde : ∀ i, x.pde i ≠ none → x'.pde i = x.pde i

omit [KernelImage] in
theorem PgDir.Widened.refl (x : PgDir) : x.Widened x := ⟨rfl, fun _ _ => rfl⟩

theorem walk_rule {va : Nat} {rest : Option Nat → Vm α} (at_d : lo.dirs d = some x)
    (found : x.Has (pageOf va) → S.Outline (rest (some (pageOf va))) lo gh post)
    (missing : ¬ x.Has (pageOf va) → S.Outline (rest none) lo gh post) :
    S.Outline (walkpgdir d va false >>= rest) lo gh post := by
  unfold walkpgdir
  apply pde_rule
  rw [Proc.dir_of at_d]
  cases entry : x.pde (pageOf va / npdEntries) with
  | none => exact missing (fun has => has entry)
  | some pa => exact found (by simp [PgDir.Has, entry])

theorem walk_alloc_rule {va : Nat} {rest : Option Nat → Vm α} (at_d : lo.dirs d = some x)
    (inside : pageOf va < vaPages) (noclaim : ∀ f, ¬ gh.claim f)
    (found : ∀ x' gh', x.Widened x' → x'.Has (pageOf va) → gh'.tok = gh.tok → (∀ f, ¬ gh'.claim f) →
      Grows (lo, gh) (lo.setDir d x', gh') → S.Outline (rest (some (pageOf va))) (lo.setDir d x') gh' post)
    (missing : S.scarce → S.Outline (rest none) lo gh post) :
    S.Outline (walkpgdir d va true >>= rest) lo gh post := by
  unfold walkpgdir
  apply pde_rule
  rw [Proc.dir_of at_d]
  cases entry : x.pde (pageOf va / npdEntries) with
  | some pa =>
    have same := found x gh (.refl x) (by simp [PgDir.Has, entry]) rfl noclaim
    rw [Proc.setDir_self at_d] at same
    exact same (.refl _)
  | none =>
    apply kalloc_rule
    · intro f c managed unheld
      have bound : pageOf va / npdEntries < npdEntries := by
        rw [vaPages_eq] at inside
        unfold npdEntries
        omega
      apply setPde_rule at_d entry bound (by simp [Gh.take, unit])
      intro grows
      apply found (x.setPde (pageOf va / npdEntries) f) ((gh.take f c).lose .owner f)
      · refine ⟨PgDir.pte_setPde entry f, fun i present => ?_⟩
        rw [PgDir.pde_setPde]
        have other : i ≠ pageOf va / npdEntries := fun same => present (same ▸ entry)
        simp [other]
      · simp [PgDir.Has, PgDir.pde_setPde]
      · exact Gh.gain_lose gh .owner f
      · exact fun f claim => claim
      · exact (Grows.take c unheld).trans grows
    · exact missing

/-- The one round of `mappages` for one page of the user half, up to the writing of the entry. -/
theorem mapPage_rule {i pa : Nat} {perm : Perm} {rest : Bool → Vm α} (at_d : lo.dirs d = some x)
    (user : i < userPages) (noclaim : ∀ f, ¬ gh.claim f) (free : S.strict → (x.pte i).p = false)
    (mapped : ∀ x' gh', x.Widened x' → x'.Has i → (x.pte i).p = false → gh'.tok = gh.tok → (∀ f, ¬ gh'.claim f) →
      Grows (lo, gh) (lo.setDir d x', gh') →
      S.Outline (ask (.setPte d i (.make pa perm)) >>= fun _ => rest true) (lo.setDir d x') gh' post)
    (failed : S.scarce → S.Outline (rest false) lo gh post) :
    S.Outline (mappages d (i * pgSize) pgSize pa perm >>= rest) lo gh post := by
  rw [userPages_eq] at user
  have first : pageOf (i * pgSize) = i := by
    unfold pageOf pgSize
    omega
  have last : pageOf ((i * pgSize + pgSize + (2 ^ 32 - 1)) % 2 ^ 32) = i := by
    unfold pageOf pgSize
    omega
  have rounds : vaPages = (vaPages - 1) + 1 := by rw [vaPages_eq]
  have loop : mappages d (i * pgSize) pgSize pa perm =
      mapLoop d i perm ((vaPages - 1) + 1) i pa := by
    unfold mappages
    rw [first, last, ← rounds]
  rw [loop]
  unfold mapLoop
  simp only [bind_assoc]
  apply walk_alloc_rule at_d (by rw [first, vaPages_eq]; omega) noclaim
  · intro x' gh' widened has tok noclaim' grows
    rw [first] at has ⊢
    simp only [bind_assoc]
    apply pte_rule
    intro _
    rw [Proc.dir_of (x := x') (by simp), widened.pte]
    cases present : (x.pte i).p
    · simpa only [bind_assoc, pure_bind, Bool.false_eq_true, if_true, if_false]
        using mapped x' gh' widened has present tok noclaim' grows
    · exact Outline.bind (panic_rule (fun strict => by simp [free strict] at present))
  · simpa only [pure_bind] using failed

/-- What the pages from `a` to `last` of a table hold after `mappages` from page `pa` on. -/
def PgDir.over (entry : Nat → Pte) (a last pa : Nat) (perm : Perm) (v : Nat) : Pte :=
  if a ≤ v ∧ v ≤ last then .make (pa + (v - a)) perm else entry v

/-- The table at `d` has become `x'`, and otherwise the operation only added. -/
structure Added (d : Nat) (x' : PgDir) (a b : Proc × Gh) : Prop where
  own : b.1 = a.1.setDir d x'
  tok : b.2.tok = a.2.tok
  noclaim : ∀ f, ¬ b.2.claim f
  grows : Grows a b

section

omit [KernelImage]

theorem Added.refl {p : Proc} {g : Gh} (at_d : p.dirs d = some x) (noclaim : ∀ f, ¬ g.claim f) :
    Added d x (p, g) (p, g) := ⟨(Proc.setDir_self at_d).symm, rfl, noclaim, .refl _⟩

theorem Added.trans {y z : PgDir} {a b c : Proc × Gh} (first : Added d y a b) (second : Added d z b c) :
    Added d z a c where
  own := by rw [second.own, first.own, Proc.setDir_setDir]
  tok := second.tok.trans first.tok
  noclaim := second.noclaim
  grows := first.grows.trans second.grows

theorem Added.at_d {x' : PgDir} {a b : Proc × Gh} (added : Added d x' a b) : b.1.dirs d = some x' := by
  rw [added.own, Proc.setDir_dirs, update_self]

end

theorem mapLoop_kernel {q : Perm} {last n a pa : Nat} (at_d : lo.dirs d = some x) (kernel : userPages ≤ a)
    (order : a ≤ last) (inside : last < vaPages) (rounds : last - a < n) (frame : pa + (last - a) < vaPages)
    (noclaim : ∀ f, ¬ gh.claim f) (free : S.strict → ∀ v, a ≤ v → v ≤ last → (x.pte v).p = false) :
    S.Outline (mapLoop d last q n a pa) lo gh (fun mapped lo' gh' =>
      ∃ x', Added d x' (lo, gh) (lo', gh') ∧ (∀ v, v < userPages → x'.pte v = x.pte v) ∧
        (mapped = true → x'.pte = PgDir.over x.pte a last pa q) ∧ (mapped = false → S.scarce)) := by
  induction n generalizing a pa x lo gh with
  | zero => omega
  | succ n ih =>
    unfold mapLoop
    have first : pageOf (a * pgSize) = a := by
      unfold pageOf pgSize
      omega
    apply walk_alloc_rule at_d (by rw [first]; omega) noclaim
    · intro x₁ gh₁ widened has tok noclaim₁ grows
      rw [first] at has ⊢
      apply pte_rule
      intro _
      rw [Proc.dir_of (x := x₁) (by simp), widened.pte]
      cases present : (x.pte a).p
      · simp only [Bool.false_eq_true, if_false]
        apply setPte_keep_rule (Proc.setDir_dirs lo d x₁ ▸ update_self ..) has (fun user => by omega) noclaim₁
        intro grows₁
        rw [Proc.setDir_setDir] at grows₁ ⊢
        have added : Added d (x₁.setPte a (.make pa q)) (lo, gh) (lo.setDir d (x₁.setPte a (.make pa q)), gh₁) :=
          ⟨rfl, tok, noclaim₁, grows.trans grows₁⟩
        have entries : (x₁.setPte a (.make pa q)).pte = update x.pte a (.make pa q) := by
          rw [PgDir.pte_setPte has, widened.pte]
        by_cases done : a = last
        · rw [if_pos done]
          refine pure_rule ⟨_, added, fun v user => ?_, fun _ => ?_, fun wrong => absurd wrong (by decide)⟩
          · rw [entries, update_of_ne (by omega)]
          · subst done
            rw [entries]
            funext v
            unfold PgDir.over
            by_cases same : v = a
            · subst same
              simp
            · have outside : ¬ (a ≤ v ∧ v ≤ a) := by omega
              simp [same, outside]
        · rw [if_neg done]
          have next : (a + 1) % vaPages = a + 1 := Nat.mod_eq_of_lt (by omega)
          have next' : (pa + 1) % vaPages = pa + 1 := Nat.mod_eq_of_lt (by omega)
          rw [next, next']
          refine (ih added.at_d (by omega) (by omega) (by omega) (by omega) noclaim₁ ?_).mono ?_
          · intro strict v low high
            rw [entries, update_of_ne (by omega)]
            exact free strict v (by omega) high
          · rintro mapped lo' gh' ⟨x', added', below, whole, failing⟩
            refine ⟨x', added.trans added', fun v user => ?_, fun success => ?_, failing⟩
            · rw [below v user, entries, update_of_ne (by omega)]
            · rw [whole success, entries]
              funext v
              unfold PgDir.over
              rcases Nat.lt_trichotomy v a with low | same | high
              · have outside : ¬ (a + 1 ≤ v ∧ v ≤ last) := by omega
                have outside' : ¬ (a ≤ v ∧ v ≤ last) := by omega
                rw [if_neg outside, if_neg outside', update_of_ne (by omega)]
              · subst same
                have outside : ¬ (v + 1 ≤ v ∧ v ≤ last) := by omega
                rw [if_neg outside, if_pos ⟨le_refl v, order⟩]
                simp
              · by_cases high' : v ≤ last
                · have shift : pa + 1 + (v - (a + 1)) = pa + (v - a) := by omega
                  rw [if_pos ⟨by omega, high'⟩, if_pos ⟨by omega, high'⟩, shift]
                · rw [if_neg (by omega), if_neg (by omega), update_of_ne (by omega)]
      · exact panic_rule (fun strict => by simp [free strict a (le_refl a) order] at present)
    · intro scarce
      exact pure_rule ⟨x, .refl at_d noclaim, fun _ _ => rfl, fun wrong => absurd wrong (by decide), fun _ => scarce⟩

end Xv6
