import Xv6.Books.Lifetime

namespace Xv6

open CommandProgram Function Ledger Discipline

variable {ι : Type} [Fintype ι] [DecidableEq ι]
variable {S : Setting ι} {α : Type} {lo : Proc} {gh : Gh} {post : α → Proc → Gh → Prop}
variable {d : Nat} {x x' : PgDir} {a b : Proc × Gh}

/-- A new table beside all that the process had before. -/
structure Beside (d : Nat) (x : PgDir) (a b : Proc × Gh) : Prop where
  absent : a.1.dirs d = none
  own : b.1 = a.1.setDir d x
  tok : b.2.tok = a.2.tok
  noclaim : ∀ f, ¬ b.2.claim f
  sees : SeesAs a b

theorem Beside.at_d (beside : Beside d x a b) : b.1.dirs d = some x := by
  rw [beside.own]
  simp

theorem Proc.drop_setDir {p : Proc} (absent : p.dirs d = none) (x : PgDir) : (p.setDir d x).dropDir d = p := by
  cases p
  simp_all [Proc.setDir, Proc.dropDir, update_eq_self_iff]

theorem Proc.refs_le_setDir {p : Proc} (absent : p.dirs d = none) (x : PgDir) (k : Kind) (f : Nat) :
    p.refs k f ≤ (p.setDir d x).refs k f := by
  unfold Proc.refs
  apply Nat.add_le_add_right
  apply Finset.sum_le_sum
  intro e _
  by_cases same : e = d
  · subst same
    simp [absent, dirRefs]
  · simp [same]

variable [KernelImage]

omit [KernelImage] in
theorem Beside.held (beside : Beside d x a b) (f : Nat) :
    Ledger.held (account a.1 a.2).tally f ≤ Ledger.held (account b.1 b.2).tally f := by
  have grow := fun k => Proc.refs_le_setDir beside.absent x k f
  have reader := grow .reader
  have writer := grow .writer
  have owner := grow .owner
  unfold Ledger.held account
  rw [beside.own, beside.tok]
  dsimp only
  omega

omit [KernelImage] in
theorem Beside.next {c : Proc × Gh} (beside : Beside d x a b) (own : c.1 = b.1.setDir d x') (tok : c.2.tok = b.2.tok)
    (noclaim : ∀ f, ¬ c.2.claim f) (sees : SeesAs b c) : Beside d x' a c where
  absent := beside.absent
  own := by rw [own, beside.own, Proc.setDir_setDir]
  tok := tok.trans beside.tok
  noclaim := noclaim
  sees f holds := by
    have still : Held b f := lt_of_lt_of_le holds (beside.held f)
    rw [sees f still, beside.sees f holds]

omit [DecidableEq ι] in
theorem Beside.fresh (beside : Beside d x a b) {s : Shared} {t : ι} {env : ι → Proc × Gh} {count : Nat → ℕ}
    {mark : Nat → Mark} (at_t : env t = b) (inv : S.Inv s env count mark) {v : Nat} (user : v < userPages)
    (present : (x.pte v).p = true) (writable : (x.pte v).w = true) : ¬ Held a (x.pte v).addr := by
  have at_t : env t = (b.1, b.2) := at_t
  have bound := (inv.own_tidy at_t).bound d (by simp [beside.at_d])
  have writes := tally_of_pte (g := b.2) (k := .writer) bound beside.at_d user present (by simp [writable])
  have alone := inv.books.alone t (x.pte v).addr (.inl (by simp only [at_t]; exact writes))
  have all := held_le_total (fun t => account (env t).1 (env t).2) t (x.pte v).addr
  rw [alone] at all
  simp only [at_t] at all
  have entry := PgDir.pte_refs_le (x := x) user d .writer (x.pte v).addr
  simp only [Pte.refs_present present, writable, if_true, unit, and_self] at entry
  have split := fun k => Proc.refs_with bound beside.absent x k (x.pte v).addr
  have reader := split .reader
  have writer := split .writer
  have owner := split .owner
  intro holds
  unfold Held at holds
  unfold Ledger.held account at all holds
  rw [beside.own, beside.tok] at all
  dsimp only at all holds
  omega

theorem Beside.store {v off : Nat} {bytes : List UInt8} {rest : Unit → Vm α} (beside : Beside d x a (lo, gh))
    (user : v < userPages) (present : (x.pte v).p = true) (writable : (x.pte v).w = true)
    (continues : Beside d x a (lo, gh.see (x.pte v).addr ((gh.seen (x.pte v).addr).1.store off bytes)) →
      S.Outline (rest ()) lo (gh.see (x.pte v).addr ((gh.seen (x.pte v).addr).1.store off bytes)) post) :
    S.Outline (ask (.store (x.pte v).addr off bytes) >>= rest) lo gh post := by
  apply fact_rule fun s t env count mark at_t inv => And.intro (beside.fresh at_t inv user present writable) (inv.known at_t)
  rintro ⟨fresh, known⟩
  apply store_rule (.inl (known.writer beside.at_d user present writable))
  apply continues
  refine ⟨beside.absent, beside.own, beside.tok, fun _ claim => claim, fun f holds => ?_⟩
  have other : f ≠ (x.pte v).addr := by
    rintro rfl
    exact fresh holds
  simp only [Gh.see, ne_eq, other, not_false_eq_true, update_of_ne]
  exact beside.sees f holds

/-- A page that the operation may write through the new table. -/
structure Open (x : PgDir) (v : Nat) : Prop where
  user : v < userPages
  present : (x.pte v).p = true
  writable : (x.pte v).w = true

theorem loadLoop_outline {addr offset sz k i : Nat} {ip : Inode} (beside : Beside d x a (lo, gh))
    (opened : ∀ j, j < k → Open x (pageOf (addr + (i + j * pgSize)))) :
    S.Outline (loadLoop d addr ip offset sz k i) lo gh (fun _ lo' gh' => Beside d x a (lo', gh')) := by
  induction k generalizing i gh with
  | zero => exact pure_rule beside
  | succ k ih =>
    have here := opened 0 (by omega)
    rw [Nat.zero_mul, Nat.add_zero] at here
    unfold loadLoop
    apply walk_rule beside.at_d
    case missing => exact fun missing => absurd (PgDir.has_of_present here.present) missing
    intro _
    apply pte_rule
    intro _
    rw [Proc.dir_of beside.at_d]
    apply beside.store here.user here.present here.writable
    intro beside'
    split
    · apply ih beside'
      intro j below
      have later := opened (j + 1) (by omega)
      have place : i + pgSize + j * pgSize = i + (j + 1) * pgSize := by
        rw [Nat.add_mul]
        omega
      rwa [place]
    · exact pure_rule beside'

theorem loaduvm_outline {addr offset sz : Nat} {ip : Inode} (beside : Beside d x a (lo, gh)) (aligned : addr % pgSize = 0)
    (opened : ∀ v, v * pgSize < addr + sz → Open x v) :
    S.Outline (loaduvm d addr ip offset sz) lo gh (fun _ lo' gh' => Beside d x a (lo', gh')) := by
  unfold loaduvm
  rw [if_neg (by omega)]
  apply loadLoop_outline beside
  intro j below
  apply opened
  unfold pgRoundUp at below
  unfold pageOf pgSize at *
  omega

omit [KernelImage] in
theorem ustack_length (sp : Nat) (pointers : List Nat) : (ustack sp pointers).length = 16 + 4 * pointers.length := by
  simp only [ustack, word, List.length_flatMap, List.length_cons, List.length_nil, List.map_const', List.sum_replicate,
    List.length_append, smul_eq_mul]
  omega

/-- The table of a program under construction: the pages below `last` are open, and no others are mapped. -/
structure Flat (x : PgDir) (last : Nat) : Prop where
  mapped : ∀ v, v < last → (x.pte v).p = true ∧ (x.pte v).w = true ∧ (x.pte v).u = true
  unmapped : ∀ v, last ≤ v → v < userPages → (x.pte v).p = false
  kernel : ∀ v, userPages ≤ v → x.pte v = kmapPte v

omit [KernelImage] in
theorem roundUp_user {sz : Nat} (bound : sz ≤ kernBase) : pgRoundUp sz ≤ userPages := by
  rw [userPages_eq]
  unfold pgRoundUp pgSize
  unfold kernBase at bound
  omega

omit [KernelImage] in
theorem roundUp_mono {m n : Nat} (le : m ≤ n) : pgRoundUp m ≤ pgRoundUp n := by
  unfold pgRoundUp pgSize
  omega

theorem Flat.grow {sz newsz : Nat} (flat : Flat x (pgRoundUp sz)) (beside : Beside d x a (lo, gh))
    (settled : ∀ f, a.2.tok .uncounted f = 0) :
    S.Outline (allocuvm d sz newsz) lo gh (fun size lo' gh' => ∃ x', Beside d x' a (lo', gh') ∧
      (size ≠ 0 → size = max sz newsz ∧ newsz < kernBase ∧ Flat x' (pgRoundUp size))) := by
  refine (allocuvm_outline beside.at_d beside.noclaim (by rw [beside.tok]; exact settled) fun _ small v low high => ?_).mono ?_
  · have user := roundUp_user (Nat.le_of_lt small)
    exact flat.unmapped v low (by omega)
  · intro size lo' gh' done
    by_cases grows : newsz < kernBase ∧ sz ≤ newsz
    · rw [if_pos grows] at done
      rcases done with ⟨whole, x', added, outside, inside⟩ | ⟨failed, _, x', own, tok, noclaim, sees, _, _⟩
      · refine ⟨x', beside.next added.own added.tok added.noclaim added.grows.seesAs, fun _ => ?_⟩
        have order := roundUp_mono grows.2
        have user := roundUp_user (Nat.le_of_lt grows.1)
        rw [whole]
        refine ⟨(max_eq_right grows.2).symm, grows.1, fun v low => ?_, fun v high below => ?_, fun v kernel => ?_⟩
        · by_cases before : v < pgRoundUp sz
          · rw [outside v (by omega)]
            exact flat.mapped v before
          · have zero := inside v (by omega) low
            exact ⟨zero.present, zero.writable, zero.unprivileged⟩
        · rw [outside v (by omega)]
          exact flat.unmapped v (by omega) below
        · rw [outside v (by omega)]
          exact flat.kernel v kernel
      · exact ⟨x', beside.next own tok noclaim sees, fun wrong => absurd failed wrong⟩
    · rw [if_neg grows] at done
      obtain ⟨whole, rfl, rfl⟩ := done
      refine ⟨x, beside, fun some => ?_⟩
      by_cases large : kernBase ≤ newsz
      · rw [if_pos large] at whole
        exact absurd whole some
      · rw [if_neg large] at whole
        rw [whole]
        exact ⟨by omega, by omega, flat⟩

theorem segments_outline {k i sz : Nat} {ip : Inode} (flat : Flat x (pgRoundUp sz)) (beside : Beside d x a (lo, gh))
    (bound : sz < kernBase) (settled : ∀ f, a.2.tok .uncounted f = 0) :
    S.Outline (segments d ip k i sz) lo gh (fun loaded lo' gh' => ∃ x', Beside d x' a (lo', gh') ∧
      ∀ size, loaded = some size → size < kernBase ∧ Flat x' (pgRoundUp size)) := by
  induction k generalizing i sz x lo gh with
  | zero =>
    refine pure_rule ⟨x, beside, fun size same => ?_⟩
    cases same
    exact ⟨bound, flat⟩
  | succ k ih =>
    have bad : ∀ {x' : PgDir} {lo' : Proc} {gh' : Gh}, Beside d x' a (lo', gh') →
        S.Outline (pure none) lo' gh' (fun loaded lo' gh' => ∃ x', Beside d x' a (lo', gh') ∧
          ∀ size, loaded = some size → size < kernBase ∧ Flat x' (pgRoundUp size)) :=
      fun beside' => pure_rule ⟨_, beside', fun _ wrong => absurd wrong (by simp)⟩
    unfold segments
    cases header : ip.ph i with
    | none => exact bad beside
    | some ph =>
      dsimp only
      by_cases other : ph.type ≠ elfProgLoad
      · rw [if_pos other]
        exact ih flat beside bound
      · rw [if_neg other]
        by_cases short : ph.memsz < ph.filesz
        · rw [if_pos short]
          exact bad beside
        · rw [if_neg short]
          by_cases wraps : ph.vaddr + ph.memsz < ph.vaddr
          · rw [if_pos wraps]
            exact bad beside
          · rw [if_neg wraps]
            apply Outline.andThen (flat.grow beside settled)
            rintro size lo₁ gh₁ ⟨x₁, beside₁, grown⟩
            by_cases failed : size = 0
            · rw [if_pos failed]
              exact bad beside₁
            · rw [if_neg failed]
              obtain ⟨covers, fits, flat₁⟩ := grown failed
              have small : size < kernBase := by omega
              by_cases skewed : ph.vaddr.toNat % pgSize ≠ 0
              · rw [if_pos skewed]
                exact bad beside₁
              · rw [if_neg skewed]
                have user := roundUp_user (Nat.le_of_lt small)
                apply Outline.andThen (loaduvm_outline beside₁ (not_not.mp skewed) fun v below => ?_)
                · intro loaded lo₂ gh₂ beside₂
                  cases loaded
                  · exact bad beside₂
                  · exact ih flat₁ beside₂ small
                · have inside : v < pgRoundUp size := by
                    have fits : ph.vaddr.toNat + ph.filesz.toNat ≤ (ph.vaddr + ph.memsz).toNat := by
                      rw [UInt32.lt_iff_toNat_lt] at short wraps
                      rw [UInt32.toNat_add] at wraps ⊢
                      have v := ph.vaddr.toNat_lt
                      have m := ph.memsz.toNat_lt
                      omega
                    unfold pgRoundUp pgSize at *
                    omega
                  have mapped := flat₁.mapped v inside
                  exact ⟨by omega, mapped.1, mapped.2.1⟩

/-- The table of a program ready to run: a page below the stack that user code may not touch, and no page
    from `sz` on. -/
structure Loaded (x : PgDir) (sz : Nat) : Prop where
  whole : sz % pgSize = 0
  stack : 2 * pgSize ≤ sz
  bound : sz < kernBase
  mapped : ∀ v, v < pageOf sz → (x.pte v).p = true ∧ (x.pte v).w = true ∧ ((x.pte v).u = true ↔ v ≠ pageOf sz - 2)
  unmapped : ∀ v, pageOf sz ≤ v → v < userPages → (x.pte v).p = false
  kernel : ∀ v, userPages ≤ v → x.pte v = kmapPte v

theorem Flat.loaded {sz : Nat} (flat : Flat x (pageOf sz)) (whole : sz % pgSize = 0) (stack : 2 * pgSize ≤ sz)
    (bound : sz < kernBase)
    (entries : x'.pte = update x.pte (pageOf sz - 2) { x.pte (pageOf sz - 2) with u := false }) : Loaded x' sz := by
  have user : pageOf sz ≤ userPages := by
    rw [userPages_eq]
    unfold pageOf pgSize
    unfold kernBase at bound
    omega
  have pages : 2 ≤ pageOf sz := by
    unfold pageOf pgSize at *
    omega
  refine ⟨whole, stack, bound, fun v low => ?_, fun v high below => ?_, fun v kernel => ?_⟩
  · rw [entries]
    have mapped := flat.mapped v low
    by_cases guard : v = pageOf sz - 2
    · subst guard
      simpa using ⟨mapped.1, mapped.2.1⟩
    · simp [guard, mapped]
  · rw [entries, update_of_ne (by omega)]
    exact flat.unmapped v high below
  · rw [entries, update_of_ne (by omega)]
    exact flat.kernel v kernel

theorem Loaded.opened {sz : Nat} (loaded : Loaded x sz) {v : Nat} (present : (x.pte v).p = true)
    (privilege : (x.pte v).u = true) : Open x v := by
  have user : v < userPages := by
    by_contra high
    rw [loaded.kernel v (by omega), kmapPte_unprivileged] at privilege
    exact absurd privilege (by decide)
  have low : v < pageOf sz := by
    by_contra high
    rw [loaded.unmapped v (by omega) user] at present
    exact absurd present (by decide)
  exact ⟨user, present, (loaded.mapped v low).2.1⟩

/-- After `exec`: the new table in the place of the old one, or the old one as it was. -/
def Replaced (pgdir : Nat) (a : Proc × Gh) (replaced : Bool) (b : Proc × Gh) : Prop :=
  b.2.tok = a.2.tok ∧ (∀ f, ¬ b.2.claim f) ∧
    if replaced then ∃ d y sz, a.1.dirs d = none ∧ Loaded y sz ∧
      b.1 = { (a.1.setDir d y).dropDir pgdir with pgdir := d, sz := sz }
    else b.1 = a.1 ∧ SeesAs a b

end Xv6
