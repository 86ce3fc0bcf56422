import Xv6.Books.Image
import Xv6.Books.Calm
import Xv6.Cow.Isolation
import Xv6.Memory.Copyout
import Xv6.Memory.Uses
import Xv6.System.First

namespace Xv6

open CommandProgram Function Ledger Discipline

variable [KernelImage] {ι : Type} [Fintype ι] [DecidableEq ι]
variable {κ : Kernel} {t : ι} {d : Nat} {s s' : Shared} {own : ι → Proc} {p' : Proc} {x x' : PgDir} {mark : Nat → Mark}

/-- The circumstances of `exec`: memory may run out, and a bad page table would make it panic. -/
@[reducible] def execSetting (ι : Type) (κ : Kernel) : Setting ι := ⟨κ, True, False, fun _ => false⟩

/-- Process `t` makes page table `d` with `setupkvm`, `allocuvm` and `clearpteu`, in a kernel whose books balance. -/
inductive Built (κ : Kernel) (t : ι) (d : Nat) : Shared → (ι → Proc) → Prop
  | kernel {s s' : Shared} {own : ι → Proc} {p' : Proc} {mark : Nat → Mark} (calm : (execSetting ι κ).Calm s own mark)
      (ran : Program.run (execute κ) setupkvm (s, own t) = (.ok (some d), (s', p'))) : Built κ t d s' (update own t p')
  | grown {s s' : Shared} {own : ι → Proc} {p' : Proc} {oldsz newsz size : Nat} (built : Built κ t d s own)
      (ran : Program.run (execute κ) (allocuvm d oldsz newsz) (s, own t) = (.ok size, (s', p'))) :
      Built κ t d s' (update own t p')
  | guarded {s s' : Shared} {own : ι → Proc} {p' : Proc} {uva : Nat} (built : Built κ t d s own)
      (ran : Program.run (execute κ) (clearpteu d uva) (s, own t) = (.ok (), (s', p'))) : Built κ t d s' (update own t p')

/-- User code may use only pages of the user half, and those that are mapped there can be written. -/
structure PgDir.Clean (x : PgDir) : Prop where
  user : ∀ v, x.User v → v < userPages
  writable : ∀ v, v < userPages → (x.pte v).p = true → (x.pte v).w = true

namespace PgDir.Clean

theorem of_kernel (kernel : x.pte = kmapPte) : x.Clean where
  user v user := by
    have privileged := user.2
    rw [kernel, kmapPte_unprivileged] at privileged
    cases privileged
  writable v low present := by
    rw [kernel, kmapPte_user low] at present
    cases present

omit [KernelImage] in
theorem next (clean : x.Clean) (entries : ∀ v, x'.pte v = x.pte v ∨ (x'.pte v).p = false ∨
    v < userPages ∧ (x'.pte v).w = true) : x'.Clean where
  user v user := by
    rcases entries v with same | absent | ⟨low, -⟩
    · unfold PgDir.User at user
      rw [same] at user
      exact clean.user v user
    · exact absurd user.1 (by rw [absent]; decide)
    · exact low
  writable v low present := by
    rcases entries v with same | absent | ⟨-, writable⟩
    · rw [same] at present ⊢
      exact clean.writable v low present
    · exact absurd present (by rw [absent]; decide)
    · exact writable

omit [KernelImage] in
theorem guard (clean : x.Clean) {v : Nat} (entries : x'.pte = update x.pte v { x.pte v with u := false }) : x'.Clean where
  user w user := by
    unfold PgDir.User at user
    rw [entries] at user
    by_cases here : w = v
    · subst here
      rw [update_self] at user
      cases user.2
    · rw [update_of_ne here] at user
      exact clean.user w user
  writable w low present := by
    rw [entries] at present ⊢
    by_cases here : w = v
    · subst here
      rw [update_self] at present ⊢
      exact clean.writable w low present
    · rw [update_of_ne here] at present ⊢
      exact clean.writable w low present

theorem plain (clean : x.Clean) {S : Setting ι} (calm : S.Calm s own mark) (at_d : (own t).dirs d = some x) : x.Plain where
  user := clean.user
  apart v w user user' same := by
    obtain ⟨count, inv⟩ := calm
    have low := clean.user v user
    exact (inv.writer_alone (t := t) (u := t) at_d at_d (clean.user w user') low user'.1 user.1
      (clean.writable w (clean.user w user') user'.1) same).2.2

end PgDir.Clean

namespace Setting.Calm

variable {S : Setting ι}

omit [DecidableEq ι] in
theorem supplied_scarce (scarce : S.scarce) {α : Type} (program : Vm α) (state : Shared × Proc) :
    Program.Along (execute S.kernel) S.Supplied (fun _ _ => True) program state :=
  (Program.along_true program state).weaken fun _ _ _ _ => .inl scarce

theorem ran {α : Type} {program : Vm α} {post : α → Proc → Gh → Prop} {value : α} (calm : S.Calm s own mark)
    (scarce : S.scarce) (outline : S.Outline program (own t) (.calm s mark) post)
    (rested : ∀ value lo gh, post value lo gh → Rested gh)
    (ran : Program.run (execute S.kernel) program (s, own t) = (.ok value, (s', p'))) :
    ∃ gh' mark', post value p' gh' ∧ S.Change s own mark t s' p' gh' mark' :=
  calm.change outline (supplied_scarce scarce program _) rested ran

end Setting.Calm

namespace Built

/-- Whatever calls made the table, the books balance and the table is clean. -/
theorem clean (built : Built κ t d s own) :
    ∃ mark x, (execSetting ι κ).Calm s own mark ∧ (own t).dirs d = some x ∧ x.Clean := by
  induction built with
  | kernel calm ran =>
    rename_i s s' own p' mark
    have outline : (execSetting ι κ).Outline setupkvm (own t) (.calm s mark) _ :=
      setupkvm_outline (fun _ claim => claim) fun _ => rfl
    obtain ⟨gh', mark', ⟨-, x, added, kernel⟩, change⟩ := calm.ran trivial outline (by
      rintro (_ | d) lo gh made
      · exact ⟨made.2.2.1, made.2.2.2.1⟩
      · obtain ⟨-, x, added, -⟩ := made
        exact ⟨added.tok, added.noclaim⟩) ran
    refine ⟨mark', x, change.calm, ?_, .of_kernel kernel⟩
    rw [update_self]
    exact added.at_d
  | grown built ran ih =>
    rename_i s s' own p' oldsz newsz size
    obtain ⟨mark, x, calm, at_d, clean⟩ := ih
    have outline : (execSetting ι κ).Outline (allocuvm d oldsz newsz) (own t) (.calm s mark) _ :=
      allocuvm_outline at_d (fun _ claim => claim) (fun _ => rfl) fun strict => absurd strict id
    have user : newsz < kernBase → pgRoundUp newsz ≤ userPages := fun small => roundUp_user (Nat.le_of_lt small)
    obtain ⟨gh', mark', done, change⟩ := calm.ran trivial outline (by
      intro size lo gh done
      split at done
      · rcases done with ⟨-, x', added, -⟩ | ⟨-, -, x', -, tok, noclaim, -⟩
        · exact ⟨added.tok, added.noclaim⟩
        · exact ⟨tok, noclaim⟩
      · rw [done.2.2]
        exact Gh.resting_rested _) ran
    split at done
    · rename_i sizes
      rcases done with ⟨-, x', added, outside, inside⟩ | ⟨-, -, x', same, -, -, -, outside, inside⟩
      · refine ⟨mark', x', change.calm, by rw [update_self]; exact added.at_d, clean.next fun v => ?_⟩
        by_cases new : pgRoundUp oldsz ≤ v ∧ v < pgRoundUp newsz
        · have page := inside v new.1 new.2
          exact .inr (.inr ⟨Nat.lt_of_lt_of_le new.2 (user sizes.1), page.writable⟩)
        · exact .inl (outside v new)
      · refine ⟨mark', x', change.calm, ?_, clean.next fun v => ?_⟩
        · rw [update_self]
          have own' : p' = (own t).setDir d x' := same
          rw [own', Proc.setDir_dirs, update_self]
        · by_cases new : pgRoundUp oldsz ≤ v ∧ v < pgRoundUp newsz
          · exact .inr (.inl (inside v new.1 new.2))
          · exact .inl (outside v new)
    · refine ⟨mark', x, change.calm, ?_, clean⟩
      rw [update_self, done.2.1]
      exact at_d
  | guarded built ran ih =>
    rename_i s s' own p' uva
    obtain ⟨mark, x, calm, at_d, clean⟩ := ih
    have outline : (execSetting ι κ).Outline (clearpteu d uva) (own t) (.calm s mark) _ :=
      clearpteu_outline at_d (fun _ claim => claim) fun strict => absurd strict id
    obtain ⟨gh', mark', ⟨-, x', same, entries, -⟩, change⟩ := calm.ran trivial outline (by
      intro _ lo gh done
      rw [done.1]
      exact Gh.resting_rested _) ran
    refine ⟨mark', x', change.calm, ?_, clean.guard entries⟩
    rw [update_self, same, Proc.setDir_dirs, update_self]

end Built

/-- The directory entries between the memory that is mapped directly and the devices. -/
def Gap (i : Nat) : Prop := 568 ≤ i ∧ i < 1016

/-- Table `d` has no page tables for the entries `gap`. -/
def Gapped (gap : Nat → Prop) (d : Nat) (state : Shared × Proc) : Prop := ∀ i, gap i → (state.2.dir d).pde i = none

section Gapped

variable {gap : Nat → Prop}

omit [KernelImage] in
theorem execute_gapped {command : Cmd} {state : Shared × Proc} (gapped : Gapped gap d state)
    (mapping : Mapping (fun i => ¬ gap i) command) : Gapped gap d (execute κ command state).2 := by
  obtain ⟨s, p⟩ := state
  have table : ∀ {d' : Nat} {y : PgDir}, (∀ i, gap i → (p.dir d').pde i = none → y.pde i = none) →
      Gapped gap d (s, p.setDir d' y) := by
    intro d' y kept i inside
    show ((update p.dirs d' (some y) d).getD .empty).pde i = none
    by_cases here : d = d'
    · subst here
      rw [update_self]
      exact kept i inside (gapped i inside)
    · rw [update_of_ne here]
      exact gapped i inside
  cases command with
  | newPgdir pa => exact table fun _ _ _ => rfl
  | setPde pgdir j pa =>
    refine table fun i inside none => ?_
    have other : i ≠ j := by
      rintro rfl
      exact mapping inside
    rw [PgDir.pde_setPde, update_of_ne other]
    exact none
  | setPte pgdir v e =>
    refine table fun i _ none => ?_
    rw [PgDir.pde_setPte]
    exact none
  | freePte pgdir v pa =>
    have kept : Gapped gap d (s, p.setDir pgdir ((p.dir pgdir).setPte v .zero)) := table fun i _ none => by
      rw [PgDir.pde_setPte]
      exact none
    exact kept
  | retire pgdir =>
    intro i inside
    show ((update p.dirs pgdir none d).getD .empty).pde i = none
    by_cases here : d = pgdir
    · rw [here, update_self]
      rfl
    · rw [update_of_ne here]
      exact gapped i inside
  | _ => exact gapped

omit [KernelImage] in
theorem Gapped.run {α : Type} {program : Vm α} {state state' : Shared × Proc} {result : Except Halt α}
    (gapped : Gapped gap d state) (uses : program.Uses (Mapping fun i => ¬ gap i))
    (ran : Program.run (execute κ) program state = (result, state')) : Gapped gap d state' := by
  have after := (uses.along (fun _ _ allowed => allowed) state).invariant
    (fun _ _ holds allowed => execute_gapped (κ := κ) holds allowed) gapped
  rwa [ran] at after

theorem kmap_gapped (apart : ∀ i ∈ kernelTables, ¬ gap i) (pgdir : Nat) :
    (mapRows pgdir kmap).Uses (Mapping fun i => ¬ gap i) := by
  apply mapRows_maps
  intro row member
  have fits := kmap_fits row member
  exact mappages_maps (.mapping _) fits.inside fits.order fun v low high => apart _ (kmap_tables member low high)

end Gapped

omit [KernelImage] in
theorem gap_apart : ∀ i ∈ kernelTables, ¬ Gap i := by
  intro i member
  rw [mem_kernelTables] at member
  unfold Gap
  omega

theorem user_gapped {pgdir oldsz newsz : Nat} : (allocuvm pgdir oldsz newsz).Uses (Mapping fun i => ¬ Gap i) := by
  apply allocuvm_maps (.mapping _) fun _ => ⟨⟩
  intro v mem user
  rw [userPages_eq] at user
  have page : pageOf (v * pgSize) = v := Nat.mul_div_cancel _ (by decide)
  have last : pageOf ((v * pgSize + pgSize + (2 ^ 32 - 1)) % 2 ^ 32) = v := by
    unfold pageOf pgSize
    omega
  apply mappages_maps (.mapping _)
  · rw [last, vaPages_eq]
    omega
  · rw [last, page]
  · intro w _ high
    rw [last] at high
    unfold Gap npdEntries
    omega

theorem guard_gapped {pgdir uva : Nat} : (clearpteu pgdir uva).Uses (Mapping fun i => ¬ Gap i) := by
  unfold clearpteu
  refine Program.uses_bind (walk_frees (Maps.mapping _).toFrees) fun pte => ?_
  cases pte
  · exact uses_panic
  · exact Program.uses_bind (uses_ask ⟨⟩) fun _ => uses_ask ⟨⟩

theorem Built.gapped (built : Built κ t d s own) : Gapped Gap d (s, own t) := by
  induction built with
  | kernel calm ran =>
    rename_i s s' own p' mark
    have outline : (execSetting ι κ).Outline setupkvm (own t) (.calm s mark) _ :=
      setupkvm_outline (fun _ claim => claim) fun _ => rfl
    have start : Gapped Gap d (s, own t) := by
      rcases calm.perform outline (Setting.Calm.supplied_scarce trivial _ _) ran with ⟨_, _, _, _, same, made, _⟩ | ⟨_, wrong, _⟩
      · cases same
        intro i _
        show (((own t).dirs d).getD .empty).pde i = none
        rw [made.1]
        rfl
      · cases wrong
    rw [update_self]
    exact start.run (setupkvm_maps (.mapping _) (kmap_gapped gap_apart)) ran
  | grown built ran ih =>
    rw [update_self]
    exact ih.run user_gapped ran
  | guarded built ran ih =>
    rw [update_self]
    exact ih.run guard_gapped ran

theorem Built.plain (built : Built κ t d s own) : ((own t).dir d).Plain := by
  obtain ⟨mark, x, calm, at_d, clean⟩ := built.clean
  rw [Proc.dir_of at_d]
  exact clean.plain calm at_d

/-- `copyout` into a table that is being made, whatever is in memory by then, does what is expected of it unless it comes to
a page for which there is no page table. -/
theorem copyout_safe_iff (built : Built κ t d s own) (s₁ : Shared) {va k : Nat} (small : va < 2 ^ 32) (bytes : List UInt8)
    (enough : va % pgSize + bytes.length ≤ k * pgSize) :
    CopiesSafely κ d k va bytes s₁ (own t) ↔ ¬ ReachesHole ((own t).dir d) va bytes.length :=
  copiesSafely_iff built.plain small enough

/-- The first process has run the part of `exec` that comes before the arguments, for a program of no bytes. -/
structure Stacked (t : ι) (c : System ι) (s : Shared) (p : Proc) (d : Nat) (x : PgDir) : Prop where
  built : Built .cow t d s (update c.proc t p)
  at_d : p.dirs d = some x
  user : x.User 1
  guard : ¬ x.User 0
  made : ∃ s₁ p₁ s₂ p₂, Program.run (execute .cow) setupkvm (c.shared, c.proc t) = (.ok (some d), (s₁, p₁)) ∧
    Program.run (execute .cow) (allocuvm d 0 (2 * pgSize)) (s₁, p₁) = (.ok (2 * pgSize), (s₂, p₂)) ∧
    Program.run (execute .cow) (clearpteu d 0) (s₂, p₂) = (.ok (), (s, p))
  fresh : (c.proc t).dirs d = none
  others : ∀ d', d' ≠ d → p.dirs d' = (c.proc t).dirs d'
  kpages : p.kpages = (c.proc t).kpages
  stock : 40000 ≤ s.kmem.freelist.length

theorem stacked_reached {rule : System ι → Action ι → Prop} {init : List UInt8} {t : ι} {c : System ι} {x₀ : PgDir}
    (first : First .cow rule t init c x₀) : ∃ s p d x, Stacked t c s p d x := by
  have stock := first.stock
  obtain ⟨mark, calm⟩ := first.sane.calm
  -- the page table
  have make : (sureSetting ι .cow).Outline setupkvm (c.proc t) (.calm c.shared mark) _ :=
    setupkvm_outline (fun _ claim => claim) (fun _ => rfl)
  obtain ⟨_ | d, s₁, p₁, gh₁, count₁, mark₁, done₁, post₁, room₁, inv₁⟩ :=
    calm.succeed (t := t) trivial make (supply_setupkvm (κ := .cow) (n := 40002) (by unfold npdEntries; omega))
  · exact absurd post₁.1 id
  obtain ⟨absent, x₁, added₁, kernel₁⟩ := post₁
  have lax : (execSetting ι .cow).Calm c.shared c.proc mark := calm.transfer rfl rfl
  have built₁ : Built .cow t d s₁ (update c.proc t p₁) := .kernel lax done₁
  have calm₁ := inv₁.calm_update ⟨added₁.tok, added₁.noclaim⟩
  have own₁ : p₁ = (c.proc t).setDir d x₁ := added₁.own
  -- two pages
  have at_t₁ : update c.proc t p₁ t = p₁ := update_self ..
  have at_d₁ : (update c.proc t p₁ t).dirs d = some x₁ := by
    rw [at_t₁]
    exact added₁.at_d
  have empty : ∀ v, pgRoundUp 0 ≤ v → v < pgRoundUp (2 * pgSize) → (x₁.pte v).p = false := by
    intro v _ low
    rw [kernel₁, kmapPte_user]
    · rfl
    · rw [userPages_eq]
      unfold pgRoundUp pgSize at low
      omega
  have grow : (sureSetting ι .cow).Outline (allocuvm d 0 (2 * pgSize)) (update c.proc t p₁ t) (.calm s₁ mark₁) _ :=
    allocuvm_outline at_d₁ (fun _ claim => claim) (fun _ => rfl) (fun _ _ => empty)
  have room : Room d (40000 + (pgRoundUp (2 * pgSize) - pgRoundUp 0)) (s₁, update c.proc t p₁ t) := by
    rw [at_t₁]
    exact (room₁ d rfl).mono (by decide)
  obtain ⟨size, s₂, p₂, gh₂, count₂, mark₂, done₂, post₂, room₂, inv₂⟩ :=
    calm₁.succeed (t := t) trivial grow (supply_allocuvm room)
  rw [if_pos (by decide)] at post₂
  rcases post₂ with ⟨rfl, x₂, added₂, -, pages⟩ | ⟨-, scarce, -⟩
  · have built₂ := built₁.grown done₂
    have at_d₂ : p₂.dirs d = some x₂ := added₂.at_d
    have own₂ : p₂ = (update c.proc t p₁ t).setDir d x₂ := added₂.own
    have page : pageOf 0 = 0 := rfl
    have has : x₂.Has 0 := PgDir.has_of_present (pages 0 (by decide) (by decide)).present
    have done₃ : Program.run (execute .cow) (clearpteu d 0) (s₂, p₂) =
        (.ok (), (s₂, p₂.setDir d (x₂.setPte 0 { x₂.pte 0 with u := false }))) := by
      unfold clearpteu
      rw [run_walk, Proc.dir_of at_d₂, page, if_pos has]
      dsimp only
      rw [run_pte, Proc.dir_of at_d₂]
      show (_, (s₂, p₂.setDir d ((p₂.dir d).setPte 0 _))) = _
      rw [Proc.dir_of at_d₂]
    have built₃ := built₂.guarded (by rw [update_self]; exact done₃)
    rw [update_idem, update_idem] at built₃
    rw [at_t₁] at done₂
    refine ⟨s₂, _, d, x₂.setPte 0 { x₂.pte 0 with u := false }, built₃, ?_, ?_, ?_, ⟨s₁, p₁, s₂, p₂, done₁, done₂, done₃⟩, absent, ?_, ?_, ?_⟩
    · rw [Proc.setDir_dirs, update_self]
    · unfold PgDir.User
      rw [PgDir.pte_setPte has, update_of_ne (by decide)]
      have stack := pages 1 (by decide) (by decide)
      exact ⟨stack.present, stack.unprivileged⟩
    · unfold PgDir.User
      rw [PgDir.pte_setPte has, update_self]
      exact fun user => nomatch user.2
    · intro d' other
      rw [Proc.setDir_dirs, update_of_ne other, own₂, Proc.setDir_dirs, update_of_ne other, at_t₁, own₁, Proc.setDir_dirs,
        update_of_ne other]
    · rw [own₂, at_t₁, own₁]
      rfl
    · have left := room₂ (by decide)
      unfold Room at left
      dsimp only at left
      omega
  · exact absurd scarce id

/-- Where `exec` puts a string on the stack. -/
def argPlace (sp length : Nat) : Nat := (sp + 2 ^ 32 - (length + 1)) % 2 ^ 32 / 4 * 4

omit [KernelImage] in
/-- With a string of 64 MB for an argument the stack pointer wraps around to where there is no page table. -/
theorem copyout_null_entry :
    letI := builtImage
    ¬ ∀ (s : Shared) (own : Fin 1 → Proc) (d : Nat), Built .cow 0 d s own → ∀ arg : List UInt8,
      CopiesSafely .cow d (pgRoundUp arg.length + 2) (argPlace (2 * pgSize) arg.length) (arg ++ [0]) s (own 0) := by
  let := builtImage
  intro safe
  obtain ⟨c, x₀, first⟩ := first_reached .cow (fun _ _ => True) (0 : Fin 1) (by decide : [].length < pgSize) fun _ => Shared.junk
  obtain ⟨s, p, d, x, stacked⟩ := stacked_reached first
  have built := stacked.built
  obtain ⟨arg, length⟩ : ∃ arg : List UInt8, arg.length = 2 ^ 26 := ⟨List.replicate (2 ^ 26) 1, List.length_replicate⟩
  have copies := safe s _ d built arg
  have place : argPlace (2 * pgSize) arg.length = 0xFC001FFC := by rw [length]; rfl
  have all : (arg ++ [0]).length = 2 ^ 26 + 1 := by rw [List.length_append, length, List.length_singleton]
  rw [place, copiesSafely_iff built.plain (by decide)] at copies
  · apply copies
    refine ⟨0, by omega, fun _ low => absurd low (Nat.not_lt_zero _), ?_⟩
    have gap : Gap (bytePage 0xFC001FFC 0 / npdEntries) := ⟨by decide, by decide⟩
    exact fun has => has (built.gapped _ gap)
  · rw [all, length]
    decide

omit [KernelImage] in
/-- A string of one letter. -/
theorem copyout_safe_iff_of_letter :
    letI := builtImage
    ∃ (s : Shared) (own : Fin 1 → Proc) (d : Nat), Built .cow 0 d s own ∧
      (CopiesSafely .cow d 1 0x1FFC [97, 0] s (own 0) ↔ ¬ ReachesHole ((own 0).dir d) 0x1FFC 2) ∧
      CopiesSafely .cow d 1 0x1FFC [97, 0] s (own 0) := by
  let := builtImage
  obtain ⟨c, x₀, first⟩ := first_reached .cow (fun _ _ => True) (0 : Fin 1) (by decide : [].length < pgSize) fun _ => Shared.junk
  obtain ⟨s, p, d, x, stacked⟩ := stacked_reached first
  have built := stacked.built
  have user := stacked.user
  have at_d : (update c.proc 0 p 0).dirs d = some x := by rw [update_self, stacked.at_d]
  have iff := copyout_safe_iff built s (by decide : 0x1FFC < 2 ^ 32) [97, 0] (by decide : _ ≤ 1 * pgSize)
  refine ⟨s, _, d, built, iff, iff.mpr ?_⟩
  rw [Proc.dir_of at_d]
  intro ⟨j, low, _, missing⟩
  have page : bytePage 0x1FFC j = 1 := by
    unfold bytePage pageOf pgSize
    change j < 2 at low
    omega
  rw [page] at missing
  exact missing (PgDir.has_of_present user.1)

end Xv6
