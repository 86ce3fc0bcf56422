import Xv6.Cow.Exact

namespace Xv6

open CommandProgram Function Ledger Discipline

variable [KernelImage] {ι : Type} [Fintype ι] [DecidableEq ι]

omit [KernelImage] in
theorem discard_run {α : Type} {program : Vm α} {s s' : Shared} {p p' : Proc} {value : α}
    (done : Program.run (execute .cow) program (s, p) = (.ok value, (s', p'))) :
    Program.run (execute .cow) (discard program) (s, p) = (.ok (), (s', p')) := Program.run_bind_ok done

/-- One process has a table at `d` with page 0 mapped, and nothing else is in use. -/
structure Alone (s : Shared) (own : ι → Proc) (t : ι) (d : Nat) (x : PgDir) : Prop where
  sequence : Sequence s own
  calm : ∃ mark, (sureSetting ι .cow).Calm s own mark
  others : ∀ u, u ≠ t → own u = .unused
  dirs : (own t).dirs = update (fun _ => none) d (some x)
  present : (x.pte 0).p = true
  writable : (x.pte 0).w = true
  room : Room d 10000 (s, own t)

theorem alone_reached (t : ι) : ∃ s own d x, Alone (s : Shared) own t d x := by
  -- after boot
  have boot := booted_booted .cow fun _ => Shared.junk
  have started : Sequence (booted .cow fun _ => Shared.junk) fun _ : ι => .unused := .boot _
  generalize booted .cow (fun _ => Shared.junk) = s at boot started
  have stock : 10001 + 1 + npdEntries ≤ s.kmem.freelist.length := by
    have length := length_bootPages
    rw [boot.freelist]
    unfold npdEntries
    omega
  have calm := Setting.calm_boot (sureSetting ι .cow) boot
  -- the page table
  have make : (sureSetting ι .cow).Outline setupkvm .unused (.calm s fun _ => ⟨0, false⟩) _ :=
    setupkvm_outline (fun _ claim => claim) (fun _ => rfl)
  obtain ⟨_ | d, s₁, p₁, gh₁, count₁, mark₁, done₁, post₁, room₁, inv₁⟩ :=
    calm.succeed (t := t) trivial make (supply_setupkvm stock)
  · exact absurd post₁.1 id
  obtain ⟨_, x, added, kernel⟩ := post₁
  have rested₁ : Rested gh₁ := ⟨added.tok, added.noclaim⟩
  have next₁ : Sequence s₁ (update (fun _ => .unused) t p₁) :=
    started.perform (o := .setupkvm) trivial (discard_run done₁)
  have calm₁ := inv₁.calm_update rested₁
  have at_t₁ : update (fun _ : ι => Proc.unused) t p₁ t = p₁ := update_self ..
  -- one page of memory
  have at_d : (update (fun _ : ι => Proc.unused) t p₁ t).dirs d = some x := by
    rw [at_t₁]
    exact added.at_d
  have empty : ∀ v, pgRoundUp 0 ≤ v → v < pgRoundUp pgSize → (x.pte v).p = false := by
    intro v _ low
    rw [kernel, kmapPte_user]
    · rfl
    · rw [userPages_eq]
      unfold pgRoundUp pgSize at low
      omega
  have grow : (sureSetting ι .cow).Outline (allocuvm d 0 pgSize) _ (.calm s₁ mark₁) _ :=
    allocuvm_outline at_d (fun _ claim => claim) (fun _ => rfl) (fun _ _ => empty)
  have room : Room d (10000 + (pgRoundUp pgSize - pgRoundUp 0)) (s₁, update (fun _ : ι => Proc.unused) t p₁ t) := by
    rw [at_t₁]
    exact room₁ d rfl
  obtain ⟨size, s₂, p₂, gh₂, count₂, mark₂, done₂, post₂, room₂, inv₂⟩ :=
    calm₁.succeed (t := t) trivial grow (supply_allocuvm room)
  have size₂ : size = pgSize ∧ ∃ x', Added d x' (update (fun _ : ι => Proc.unused) t p₁ t, .calm s₁ mark₁) (p₂, gh₂) ∧
      (x'.pte 0).p = true ∧ (x'.pte 0).w = true := by
    have bounds : pgSize < kernBase ∧ 0 ≤ pgSize := by decide
    rw [if_pos bounds] at post₂
    rcases post₂ with ⟨whole, x', added', _, pages⟩ | ⟨_, scarce, _⟩
    · have page := pages 0 (by decide) (by decide)
      exact ⟨whole, x', added', page.present, page.writable⟩
    · exact absurd scarce id
  obtain ⟨whole, x', added', present, writable⟩ := size₂
  have own₁ : p₁ = Proc.unused.setDir d x := added.own
  have own₂ : p₂ = (update (fun _ : ι => Proc.unused) t p₁ t).setDir d x' := added'.own
  rw [at_t₁, own₁, Proc.setDir_setDir] at own₂
  refine ⟨s₂, update (update (fun _ => .unused) t p₁) t p₂, d, x', ?_, ⟨mark₂, inv₂.calm_update ?_⟩, ?_, ?_, present, writable, ?_⟩
  · have present : (update (fun _ : ι => Proc.unused) t p₁ t).dirs d ≠ none := by
      rw [at_d]
      simp
    exact next₁.perform (o := .allocuvm d 0 pgSize) present (discard_run done₂)
  · exact ⟨added'.tok, added'.noclaim⟩
  · intro u other
    rw [update_of_ne other, update_of_ne other]
  · rw [update_self, own₂]
    rfl
  · rw [update_self]
    exact room₂ (by rw [whole]; decide)

/-- Two processes share the frame of page 0, and nothing else is in use. -/
structure Twins (s : Shared) (own : ι → Proc) (t u : ι) (d d' : Nat) (x x' : PgDir) : Prop where
  sequence : Sequence s own
  calm : ∃ mark, (sureSetting ι .cow).Calm s own mark
  others : ∀ v, v ≠ t → v ≠ u → own v = .unused
  dirs : (own t).dirs = update (fun _ => none) d (some x)
  dirs' : (own u).dirs = update (fun _ => none) d' (some x')
  present : (x.pte 0).p = true
  present' : (x'.pte 0).p = true
  same : (x'.pte 0).addr = (x.pte 0).addr
  stock : 2 ≤ s.kmem.freelist.length

theorem twins_reached {t u : ι} (different : t ≠ u) : ∃ s own d d' x x', Twins (s : Shared) own t u d d' x x' := by
  obtain ⟨s, own, d, x, alone⟩ := alone_reached t
  obtain ⟨mark, calm⟩ := alone.calm
  have at_d : (own t).dirs d = some x := by rw [alone.dirs, update_self]
  have pages : pgRoundUp pgSize = 1 := by decide
  have mapped : ∀ v, v < pgRoundUp pgSize → (x.pte v).p = true := by
    intro v low
    have zero : v = 0 := by omega
    rw [zero]
    exact alone.present
  have copy : (sureSetting ι .cow).Outline (copyuvm .cow d pgSize) _ (.calm s mark) _ :=
    copyuvm_outline at_d (by decide) (fun _ claim => claim) (fun _ => rfl) (fun _ => mapped)
  have room := alone.room
  have stock : 2 + 1 + npdEntries ≤ s.kmem.freelist.length := by
    unfold Room at room
    unfold npdEntries
    dsimp only at room
    omega
  obtain ⟨new, s₁, p₁, gh₁, count₁, mark₁, done₁, post₁, room₁, inv₁⟩ :=
    calm.succeed (t := t) trivial copy (supply_copyuvm (by decide) stock)
  obtain ⟨x₁, weak, _, copied⟩ := post₁
  cases new with
  | none => exact absurd copied.1 id
  | some d' =>
    obtain ⟨apart, absent, y, forked, entries, _⟩ := copied
    rw [pages] at entries weak
    have child : y.pte 0 = (x.pte 0).shared := (entries 0 (by decide)).2.2 rfl
    have parent : (x₁.pte 0).p = true ∧ (x₁.pte 0).addr = (x.pte 0).addr := by
      rcases weak.entries 0 with same | ⟨_, weaker⟩
      · rw [same]
        exact ⟨alone.present, rfl⟩
      · rw [weaker]
        exact ⟨alone.present, rfl⟩
    have own₁ : p₁ = ((own t).setDir d x₁).setDir d' y := forked.own
    have dirs₁ : p₁.dirs = update (update (fun _ => none) d (some x₁)) d' (some y) := by
      rw [own₁, Proc.setDir_dirs, Proc.setDir_dirs, alone.dirs, update_idem]
    have next₁ : Sequence s₁ (update own t p₁) :=
      alone.sequence.perform (o := .copyuvm d pgSize) ⟨by simp [at_d], by decide⟩ (discard_run done₁)
    have calm₁ := inv₁.calm_update (S := sureSetting ι .cow) ⟨forked.tok, forked.noclaim⟩
    have at_t : update own t p₁ t = p₁ := update_self ..
    have at_u : update own t p₁ u = .unused := by
      rw [update_of_ne different.symm]
      exact alone.others u different.symm
    have at_d' : (update own t p₁ t).dirs d' = some y := by
      rw [at_t, dirs₁, update_self]
    have calm₂ := calm₁.calm_give different at_d'
    refine ⟨s₁, update (update (update own t p₁) t (p₁.dropDir d')) u (Proc.unused.setDir d' y), d, d', x₁, y, ?_⟩
    rw [at_t, at_u] at calm₂
    constructor
    case sequence =>
      have given := next₁.give different at_d'
      rwa [at_t, at_u] at given
    case calm => exact ⟨mark₁, calm₂⟩
    case others =>
      intro v notT notU
      rw [update_of_ne notU, update_of_ne notT, update_of_ne notT]
      exact alone.others v notT
    case dirs =>
      rw [update_of_ne different, update_self]
      simp only [Proc.dropDir, dirs₁, update_idem]
      funext e
      by_cases isD : e = d
      · subst isD
        simp [apart]
      · by_cases isD' : e = d'
        · subst isD'
          simp [isD]
        · simp [isD, isD']
    case dirs' =>
      rw [update_self]
      rfl
    case present => exact parent.1
    case present' =>
      rw [child]
      rfl
    case same =>
      rw [child, parent.2]
      rfl
    case stock =>
      have left := room₁ d' rfl
      unfold Room at left
      dsimp only at left
      omega

omit [KernelImage] [Fintype ι] [DecidableEq ι] in
theorem KernelOwned.refs {own : ι → Proc} {f : Nat} (bound : ∀ t d, (own t).dirs d ≠ none → d < frames)
    (owned : KernelOwned own f) : ∃ t, 0 < (own t).refs .owner f := by
  obtain ⟨t, kept | ⟨d, x, at_d, part⟩⟩ := owned
  · refine ⟨t, ?_⟩
    have count := List.count_pos_iff.mpr kept
    unfold Proc.refs
    rw [if_pos rfl]
    omega
  · refine ⟨t, lt_of_lt_of_le ?_ (Proc.dir_refs_le (bound t d (by simp [at_d])) at_d .owner f)⟩
    unfold PgDir.refs
    rcases part with rfl | ⟨i, inside, entry⟩
    · simp only [unit, and_self, if_true]
      omega
    · have term := FiniteSums.term_le_sum (fun i => pdeRefs (x.pde i) .owner f) (Finset.mem_range.mpr inside)
      simp only [entry, pdeRefs, unit, and_self, if_true] at term ⊢
      omega

/-- What both sharers see, and where else the frame is not. -/
structure SharedFrame (s : Shared) (own : ι → Proc) (x x' : PgDir) (f : Nat) : Prop where
  available : Available f
  in_use : f ∉ s.kmem.freelist
  several : 1 < s.kmem.page_rCount f
  unowned : ¬ KernelOwned own f
  only : ∀ v, v < userPages → (x.pte v).p = true → (x.pte v).addr = f → v = 0
  only' : ∀ v, v < userPages → (x'.pte v).p = true → (x'.pte v).addr = f → v = 0

variable {s : Shared} {own : ι → Proc} {t u : ι} {d d' : Nat} {x x' : PgDir}

theorem Twins.shared (different : t ≠ u) (twins : Twins s own t u d d' x x') :
    SharedFrame s own x x' (x.pte 0).addr := by
  have at_d : (own t).dirs d = some x := by rw [twins.dirs, update_self]
  have at_d' : (own u).dirs d' = some x' := by rw [twins.dirs', update_self]
  have user : 0 < userPages := by decide
  obtain ⟨mark, count, inv⟩ := twins.calm
  have counted : Counted s.kmem.page_rCount count := inv.agrees.1
  have bound := (inv.tidy t).bound d (by simp [at_d])
  have bound' := (inv.tidy u).bound d' (by simp [at_d'])
  have first : 0 < held (account (own t) (.calm s mark)).tally (x.pte 0).addr :=
    held_of_pte bound at_d user twins.present
  have second : 0 < held (account (own u) (.calm s mark)).tally (x'.pte 0).addr :=
    held_of_pte bound' at_d' user twins.present'
  rw [twins.same] at second
  have both := two_held_le_total (fun t => account (own t) (.calm s mark)) different (x.pte 0).addr
  have marks : ∀ {w e y v}, (own w).dirs e = some y → v < userPages → (y.pte v).p = true →
      (mark (y.pte v).addr).page = v := by
    intro w e y v at_e inside shown
    have marked := (inv.tidy w).mark e y v at_e inside shown
    exact congrArg Mark.page marked
  have origin := marks at_d user twins.present
  constructor
  case available => exact inv.available_of_held (t := t) rfl first
  case in_use => exact inv.mapped_not_free (t := t) at_d user twins.present
  case several =>
    have balance := inv.books.balance (x.pte 0).addr
    have settled : total (fun t => account (own t) (.calm s mark)) .uncounted (x.pte 0).addr = 0 := by
      simp only [total, account_calm, ((own _).refs_books _).1, Finset.sum_const_zero]
    have count := counted.at_available (inv.available_of_held (t := t) rfl first)
    dsimp only at balance
    omega
  case unowned =>
    intro owned
    obtain ⟨w, positive⟩ := owned.refs fun t => (inv.tidy t).bound
    rw [← account_calm (own w) s mark] at positive
    have only : totalHeld (fun t => account (own t) (.calm s mark)) (x.pte 0).addr = 1 :=
      inv.books.alone w (x.pte 0).addr (.inr (.inl positive))
    omega
  case only =>
    intro v inside shown same
    rw [← marks at_d inside shown, same, origin]
  case only' =>
    intro v inside shown same
    rw [← marks at_d' inside shown, same, origin]

/-- Two processes that shared page 0 until the first one wrote to it, and nothing else is in use. -/
structure Parted (s : Shared) (own : ι → Proc) (t u : ι) (d d' : Nat) (x x' : PgDir) : Prop where
  sequence : Sequence s own
  calm : ∃ mark, (sureSetting ι .cow).Calm s own mark
  dirs : (own t).dirs d = some x
  dirs' : (own u).dirs d' = some x'
  present : (x.pte 0).p = true
  present' : (x'.pte 0).p = true
  writable : (x.pte 0).w = true

theorem Twins.part (different : t ≠ u) (twins : Twins s own t u d d' x x') :
    ∃ s' own' y, Parted s' own' t u d d' y x' := by
  have at_d : (own t).dirs d = some x := by rw [twins.dirs, update_self]
  have at_d' : (own u).dirs d' = some x' := by rw [twins.dirs', update_self]
  obtain ⟨mark, calm⟩ := twins.calm
  have user : pageOf 0 < userPages := by decide
  have fault : (sureSetting ι .cow).Outline (cowFault d 0) _ (.calm s mark) _ :=
    cowFault_outline rfl at_d user twins.present (fun _ claim => claim) (fun _ => rfl)
  have stock := twins.stock
  obtain ⟨_, s', p', gh', _, mark', done, ⟨faulted, tok, noclaim, _⟩, _, inv⟩ :=
    calm.succeed (t := t) trivial fault (supply_cowFault (by omega))
  have sequence := twins.sequence.perform (o := .cowFault d 0)
    ⟨by simp [at_d], user, by rw [Proc.dir_of at_d]; exact twins.present⟩ done
  have copied : ∃ y : PgDir, p'.dirs d = some y ∧ (y.pte 0).p = true ∧ (y.pte 0).w = true := by
    rcases faulted with ⟨y, own, entries⟩ | ⟨y, _, own, entries, _⟩ | ⟨scarce, _⟩
    · refine ⟨y, by rw [show p' = _ from own, Proc.setDir_dirs, update_self], ?_⟩
      rw [entries]
      exact ⟨twins.present, rfl⟩
    · refine ⟨y, by rw [show p' = _ from own, Proc.setDir_dirs, update_self], ?_⟩
      rw [entries]
      exact ⟨rfl, rfl⟩
    · exact absurd scarce id
  obtain ⟨y, at_y, present, writable⟩ := copied
  refine ⟨s', update own t p', y, sequence, ⟨mark', inv.calm_update ⟨tok, noclaim⟩⟩, ?_, ?_, present, twins.present', writable⟩
  · rw [update_self]
    exact at_y
  · rw [update_of_ne different.symm]
    exact at_d'

theorem Parted.exit (parted : Parted s own t u d d' x x') :
    ∃ s', Sequence s' (update own u ((own u).dropDir d')) := by
  obtain ⟨mark, calm⟩ := parted.calm
  have free : (sureSetting ι .cow).Outline (freevm d') _ (.calm s mark) _ :=
    freevm_outline parted.dirs' (fun _ claim => claim) (fun _ => rfl)
  obtain ⟨_, s', p', _, _, _, done, ⟨gone, _⟩, _, _⟩ :=
    calm.succeed (t := u) trivial free (Freeing.stocked freevm_uses _)
  have own' : p' = (own u).dropDir d' := gone
  rw [own'] at done
  have there : VmOp.Allowed (own u) (.freevm d') := by
    show (own u).dirs d' ≠ none
    simp [parted.dirs']
  exact ⟨s', parted.sequence.perform there done⟩

end Xv6
