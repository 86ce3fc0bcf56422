import Xv6.System.Actions

namespace Xv6

open CommandProgram Function Ledger

variable [KernelImage] {ι : Type} [Fintype ι] [DecidableEq ι]
variable {S : Setting ι} {c c' : System ι} {s : Shared} {p : Proc} {t u : ι}

/-- After `fork`: the parent has its memory as before, and the child, if there is one, has a copy of it. -/
structure AfterFork (S : Setting ι) (c : System ι) (t u : ι) (child : Option (Nat × Nat)) (c' : System ι) : Prop where
  sane : Sane S c'
  others : ∀ w, w ≠ t → w ≠ u → c'.proc w = c.proc w
  memory : ∀ w, w ≠ u → c'.memory w = c.memory w
  size : ∀ w, w ≠ u → (c'.proc w).sz = (c.proc w).sz
  parent : ∀ v, (c'.table t).pte v = (c.table t).pte v ∨
    S.kernel = .cow ∧ (c'.table t).pte v = { (c.table t).pte v with w := false }
  pages : (c'.proc t).pgdir = (c.proc t).pgdir ∧ (c'.proc t).kstack = (c.proc t).kstack ∧ (c'.table t).pde = (c.table t).pde
  child : if child.isSome then
    c'.state = update c.state u .live ∧ c'.parent = update c.parent u (some t) ∧ (c'.proc u).sz = (c.proc t).sz ∧
      (∀ v, c'.memory u v = if v < pgRoundUp (c.proc t).sz then c.memory t v else none) ∧
      ∀ v, v < pgRoundUp (c.proc t).sz → (S.kernel = .eager → ((c'.table u).pte v).w = ((c.table t).pte v).w) ∧
        (S.kernel = .cow → (c'.table u).pte v = ((c.table t).pte v).shared)
    else S.scarce ∧ c'.state = c.state ∧ c'.parent = c.parent ∧ c'.proc u = c.proc u

section Parent

variable {x x' : PgDir} {last v : Nat}

section

omit [KernelImage]

theorem PgDir.Weakened.above (weak : x.Weakened x' last) (high : last ≤ v) : x'.pte v = x.pte v := by
  rcases weak.entries v with same | ⟨low, _⟩
  · exact same
  · omega

theorem PgDir.Weakened.shows (weak : x.Weakened x' last) (v : Nat) :
    (x'.pte v).p = (x.pte v).p ∧ (x'.pte v).u = (x.pte v).u ∧ (x'.pte v).addr = (x.pte v).addr := by
  rcases weak.entries v with same | ⟨_, weaker⟩
  · rw [same]
    exact ⟨rfl, rfl, rfl⟩
  · rw [weaker]
    exact ⟨rfl, rfl, rfl⟩

theorem PgDir.Weakened.by_kernel {κ : Kernel} (weak : x.Weakened x' last) (whole : κ = .eager → x' = x) (v : Nat) :
    x'.pte v = x.pte v ∨ κ = .cow ∧ x'.pte v = { x.pte v with w := false } := by
  cases κ with
  | cow => exact (weak.entries v).imp_right fun weaker => ⟨rfl, weaker.2⟩
  | eager => exact Or.inl (by rw [whole rfl])

end

end Parent

variable {mark mark' : Nat → Mark} {gh' : Gh} {x x' y : PgDir} {kstack d : Nat}

theorem Occupied.user (occupied : Occupied p x) : pgRoundUp p.sz ≤ userPages := by
  have size := occupied.size
  rw [userPages_eq]
  unfold pgRoundUp pgSize
  unfold kernBase at size
  omega

theorem fork_after_none (sane : Sane S c) (live : c.state t = .live) (different : t ≠ u)
    (calm : S.Calm c.shared c.proc mark) (occupied : Occupied (c.proc t) x)
    (change : S.Change c.shared c.proc mark t s p gh' mark') (weak : x.Weakened x' (pgRoundUp (c.proc t).sz))
    (whole : S.kernel = .eager → x' = x) (scarce : S.scarce) (own : p = (c.proc t).setDir (c.proc t).pgdir x')
    (sees : SeesAs (c.proc t, .calm c.shared mark) (p, gh')) : AfterFork S c t u none (c.ran t s p) := by
  have occupied' : Occupied p x' := own ▸ occupied.setDir fun v high => weak.above (occupied.user.trans high)
  have alive : p.killed = false := by
    rw [own]
    exact sane.alive t live
  have kept := change.memory_kept calm occupied occupied'.at_pgdir (fun v _ => weak.shows v) sees
  constructor
  case sane => exact sane.ran change.calm (by simp [live]) occupied' fun _ => alive
  case others => exact fun w notT _ => update_of_ne notT ..
  case memory =>
    intro w _
    by_cases same : w = t
    · subst same
      simp only [System.memory, System.table, update_self, occupied'.table, occupied.table]
      exact kept
    · exact sane.memory_others calm change same
  case size =>
    intro w _
    by_cases same : w = t
    · subst same
      simp [own, Proc.setDir]
    · simp [same]
  case parent =>
    simp only [System.table, update_self, occupied'.table, occupied.table]
    exact weak.by_kernel whole
  case pages =>
    simp only [System.table, update_self, occupied'.table, occupied.table, weak.pde, and_true]
    rw [own]
    exact ⟨rfl, rfl⟩
  case child => exact ⟨scarce, rfl, rfl, update_of_ne different.symm ..⟩

/-- The child that `fork` makes of a process. -/
def Proc.child (p : Proc) (kstack d : Nat) (y : PgDir) : Proc :=
  ⟨kstack, d, p.sz, false, update (fun _ => none) d (some y), [kstack]⟩

/-- The machine in which `u` has become the child of `t`, and `t` has the page table `x'`. -/
structure Adopted (c : System ι) (t u : ι) (x' y : PgDir) (kstack d : Nat) (c' : System ι) : Prop where
  proc : c'.proc = update (update c.proc t ((c.proc t).setDir (c.proc t).pgdir x')) u ((c.proc t).child kstack d y)
  state : c'.state = update c.state u .live
  parent : c'.parent = update c.parent u (some t)

namespace Adopted

variable (adopted : Adopted c t u x' y kstack d c')
include adopted

omit [KernelImage] [Fintype ι]

theorem at_child : c'.proc u = (c.proc t).child kstack d y := by
  rw [adopted.proc, update_self]

theorem at_parent (different : t ≠ u) : c'.proc t = (c.proc t).setDir (c.proc t).pgdir x' := by
  rw [adopted.proc, update_of_ne different, update_self]

theorem others {w : ι} (notT : w ≠ t) (notU : w ≠ u) : c'.proc w = c.proc w := by
  rw [adopted.proc, update_of_ne notU, update_of_ne notT]

theorem used {w : ι} (notU : w ≠ u) : c'.state w = c.state w := by
  rw [adopted.state, update_of_ne notU]

end Adopted

omit [KernelImage] [Fintype ι] in
theorem Adopted.of_adopt (own : p = ({ c.proc t with kpages := kstack :: (c.proc t).kpages }.setDir (c.proc t).pgdir x').setDir d y)
    (apart : (c.proc t).pgdir ≠ d) (absent : (c.proc t).dirs d = none) :
    ({ p.dropDir d with kpages := p.kpages.erase kstack } : Proc) = (c.proc t).setDir (c.proc t).pgdir x' ∧
      Adopted c t u x' y kstack d ((c.ran t s p).adopt t u kstack d) := by
  have gone : update (c.proc t).dirs d none = (c.proc t).dirs := update_eq_self_iff.mpr absent.symm
  have parent : ({ p.dropDir d with kpages := p.kpages.erase kstack } : Proc) =
      (c.proc t).setDir (c.proc t).pgdir x' := by
    rw [own]
    simp [Proc.setDir, Proc.dropDir, update_comm apart, gone]
  refine ⟨parent, ?_, rfl, rfl⟩
  have at_d : p.dirs d = some y := by simp [own]
  have size : p.sz = (c.proc t).sz := by simp [own, Proc.setDir]
  simp only [System.adopt, update_self, update_idem, parent, at_d, size, Proc.child]

theorem Adopted.sane (adopted : Adopted c t u x' y kstack d c') (sane : Sane S c) (live : c.state t = .live) (different : t ≠ u)
    (calm : S.Calm c'.shared c'.proc mark') (parent : Occupied (c'.proc t) x') (child : Occupied (c'.proc u) y) : Sane S c' where
  calm := ⟨mark', calm⟩
  occupied w inUse := by
    by_cases isU : w = u
    · subst isU
      exact ⟨y, child⟩
    · by_cases isT : w = t
      · subst isT
        exact ⟨x', parent⟩
      · rw [adopted.others isT isU]
        exact sane.occupied w (by rwa [adopted.used isU] at inUse)
  vacant w free := by
    have notU : w ≠ u := by
      rintro rfl
      simp [adopted.state] at free
    rw [adopted.used notU] at free
    have notT : w ≠ t := by
      rintro rfl
      simp [live] at free
    rw [adopted.others notT notU]
    exact sane.vacant w free
  alive w running := by
    by_cases isU : w = u
    · subst isU
      rw [adopted.at_child]
      rfl
    · rw [adopted.used isU] at running
      by_cases isT : w = t
      · subst isT
        rw [adopted.at_parent different]
        exact sane.alive w live
      · rw [adopted.others isT isU]
        exact sane.alive w running

theorem fork_after_some (sane : Sane S c) (live : c.state t = .live) (unused : c.state u = .unused)
    (related : S.family t = S.family u) (calm : S.Calm c.shared c.proc mark) (occupied : Occupied (c.proc t) x)
    (change : S.Change c.shared c.proc mark t s p gh' mark') (weak : x.Weakened x' (pgRoundUp (c.proc t).sz))
    (whole : S.kernel = .eager → x' = x) (apart : (c.proc t).pgdir ≠ d) (absent : (c.proc t).dirs d = none)
    (grows : Grows (c.proc t, .calm c.shared mark) (p, gh'))
    (own : p = ({ c.proc t with kpages := kstack :: (c.proc t).kpages }.setDir (c.proc t).pgdir x').setDir d y)
    (copies : ∀ v, v < pgRoundUp (c.proc t).sz → Copied x y (.calm c.shared mark) gh' v ∧
      (S.kernel = .eager → (y.pte v).w = (x.pte v).w) ∧ (S.kernel = .cow → y.pte v = (x.pte v).shared))
    (rest : ∀ v, pgRoundUp (c.proc t).sz ≤ v → y.pte v = kmapPte v) :
    AfterFork S c t u (some (kstack, d)) ((c.ran t s p).adopt t u kstack d) := by
  have different : t ≠ u := by
    rintro rfl
    simp [live] at unused
  have user := occupied.user
  obtain ⟨parent, adopted⟩ := Adopted.of_adopt (s := s) (u := u) own apart absent
  have at_d : p.dirs d = some y := by simp [own]
  have at_pgdir : p.dirs (c.proc t).pgdir = some x' := by simp [own, apart]
  have kept := change.memory_kept calm occupied at_pgdir (fun v _ => weak.shows v) grows.seesAs
  have parentOccupied : Occupied (((c.ran t s p).adopt t u kstack d).proc t) x' := by
    rw [adopted.at_parent different]
    exact occupied.setDir fun v high => weak.above (user.trans high)
  have childOccupied : Occupied (((c.ran t s p).adopt t u kstack d).proc u) y := by
    rw [adopted.at_child]
    exact ⟨rfl, rfl, occupied.size, fun v high => rest v (user.trans high)⟩
  have child : ∀ v, y.memory s v = if v < pgRoundUp (c.proc t).sz then x.memory c.shared v else none := by
    intro v
    by_cases low : v < pgRoundUp (c.proc t).sz
    · obtain ⟨source, shown, privilege, page⟩ := (copies v low).1
      have page : (gh'.seen (y.pte v).addr).1 = c.shared.ram (x.pte v).addr := page
      rw [if_pos low, PgDir.memory, PgDir.memory, if_pos ⟨by omega, shown⟩, if_pos ⟨by omega, source⟩, privilege,
        change.page at_d (by omega) shown, page]
    · rw [if_neg low, PgDir.memory, rest v (by omega), if_neg]
      rintro ⟨half, present⟩
      simp [kmapPte_user half, Pte.zero] at present
  have given : S.Calm s ((c.ran t s p).adopt t u kstack d).proc mark' := by
    have kept' : kstack ∈ (update c.proc t p t).kpages := by
      rw [update_self, own]
      simp [Proc.setDir]
    have vacant : Vacant (update c.proc t p u) := by
      rw [update_of_ne different.symm]
      exact sane.vacant u unused
    have moved := change.calm.adopt different related vacant (by rw [update_self, at_d]) kept'
      (a := (c.proc t).setDir (c.proc t).pgdir x') (b := (c.proc t).child kstack d y)
      (by rw [update_self, ← parent]) (by rw [update_self, ← parent]) rfl rfl
    rw [adopted.proc]
    rwa [update_idem] at moved
  constructor
  case sane => exact adopted.sane sane live different given parentOccupied childOccupied
  case others => exact fun w notT notU => adopted.others notT notU
  case memory =>
    intro w notU
    by_cases isT : w = t
    · subst isT
      simp only [System.memory, System.table, parentOccupied.table, occupied.table]
      exact kept
    · have same := sane.memory_others calm change isT
      simp only [System.memory, System.table, update_of_ne isT] at same
      simp only [System.memory, System.table, adopted.others isT notU]
      exact same
  case size =>
    intro w notU
    by_cases isT : w = t
    · subst isT
      rw [adopted.at_parent different]
      rfl
    · rw [adopted.others isT notU]
  case parent =>
    simp only [System.table, parentOccupied.table, occupied.table]
    exact weak.by_kernel whole
  case pages =>
    simp only [System.table, parentOccupied.table, occupied.table, weak.pde]
    rw [adopted.at_parent different]
    exact ⟨rfl, rfl, trivial⟩
  case child =>
    refine ⟨rfl, rfl, by rw [adopted.at_child]; rfl, fun v => ?_, fun v low => ?_⟩
    · simp only [System.memory, System.table, childOccupied.table, occupied.table]
      exact child v
    · simp only [System.table, childOccupied.table, occupied.table]
      exact (copies v low).2

theorem fork_after (sane : Sane S c) (legal : (Action.fork t u).Legal c) (related : S.family t = S.family u)
    (present : S.strict → ∀ v, v < pgRoundUp (c.proc t).sz → ((c.table t).pte v).p = true)
    (supplied : Sustained S (fork S.kernel (c.proc t).pgdir (c.proc t).sz) c t) {child : Option (Nat × Nat)}
    (done : Program.run (execute S.kernel) (fork S.kernel (c.proc t).pgdir (c.proc t).sz) (c.shared, c.proc t) =
      (.ok child, (s, p))) :
    AfterFork S c t u child (c.settle (.fork t u) (.forked child) s p) := by
  obtain ⟨live, unused⟩ := legal
  obtain ⟨x, occupied⟩ := sane.occupied t (by simp [live])
  obtain ⟨mark, calm⟩ := sane.calm
  have different : t ≠ u := by
    rintro rfl
    simp [live] at unused
  rw [System.table, occupied.table] at present
  have outline : S.Outline (fork S.kernel (c.proc t).pgdir (c.proc t).sz) (c.proc t) (.calm c.shared mark) _ :=
    fork_outline occupied.at_pgdir occupied.size (fun _ claim => claim) (fun _ => rfl) present
  obtain ⟨gh', mark', ⟨tok, noclaim, x', weak, whole, post⟩, change⟩ := calm.change outline supplied
    (fun _ _ _ post => ⟨post.1, post.2.1⟩) done
  cases child with
  | none =>
    obtain ⟨scarce, own, sees⟩ := post
    exact fork_after_none sane live different calm occupied change weak whole scarce own sees
  | some made =>
    obtain ⟨kstack, d⟩ := made
    obtain ⟨apart, absent, grows, y, own, copies, rest⟩ := post
    exact fork_after_some sane live unused related calm occupied change weak whole apart absent grows own copies rest

end Xv6
