import Mathlib.Data.Set.Card
import Xv6.Library.Sums
import Xv6.System.Eager
import Xv6.System.Family

namespace Xv6

open CommandProgram Function Ledger

section Owners

variable {f : Nat}

theorem Pte.refs_owner {e : Pte} : e.refs .owner f = 0 := by
  cases present : e.p
  · exact Pte.refs_zero present ..
  · rw [Pte.refs_present present]
    cases e.w <;> rfl

theorem PgDir.refs_owner {d : Nat} {x : PgDir} : x.refs d .owner f = x.owns d f := by
  have entries : ∀ o : Option Nat, pdeRefs o .owner f = if o = some f then 1 else 0 := by
    intro o
    rcases o with _ | pa
    · rfl
    · simp [pdeRefs, unit, eq_comm]
  simp only [PgDir.refs, PgDir.owns, Pte.refs_owner, Finset.sum_const_zero, entries, unit, true_and, Nat.add_zero]

theorem Proc.refs_owner {p : Proc} : p.refs .owner f = p.owns f := by
  unfold Proc.refs Proc.owns
  rw [if_pos rfl, Nat.add_comm]
  refine congrArg _ (Finset.sum_congr rfl fun d _ => ?_)
  cases p.dirs d with
  | none => rfl
  | some x => exact PgDir.refs_owner

variable {p : Proc} {x : PgDir}

def PgDir.pages (x : PgDir) : Finset Nat := (Finset.range userPages).filter fun v => (x.pte v).p = true

theorem PgDir.mem_pages {v : Nat} : v ∈ x.pages ↔ v < userPages ∧ (x.pte v).p = true := by
  rw [PgDir.pages, Finset.mem_filter, Finset.mem_range]

theorem Occupied.maps_pos [KernelImage] (occupied : Occupied p x) (bound : p.pgdir < frames) :
    0 < p.maps f ↔ ∃ v < userPages, (x.pte v).p = true ∧ (x.pte v).addr = f := by
  have one : p.maps f = x.maps f := by
    unfold Proc.maps
    rw [Finset.sum_eq_single p.pgdir]
    · rw [occupied.at_pgdir]
    · intro d _ other
      rw [occupied.dirs, update_of_ne other]
    · exact fun outside => absurd (Finset.mem_range.mpr bound) outside
  rw [one]
  constructor
  · intro positive
    obtain ⟨v, inside, here⟩ := FiniteSums.exists_of_sum_pos positive
    refine ⟨v, Finset.mem_range.mp inside, ?_⟩
    by_contra other
    rw [if_neg other] at here
    exact absurd here (Nat.lt_irrefl 0)
  · rintro ⟨v, user, shown⟩
    have term := FiniteSums.term_le_sum (fun v => if (x.pte v).p = true ∧ (x.pte v).addr = f then 1 else 0)
      (Finset.mem_range.mpr user)
    rw [if_pos shown] at term
    exact term

end Owners

variable [KernelImage] {ι : Type} [Fintype ι] [DecidableEq ι]

section Frames

variable {S : Setting ι} {s : Shared} {own : ι → Proc} {mark : Nat → Mark} {t w : ι} {f : Nat}

namespace Setting

omit [DecidableEq ι] in
theorem Calm.refs_available (calm : S.Calm s own mark) (holds : 0 < Ledger.held (own t).refs f) : Available f := by
  apply calm.available (t := t)
  unfold Held
  rwa [account_calm]

theorem Calm.owns_alone (calm : S.Calm s own mark) (owned : 0 < (own t).owns f) :
    (own t).maps f = 0 ∧ ∀ w, w ≠ t → Ledger.held (own w).refs f = 0 := by
  obtain ⟨count, inv⟩ := calm
  have only : totalHeld (fun u => account (own u) (.calm s mark)) f = 1 := by
    refine inv.books.alone t f (.inr (.inl ?_))
    rw [account_calm, Proc.refs_owner]
    exact owned
  constructor
  · have mine := held_le_total (fun u => account (own u) (.calm s mark)) t f
    rw [account_calm, held_proc] at mine
    omega
  · intro w other
    have both := two_held_le_total (fun u => account (own u) (.calm s mark)) other f
    rw [account_calm, account_calm, held_proc (own t)] at both
    omega

section

omit [DecidableEq ι]

theorem Calm.free_unheld (calm : S.Calm s own mark) (cow : S.kernel = .cow) (complete : Complete s) :
    f ∈ s.kmem.freelist ↔ Available f ∧ ¬ ∃ t, 0 < Ledger.held (own t).refs f := by
  have sums : (∑ t, Ledger.held (account (own t) (.calm s mark)).tally f) = 0 ↔ ¬ ∃ t, 0 < Ledger.held (own t).refs f := by
    simp only [account_calm, Finset.sum_eq_zero_iff, Finset.mem_univ, true_implies, not_exists, Nat.pos_iff_ne_zero, not_not]
  rw [calm.free_iff cow complete, calm.count cow, totalHeld_eq_sum, ← sums, Available, kpgdirCount]
  by_cases kpgdir : Kpgdir f
  · simp [kpgdir]
  · simp [kpgdir]

open Classical in
theorem Calm.free_pages (calm : S.Calm s own mark) (cow : S.kernel = .cow) (complete : Complete s) :
    s.kmem.free_pages + ((Finset.range frames).filter fun f => ∃ t, 0 < Ledger.held (own t).refs f).card =
      ((Finset.range frames).filter Available).card := by
  obtain ⟨nodup, length⟩ := calm.free_list cow
  have free : ∀ f, f ∈ s.kmem.freelist ↔
      f ∈ (Finset.range frames).filter Available \ (Finset.range frames).filter fun f => ∃ t, 0 < Ledger.held (own t).refs f := by
    intro f
    rw [calm.free_unheld cow complete]
    simp only [Finset.mem_sdiff, Finset.mem_filter, Finset.mem_range, not_and]
    constructor
    · exact fun ⟨available, unheld⟩ => ⟨⟨available.1.lt_frames, available⟩, fun _ => unheld⟩
    · exact fun ⟨⟨range, available⟩, unheld⟩ => ⟨available, unheld range⟩
  rw [length, Counting.length_eq_card nodup free]
  refine Finset.card_sdiff_add_card_eq_card fun f => ?_
  simp only [Finset.mem_filter]
  exact fun ⟨range, t, holds⟩ => ⟨range, calm.refs_available holds⟩

theorem Calm.one_page (calm : S.Calm s own mark) {d : Nat} {x : PgDir} (at_d : (own t).dirs d = some x) :
    Set.InjOn (fun v => (x.pte v).addr) x.pages := by
  obtain ⟨count, inv⟩ := calm
  intro v page v' page' same
  obtain ⟨user, present⟩ := PgDir.mem_pages.mp page
  obtain ⟨user', present'⟩ := PgDir.mem_pages.mp page'
  have marked := (inv.tidy t).mark d x v at_d user present
  have marked' := (inv.tidy t).mark d x v' at_d user' present'
  dsimp only at same
  rw [same, marked'] at marked
  exact (congrArg Mark.page marked).symm

end

end Setting

end Frames

variable {c start : System ι} {r : ι} {f v : Nat} {x y : PgDir}

/-- A frame that is in use even without the pages of `r`. -/
def System.Kept (c : System ι) (r : ι) (f : Nat) : Prop := c.Elsewhere r f ∨ 0 < (c.proc r).owns f

namespace Sane

variable {S : Setting ι}

omit [DecidableEq ι] in
theorem bound (sane : Sane S c) (occupied : Occupied (c.proc r) x) : (c.proc r).pgdir < frames := by
  obtain ⟨mark, calm⟩ := sane.calm
  exact calm.bound occupied.at_pgdir

omit [DecidableEq ι] in
theorem maps_pos (sane : Sane S c) (occupied : Occupied (c.proc r) x) :
    0 < (c.proc r).maps f ↔ ∃ v < userPages, (x.pte v).p = true ∧ (x.pte v).addr = f :=
  occupied.maps_pos (sane.bound occupied)

theorem in_use_iff (sane : Sane S c) (occupied : Occupied (c.proc r) x) :
    (∃ w, 0 < held (c.proc w).refs f) ↔ c.Kept r f ∨ ∃ v < userPages, (x.pte v).p = true ∧ (x.pte v).addr = f := by
  rw [← sane.maps_pos occupied]
  constructor
  · rintro ⟨w, holds⟩
    by_cases here : w = r
    · subst here
      rw [held_proc] at holds
      rcases Nat.eq_zero_or_pos ((c.proc w).maps f) with unmapped | maps
      · exact .inl (.inr (by omega))
      · exact .inr maps
    · exact .inl (.inl ⟨w, here, holds⟩)
  · rintro ((⟨w, -, holds⟩ | owned) | maps)
    · exact ⟨w, holds⟩
    · exact ⟨r, by rw [held_proc]; omega⟩
    · exact ⟨r, by rw [held_proc]; omega⟩

omit [DecidableEq ι] in
theorem frame_managed (sane : Sane S c) (occupied : Occupied (c.proc r) x) (page : v ∈ x.pages) : Managed (x.pte v).addr := by
  obtain ⟨mark, calm⟩ := sane.calm
  obtain ⟨user, present⟩ := PgDir.mem_pages.mp page
  have maps := (sane.maps_pos occupied).mpr ⟨v, user, present, rfl⟩
  exact (calm.refs_available (t := r) (by rw [held_proc]; exact Nat.add_pos_left maps _)).1

open Classical in
theorem in_use_eq (sane : Sane S c) (occupied : Occupied (c.proc r) x) :
    ((Finset.range frames).filter fun f => ∃ w, 0 < held (c.proc w).refs f) =
      (Finset.range frames).filter (c.Kept r) ∪ x.pages.image fun v => (x.pte v).addr := by
  ext f
  simp only [Finset.mem_filter, Finset.mem_union, Finset.mem_image, Finset.mem_range]
  rw [sane.in_use_iff occupied]
  constructor
  · rintro ⟨range, kept | ⟨v, user, present, rfl⟩⟩
    · exact .inl ⟨range, kept⟩
    · exact .inr ⟨v, PgDir.mem_pages.mpr ⟨user, present⟩, rfl⟩
  · rintro (⟨range, kept⟩ | ⟨v, page, rfl⟩)
    · exact ⟨range, .inl kept⟩
    · obtain ⟨user, present⟩ := PgDir.mem_pages.mp page
      exact ⟨(sane.frame_managed occupied page).lt_frames, .inr ⟨v, user, present, rfl⟩⟩

/-- The frame of a page is in use otherwise only where another process maps it. -/
theorem shares_iff (sane : Sane S c) (occupied : Occupied (c.proc r) x) (page : v ∈ x.pages) :
    c.SharesPage r v ↔ c.Kept r (x.pte v).addr := by
  obtain ⟨mark, calm⟩ := sane.calm
  obtain ⟨user, present⟩ := PgDir.mem_pages.mp page
  have maps : 0 < (c.proc r).maps (x.pte v).addr := (sane.maps_pos occupied).mpr ⟨v, user, present, rfl⟩
  have table : c.table r = x := occupied.table
  unfold System.SharesPage System.Kept
  rw [table]
  constructor
  · rintro ⟨-, -, w, other, v', user', present', same⟩
    have occupied' := sane.has_table (sane.used_of_present present')
    have maps' := (sane.maps_pos occupied').mpr ⟨v', user', present', same⟩
    exact .inl ⟨w, other, by rw [held_proc]; omega⟩
  · rintro (⟨w, other, holds⟩ | owned)
    · have used : c.state w ≠ .unused := by
        intro unused
        have none := (sane.vacant w unused).refs
        simp only [held, none, Nat.lt_irrefl] at holds
      have occupied' := sane.has_table used
      have unowned : (c.proc w).owns (x.pte v).addr = 0 := by
        by_contra owned
        have mine := (calm.owns_alone (Nat.pos_of_ne_zero owned)).2 r (Ne.symm other)
        rw [held_proc] at mine
        omega
      rw [held_proc, unowned, Nat.add_zero] at holds
      obtain ⟨v', user', present', same⟩ := (sane.maps_pos occupied').mp holds
      exact ⟨user, present, w, other, v', user', present', same⟩
    · have unmapped := (calm.owns_alone owned).1
      omega

end Sane

theorem Relocated.owns {elsewhere : Nat → Prop} {q q' : Proc} (relocated : Relocated elsewhere q q') (occupied : Occupied q x)
    (occupied' : Occupied q' y) : q'.owns f = q.owns f := by
  have pde : y.pde = x.pde := by
    rw [← occupied.table, ← occupied'.table]
    exact relocated.pde
  unfold Proc.owns
  rw [occupied.kpages, occupied'.kpages, relocated.kstack]
  refine congrArg _ (Finset.sum_congr rfl fun d _ => ?_)
  rw [occupied.dirs, occupied'.dirs, relocated.pgdir]
  by_cases here : d = q.pgdir
  · subst here
    rw [update_self, update_self]
    simp only [PgDir.owns, pde]
  · rw [update_of_ne here, update_of_ne here]

omit [DecidableEq ι] in
theorem Kin.kept_iff (family : Kin r start c ∅) (occupied : Occupied (start.proc r) x) (occupied' : Occupied (c.proc r) y) :
    c.Kept r f ↔ start.Kept r f := by
  unfold System.Kept System.Elsewhere
  rw [family.own.owns occupied occupied']
  refine or_congr_left (exists_congr fun w => and_congr_right fun other => ?_)
  obtain ⟨-, dirs, kpages⟩ := family.others w other (Set.notMem_empty w)
  rw [Proc.refs_congr dirs kpages]

omit [DecidableEq ι] in
theorem Kin.pages_eq (family : Kin r start c ∅) (occupied : Occupied (start.proc r) x) (occupied' : Occupied (c.proc r) y) :
    y.pages = x.pages := by
  ext v
  rw [PgDir.mem_pages, PgDir.mem_pages]
  refine and_congr_right fun user => ?_
  rw [← occupied.table, ← occupied'.table, family.own.present v user]

theorem Kin.kept_or_alone (family : Kin r start c ∅) (occupied : Occupied (start.proc r) x) (occupied' : Occupied (c.proc r) y)
    (page : v ∈ y.pages) : (y.pte v).addr = (x.pte v).addr ∨ ¬ start.Kept r (y.pte v).addr := by
  obtain ⟨mark, calm⟩ := family.sane.calm
  obtain ⟨user, present⟩ := PgDir.mem_pages.mp page
  have moved := family.own.frames v user
  rw [occupied.table, occupied'.table] at moved
  refine (moved present).imp_right fun apart kept => ?_
  rcases kept with elsewhere | owned
  · exact apart elsewhere
  · rw [← family.own.owns occupied occupied'] at owned
    have maps := (family.sane.maps_pos occupied').mpr ⟨v, user, present, rfl⟩
    have unmapped := (calm.owns_alone owned).1
    omega

open Classical in
theorem Kin.free_pages (family : Kin r start c ∅) (sane : Sane (execSetting ι .cow) start) (complete : Complete start.shared)
    (used : start.state r ≠ .unused) : start.shared.num_of_FreePages = c.shared.num_of_FreePages +
      {v | start.SharesPage r v ∧ ((c.table r).pte v).addr ≠ ((start.table r).pte v).addr}.ncard := by
  have occupied := sane.has_table used
  have occupied' := family.sane.has_table family.root.2
  obtain ⟨mark, calm⟩ := sane.calm
  obtain ⟨mark', calm'⟩ := family.sane.calm
  have before := calm.free_pages rfl complete
  have after := calm'.free_pages rfl family.complete
  have kept : (Finset.range frames).filter (c.Kept r) = (Finset.range frames).filter (start.Kept r) :=
    Finset.filter_congr fun f _ => family.kept_iff occupied occupied'
  have pages := family.pages_eq occupied occupied'
  have apart := calm.one_page occupied.at_pgdir
  have apart' := calm'.one_page occupied'.at_pgdir
  rw [sane.in_use_eq occupied] at before
  rw [family.sane.in_use_eq occupied', kept, pages] at after
  rw [pages] at apart'
  have moved := Counting.card_moved ((Finset.range frames).filter (start.Kept r)) (start.table r).pages apart apart' fun v page => by
    rw [← pages] at page
    refine (family.kept_or_alone occupied occupied' page).imp_right fun alone member => ?_
    exact alone (Finset.mem_filter.mp member).2
  have same : {v | start.SharesPage r v ∧ ((c.table r).pte v).addr ≠ ((start.table r).pte v).addr} =
      ((start.table r).pages.filter fun v => ((start.table r).pte v).addr ∈ (Finset.range frames).filter (start.Kept r) ∧
        ((c.table r).pte v).addr ≠ ((start.table r).pte v).addr : Finset Nat) := by
    ext v
    rw [Finset.mem_coe, Finset.mem_filter, Finset.mem_filter, Finset.mem_range]
    constructor
    · rintro ⟨shares, other⟩
      have page := PgDir.mem_pages.mpr ⟨shares.1, shares.2.1⟩
      exact ⟨page, ⟨(sane.frame_managed occupied page).lt_frames, (sane.shares_iff occupied page).mp shares⟩, other⟩
    · rintro ⟨page, ⟨-, kept⟩, other⟩
      exact ⟨(sane.shares_iff occupied page).mpr kept, other⟩
  rw [same, Set.ncard_coe_finset]
  unfold Shared.num_of_FreePages
  omega

/-- Process `u` is the child of the first process `t` and still shares page 0 with it. -/
structure Sharing (t u : ι) (c : System ι) : Prop where
  reach : Reach .cow Considerate c
  sane : Sane (sureSetting ι .cow) c
  live : c.state u = .live
  idle : ∀ w, w ≠ t → w ≠ u → c.state w = .unused
  initproc : c.initproc = t
  size : (c.proc u).sz = pgSize
  accessible : (c.proc u).Accessible 0
  closed : ((c.proc u).entry 0).w = false
  shares : c.SharesPage u 0
  stock : 40000 ≤ c.shared.kmem.freelist.length

omit [Fintype ι] in
theorem act_initproc {κ : Kernel} {a : Action ι} {answer : Answer} {c' : System ι} (done : c.act κ a = .ok (answer, c')) :
    c'.initproc = c.initproc := by
  unfold System.act at done
  split at done
  · cases done
    unfold System.settle
    split <;> rfl
  · cases done

theorem sharing_reached {t u : ι} (different : t ≠ u) : ∃ c, Sharing t u c := by
  obtain ⟨kstack, s, p, done, stock⟩ := boots .cow [] (by decide) fun _ => Shared.junk
  obtain ⟨fit, view⟩ := Fit.boot (t := t) done
  have reach : Reach .cow Considerate (System.first s p kstack t) := .boot done
  have stock : 50000 ≤ (System.first s p kstack t).shared.kmem.freelist.length := stock
  generalize System.first s p kstack t = c₀ at fit view reach stock
  have state : c₀.state = update (fun _ => .unused) t .live := congrArg View.state view
  have size : (c₀.proc t).sz = pgSize := by
    have sizes : c₀.view.size t = (View.first t []).size t := by rw [view]
    simpa [View.first] using sizes
  have live : c₀.state t = .live := by rw [state, update_self]
  have pages : pgRoundUp (c₀.proc t).sz = 1 := by rw [size]; decide
  have shown : c₀.view.Shown t 0 := by
    rw [view]
    refine ⟨Page.store (fun _ => 0) 0 [], ?_⟩
    simp only [View.first, update_self, show pageOf 0 = 0 from rfl]
  obtain ⟨present, user⟩ := (fit.sane.shown_iff (by simp [live])).mp shown
  have legal : (Action.fork t u).Legal c₀ := ⟨live, by rw [state, update_of_ne different.symm]⟩
  obtain ⟨made, c, acted, after, room⟩ := fork_succeeds (n := 40000) fit.sane legal
    (fun v low => by
      obtain rfl : v = 0 := by omega
      exact present) (by unfold npdEntries; omega)
  obtain ⟨state', -, size', -, tables⟩ := after.child
  have entry : (c.table u).pte 0 = ((c₀.table t).pte 0).shared := (tables 0 (by omega)).2 rfl
  have parent : ((c.table t).pte 0).p = true ∧ ((c.table t).pte 0).addr = ((c₀.table t).pte 0).addr := by
    rcases after.parent 0 with same | ⟨-, weaker⟩
    · rw [same]
      exact ⟨present, rfl⟩
    · rw [weaker]
      exact ⟨present, rfl⟩
  have low : 0 < userPages := by decide
  refine ⟨c, .act reach legal trivial acted, after.sane, ?_, fun w first second => ?_, ?_, size'.trans size, ?_, ?_, ?_, room⟩
  · rw [state', update_self]
  · rw [state', update_of_ne second, state, update_of_ne first]
  · rw [act_initproc acted]
    exact congrArg View.initproc view
  · show ((c.table u).pte 0).p = true ∧ ((c.table u).pte 0).u = true
    rw [entry]
    exact ⟨rfl, user⟩
  · show ((c.table u).pte 0).w = false
    rw [entry]
    rfl
  · unfold System.SharesPage
    rw [entry]
    exact ⟨low, rfl, t, different, 0, low, parent⟩

/-- Process `u` forks, writes page 0, which it shares with its parent, and reaps the child. -/
structure Detour (u w : ι) (start c : System ι) : Prop where
  reach : Reach .cow Considerate start
  live : start.state u = .live
  shares : start.SharesPage u 0
  run : ∃ c₁ c₂ c₃, start.act .cow (.fork u w) = .ok (.flag true, c₁) ∧ c₁.act .cow (.write u 0 0) = .ok (.touch .written, c₂) ∧
    c₂.act .cow (.exit w) = .ok (.done, c₃) ∧ c₃.act .cow (.wait u w) = .ok (.done, c)
  family : Family u start c ∅
  moved : ((c.table u).pte 0).addr ≠ ((start.table u).pte 0).addr

theorem Sharing.detour {t u w : ι} (sharing : Sharing t u start) (first : w ≠ t) (second : w ≠ u) : ∃ c, Detour u w start c := by
  have pages : pgRoundUp (start.proc u).sz = 1 := by rw [sharing.size]; decide
  have stock := sharing.stock
  have legal : (Action.fork u w).Legal start := ⟨sharing.live, sharing.idle w first second⟩
  obtain ⟨made, c₁, forked, after, room⟩ := fork_succeeds (n := 1) sharing.sane legal
    (fun v low => by
      obtain rfl : v = 0 := by omega
      exact sharing.accessible.1) (by unfold npdEntries; omega)
  obtain ⟨state, parent, -, -, tables⟩ := after.child
  have live : c₁.state u = .live := by rw [state, update_of_ne second.symm, sharing.live]
  have kept : (c₁.table u).pte 0 = (start.table u).pte 0 := by
    rcases after.parent 0 with same | ⟨-, weaker⟩
    · exact same
    · have closed : ((start.table u).pte 0).w = false := sharing.closed
      rw [weaker, ← closed]
  have copy : (c₁.table w).pte 0 = ((start.table u).pte 0).shared := (tables 0 (by omega)).2 rfl
  have accessible : (c₁.proc u).Accessible 0 := by
    show ((c₁.table u).pte 0).p = true ∧ ((c₁.table u).pte 0).u = true
    rw [kept]
    exact sharing.accessible
  have closed : ((c₁.proc u).entry 0).w = false := by
    show ((c₁.table u).pte 0).w = false
    rw [kept]
    exact sharing.closed
  have low : 0 < userPages := by decide
  have shares : c₁.SharesPage u 0 := by
    refine ⟨low, accessible.1, w, second, 0, low, ?_⟩
    rw [copy, kept]
    exact ⟨rfl, rfl⟩
  have free : c₁.shared.kmem.freelist ≠ [] := by
    intro empty
    simp [empty] at room
  obtain ⟨s, p, written, taken⟩ := write_copies after.sane rfl live 0 accessible closed shares free
  have initproc : (c₁.ran u s p).initproc = t := (act_initproc forked).trans sharing.initproc
  have exits : (c₁.ran u s p).act .cow (.exit w) = .ok (.done, (c₁.ran u s p).exit w) := by
    rw [act_exit, if_neg (by rw [initproc]; exact first)]
  have child : c₁.state w = .live ∧ c₁.parent w = some u := by rw [state, parent, update_self, update_self]; exact ⟨rfl, rfl⟩
  have waits : (Action.wait u w).Legal ((c₁.ran u s p).exit w) := by
    refine ⟨(update_of_ne second.symm ..).trans live, update_self .., ?_⟩
    show (if c₁.parent w = some w then _ else c₁.parent w) = some u
    rw [child.2, if_neg fun same => second (Option.some.inj same).symm]
  have one : Family u start c₁ (insert w ∅) := Family.start.act (a := .fork u w) legal (.inl rfl) forked
  have two : Family u start (c₁.ran u s p) (insert w ∅) :=
    one.act (a := .write u 0 0) ⟨live, by decide⟩ ⟨.inl rfl, .inl accessible⟩ written
  have three : Family u start ((c₁.ran u s p).exit w) (insert w ∅) :=
    two.act (a := .exit w) child.1 (Set.mem_insert w ∅) exits
  obtain ⟨g, guards⟩ := sharing.reach.guarded
  have kin := three.kin guards (by simp [sharing.live])
  obtain ⟨c, reaped⟩ := kin.sane.wait_runs waits
  have four := three.act waits (Set.mem_insert w ∅) reaped
  refine ⟨c, sharing.reach, sharing.live, sharing.shares, ⟨_, _, _, forked, written, exits, reaped⟩, ?_, ?_⟩
  · have none : descendants (insert w ∅) (.wait u w) .done = (∅ : Set ι) := by simp [descendants]
    exact none ▸ four
  · intro same
    have last : c.table u = (c₁.ran u s p).table u := by
      have apart := act_apart reaped second.symm fun x forks => by cases forks
      exact congrArg Proc.table apart.1
    rw [last] at same
    have taken : (((c₁.ran u s p).table u).pte 0).addr ∈ c₁.shared.kmem.freelist := taken
    rw [same, ← kept] at taken
    obtain ⟨mark, count, inv⟩ := after.sane.calm
    have occupied := after.sane.has_table (after.sane.used_of_present accessible.1)
    exact inv.mapped_not_free occupied.at_pgdir low accessible.1 taken

/-- No page leaks. When all descendants have been reaped, `num_of_FreePages` is what it was, less one for every page that the
process shared with another at first and has a copy of now. -/
theorem descendants_leak_nothing (reach : Reach .cow Considerate start) (live : start.state r = .live) (family : Family r start c ∅) :
    start.shared.num_of_FreePages = c.shared.num_of_FreePages +
      {v | start.SharesPage r v ∧ ((c.table r).pte v).addr ≠ ((start.table r).pte v).addr}.ncard := by
  obtain ⟨g, guards⟩ := reach.guarded
  have used : start.state r ≠ .unused := by simp [live]
  exact (family.kin guards used).free_pages guards.sound.1 guards.complete used

omit [KernelImage] in
theorem descendants_leak_nothing_on_detour :
    letI := builtImage
    ∃ start c : System (Fin 3), Detour 1 2 start c ∧ start.shared.num_of_FreePages = c.shared.num_of_FreePages +
      {v | start.SharesPage 1 v ∧ ((c.table 1).pte v).addr ≠ ((start.table 1).pte v).addr}.ncard := by
  let := builtImage
  obtain ⟨start, sharing⟩ := sharing_reached (show (0 : Fin 3) ≠ 1 by decide)
  obtain ⟨c, detour⟩ := sharing.detour (show (2 : Fin 3) ≠ 0 by decide) (by decide)
  exact ⟨start, c, detour, descendants_leak_nothing detour.reach detour.live detour.family⟩

theorem Detour.fewer {u w : ι} (detour : Detour u w start c) : c.shared.num_of_FreePages < start.shared.num_of_FreePages := by
  obtain ⟨g, guards⟩ := detour.reach.guarded
  have used : start.state u ≠ .unused := by simp [detour.live]
  have balance := (detour.family.kin guards used).free_pages guards.sound.1 guards.complete used
  have finite : {v | start.SharesPage u v ∧ ((c.table u).pte v).addr ≠ ((start.table u).pte v).addr}.Finite :=
    (Set.finite_lt_nat userPages).subset fun v moved => moved.1.1
  have positive := (Set.ncard_pos finite).mpr ⟨0, detour.shares, detour.moved⟩
  omega

omit [KernelImage] in
/-- The child of the first process writes the page that it shares with it. -/
theorem copy_not_returned :
    letI := builtImage
    ∃ start c : System (Fin 3), Detour 1 2 start c ∧ c.shared.num_of_FreePages < start.shared.num_of_FreePages := by
  let := builtImage
  obtain ⟨start, sharing⟩ := sharing_reached (show (0 : Fin 3) ≠ 1 by decide)
  obtain ⟨c, detour⟩ := sharing.detour (show (2 : Fin 3) ≠ 0 by decide) (by decide)
  exact ⟨start, c, detour, detour.fewer⟩

end Xv6
