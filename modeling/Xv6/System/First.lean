import Xv6.System.Forking

namespace Xv6

open CommandProgram Function

variable [KernelImage] {ι : Type} [Fintype ι] [DecidableEq ι]
variable {κ : Kernel} {rule : System ι → Action ι → Prop} {t u : ι} {init : List UInt8}

/-- The machine after boot: only process `t` is there, with one page of memory. -/
structure First (κ : Kernel) (rule : System ι → Action ι → Prop) (t : ι) (init : List UInt8) (c : System ι)
    (x : PgDir) : Prop where
  reach : Reach κ rule c
  sane : Sane (sureSetting ι κ) c
  occupied : Occupied (c.proc t) x
  image : FirstImage init x (.calm c.shared fun _ => ⟨0, false⟩)
  size : (c.proc t).sz = pgSize
  state : c.state = update (fun _ => .unused) t .live
  stock : 50000 ≤ c.shared.kmem.freelist.length

theorem first_reached (κ : Kernel) (rule : System ι → Action ι → Prop) (t : ι) (short : init.length < pgSize)
    (ram : Nat → Page) : ∃ c x, First κ rule t init c x := by
  have calm := Setting.calm_boot (sureSetting ι κ) (booted_booted κ ram)
  have make : (sureSetting ι κ).Outline (userinit init) .unused (.calm (booted κ ram) fun _ => ⟨0, false⟩) _ :=
    userinit_outline (fun scarce => scarce) (fun _ => rfl) fun _ => short
  obtain ⟨kstack, s, p, gh', _, _, done, ⟨_, _, d, y, _, _, own⟩, room, _⟩ :=
    calm.succeed (t := t) trivial make (supply_userinit (userinit_stock ram κ))
  obtain ⟨sane, x, occupied, image⟩ := first_sane (S := sureSetting ι κ) (t := t) (fun scarce => scarce)
    (fun _ => short) done
  have at_t : (System.first s p kstack t).proc t = { p with kstack := kstack } := by
    show update (fun _ : ι => Proc.unused) t _ t = _
    exact update_self ..
  refine ⟨System.first s p kstack t, x, .boot done, sane, at_t ▸ occupied, image, ?_, rfl, ?_⟩
  · rw [at_t, own]
  · show 50000 ≤ s.kmem.freelist.length
    unfold Room at room
    dsimp only at room
    omega

/-- With memory enough `fork` makes a child, and leaves what it did not need. -/
theorem fork_succeeds {c : System ι} {n : Nat} (sane : Sane (sureSetting ι .cow) c) (legal : (Action.fork t u).Legal c)
    (mapped : ∀ v, v < pgRoundUp (c.proc t).sz → ((c.table t).pte v).p = true)
    (stock : n + 2 + npdEntries ≤ c.shared.kmem.freelist.length) :
    ∃ made c', c.act .cow (.fork t u) = .ok (.flag true, c') ∧ AfterFork (sureSetting ι .cow) c t u (some made) c' ∧
      n ≤ c'.shared.kmem.freelist.length := by
  obtain ⟨x, occupied⟩ := sane.occupied t (by simp [legal.1])
  obtain ⟨mark, calm⟩ := sane.calm
  have outline : (sureSetting ι .cow).Outline (fork .cow (c.proc t).pgdir (c.proc t).sz) (c.proc t)
      (.calm c.shared mark) _ :=
    fork_outline occupied.at_pgdir occupied.size (fun _ claim => claim) (fun _ => rfl) fun _ v low => by
      have present := mapped v low
      rwa [System.table, occupied.table] at present
  have supply : Program.Along (execute .cow) Stocked (fun child state => ∀ kstack d, child = some (kstack, d) → Room d n state)
    (fork .cow (c.proc t).pgdir (c.proc t).sz) (c.shared, c.proc t) := supply_fork occupied.size stock
  obtain ⟨child, s, p, _, _, _, done, -, room, -⟩ := calm.succeed (t := t) trivial outline supply
  have after := fork_after sane legal rfl (fun _ => mapped)
    ((supply.weaken fun command state stock same => .inr (stock same)).mono fun _ _ _ => trivial) done
  have acted := (act_iff (a := .fork t u) (c := c) rfl).mpr ⟨child, s, p, done, rfl, rfl⟩
  cases child with
  | none => exact absurd after.child.1 id
  | some made =>
    refine ⟨made, _, acted, after, ?_⟩
    have free := room made.1 made.2 rfl
    unfold Room at free
    dsimp only at free
    show n ≤ s.kmem.freelist.length
    omega

/-- The machine when the first process has forked once: the two share the frame of page 0. -/
structure Pair (rule : System ι → Action ι → Prop) (t u : ι) (c : System ι) (x y : PgDir) : Prop where
  reach : Reach .cow rule c
  sane : Sane (sureSetting ι .cow) c
  parent : Occupied (c.proc t) x
  child : Occupied (c.proc u) y
  live : c.state t = .live
  forked : c.state u = .live ∧ c.parent u = some t
  present : (x.pte 0).p = true
  shared : y.pte 0 = (x.pte 0).shared
  stock : c.shared.kmem.freelist ≠ []

theorem pair_reached (different : t ≠ u) (allowed : ∀ c, rule c (.fork t u)) : ∃ c x y, Pair rule t u c x y := by
  obtain ⟨c, x, first⟩ : ∃ c x, First .cow rule t [] c x := first_reached .cow rule t (by decide) fun _ => Shared.junk
  have live : c.state t = .live := by rw [first.state, update_self]
  have unused : c.state u = .unused := by rw [first.state, update_of_ne different.symm]
  have table : c.table t = x := first.occupied.table
  have pages : pgRoundUp (c.proc t).sz = 1 := by
    rw [first.size]
    decide
  have mapped : ∀ v, v < pgRoundUp (c.proc t).sz → ((c.table t).pte v).p = true := by
    intro v low
    have zero : v = 0 := by omega
    rw [zero, table]
    exact first.image.present
  have legal : (Action.fork t u).Legal c := ⟨live, unused⟩
  have stock := first.stock
  obtain ⟨made, c', acted, after, room⟩ := fork_succeeds (n := 1) first.sane legal mapped (by unfold npdEntries; omega)
  obtain ⟨state, parent, _, _, tables⟩ := after.child
  obtain ⟨x', occupied⟩ := after.sane.occupied t (by rw [state, update_of_ne different, live]; simp)
  obtain ⟨y, occupied'⟩ := after.sane.occupied u (by rw [state, update_self]; simp)
  have entry := after.parent 0
  have entry' := (tables 0 (by omega)).2 rfl
  rw [System.table, occupied.table, table] at entry
  rw [System.table, occupied'.table, table] at entry'
  refine ⟨_, x', y, .act first.reach legal (allowed c) acted, after.sane, occupied, occupied', ?_, ⟨?_, ?_⟩, ?_, ?_, ?_⟩
  · rw [state, update_of_ne different, live]
  · rw [state, update_self]
  · rw [parent, update_self]
  · rcases entry with same | ⟨_, weaker⟩
    · rw [same]
      exact first.image.present
    · rw [weaker]
      exact first.image.present
  · rw [entry']
    rcases entry with same | ⟨_, weaker⟩
    · rw [same]
    · rw [weaker]
      rfl
  · intro empty
    simp [empty] at room

end Xv6
