import Xv6.Books.Kernel
import Xv6.Memory.Steps
import Xv6.Tables.Words

namespace Xv6

open CommandProgram Program Function

section Pages

variable {a b last v : Nat} {entry entry' : Nat → Pte}

/-- The pages from `a` on and below `last` that are there, in order. -/
def presentPages (entry : Nat → Pte) (a last : Nat) : List Nat :=
  (List.range' a (last - a)).filter fun v => (entry v).p

theorem mem_presentPages : v ∈ presentPages entry a last ↔ a ≤ v ∧ v < last ∧ (entry v).p = true := by
  rw [presentPages, List.mem_filter, List.mem_range'_1]
  constructor
  · exact fun ⟨⟨low, high⟩, present⟩ => ⟨low, by omega, present⟩
  · exact fun ⟨low, high, present⟩ => ⟨⟨low, by omega⟩, present⟩

theorem presentPages_nodup : (presentPages entry a last).Nodup := List.Nodup.filter _ List.nodup_range'

theorem presentPages_done (done : last ≤ a) : presentPages entry a last = [] := by
  rw [presentPages, Nat.sub_eq_zero_of_le done]
  rfl

theorem presentPages_step (more : a < last) :
    presentPages entry a last = if (entry a).p then a :: presentPages entry (a + 1) last else presentPages entry (a + 1) last := by
  have count : last - a = last - (a + 1) + 1 := by omega
  rw [presentPages, count, List.range'_succ, List.filter_cons]
  rfl

theorem presentPages_congr (same : ∀ v, a ≤ v → entry v = entry' v) :
    presentPages entry a last = presentPages entry' a last := by
  apply List.filter_congr
  intro v member
  rw [same v (List.mem_range'_1.mp member).1]

theorem presentPages_skip (further : a ≤ b) (absent : ∀ v, a ≤ v → v < b → (entry v).p = false) :
    presentPages entry a last = presentPages entry b last := by
  induction b, further using Nat.le_induction with
  | base => rfl
  | succ b low ih =>
    rw [ih fun v from_a below => absent v from_a (by omega)]
    by_cases more : b < last
    · rw [presentPages_step more, absent b low (by omega)]
      rfl
    · rw [presentPages_done (by omega), presentPages_done (by omega)]

end Pages

variable {κ : Kernel} {s : Shared} {p : Proc} {d n a b last : Nat} {x : PgDir}

/-- What unmapping the pages gives to the allocator: the frame of each, in order. -/
def unmapped (x : PgDir) (a last : Nat) : List Nat := (presentPages x.pte a last).map fun v => (x.pte v).addr

/-- The program ends well and has unmapped the pages of the table `x` at `d` that are there from `a` on and below `last`.
Each of their frames went to `kfree`. -/
def Unmaps (κ : Kernel) (d a last : Nat) (program : Vm Unit) (s : Shared) (p : Proc) (x : PgDir) : Prop :=
  ∃ x', run (execute κ) program (s, p) = (.ok (), ((unmapped x a last).foldl (Shared.kfree κ) s, p.setDir d x')) ∧
    x'.pde = x.pde ∧ x'.pte = PgDir.cleared x.pte a last

variable [KernelImage]

omit [KernelImage] in
theorem unmaps_done (at_d : p.dirs d = some x) (done : last ≤ a) : Unmaps κ d a last (pure ()) s p x := by
  refine ⟨x, ?_, rfl, (PgDir.cleared_done done).symm⟩
  rw [unmapped, presentPages_done done, Proc.setDir_self at_d]
  rfl

omit [KernelImage] in
theorem Unmaps.skip {program : Vm Unit} (unmaps : Unmaps κ d b last program s p x) (further : a ≤ b)
    (absent : ∀ v, a ≤ v → v < b → (x.pte v).p = false) : Unmaps κ d a last program s p x := by
  obtain ⟨x', ran, pde, pte⟩ := unmaps
  refine ⟨x', ?_, pde, pte.trans (PgDir.cleared_skip further absent)⟩
  rw [unmapped, presentPages_skip further absent]
  exact ran

theorem deallocLoop_unmaps (at_d : p.dirs d = some x) (rounds : last - a ≤ n)
    (managed : ∀ v, a ≤ v → v < last → (x.pte v).p = true → Managed (x.pte v).addr) :
    Unmaps κ d a last (deallocLoop d last n a) s p x := by
  induction n generalizing a x s p with
  | zero =>
    rw [deallocLoop, if_neg (by omega)]
    exact unmaps_done at_d (by omega)
  | succ n ih =>
    rw [deallocLoop]
    by_cases more : a < last
    · have page : pageOf (a * pgSize) = a := by
        unfold pageOf pgSize
        omega
      rw [if_pos more]
      by_cases has : x.Has a
      · cases present : (x.pte a).p
        · obtain ⟨x', ran, rest⟩ := (ih at_d (a := a + 1) (s := s) (by omega) fun v low => managed v (by omega)).skip
            (Nat.le_succ a) fun v low high => by rwa [show v = a by omega]
          refine ⟨x', ?_, rest⟩
          rw [run_walk, Proc.dir_of at_d, page, if_pos has]
          dsimp only
          rw [run_pte, Proc.dir_of at_d, present]
          exact ran
        · have frame := managed a (Nat.le_refl a) more present
          have nonzero : (x.pte a).addr ≠ 0 := fun zero => foreign_zero (zero ▸ frame)
          have at_d' : (p.setDir d (x.setPte a .zero)).dirs d = some (x.setPte a .zero) := by simp
          have later : ∀ v, a + 1 ≤ v → (x.setPte a .zero).pte v = x.pte v := by
            intro v low
            rw [PgDir.pte_setPte has, update_of_ne (by omega)]
          obtain ⟨x', ran, pde, pte⟩ := ih at_d' (a := a + 1) (s := s.kfree κ (x.pte a).addr) (by omega) fun v low high there => by
            rw [later v low] at there ⊢
            exact managed v (by omega) high there
          have first : unmapped x a last = (x.pte a).addr :: unmapped (x.setPte a .zero) (a + 1) last := by
            unfold unmapped
            rw [presentPages_step more, if_pos present, List.map_cons, presentPages_congr later]
            congr 1
            apply List.map_congr_left
            intro v member
            rw [later v (mem_presentPages.mp member).1]
          refine ⟨x', ?_, ?_, ?_⟩
          · rw [run_walk, Proc.dir_of at_d, page, if_pos has]
            dsimp only
            rw [run_pte, Proc.dir_of at_d, present, if_pos rfl, if_neg nonzero, if_pos frame, run_freePte, Proc.dir_of at_d]
            rw [first, List.foldl_cons]
            rw [Proc.setDir_setDir] at ran
            exact ran
          · rw [pde, PgDir.pde_setPte]
          · rw [pte, PgDir.pte_setPte has, PgDir.cleared_step more present]
      · have further : a < (a / npdEntries + 1) * npdEntries := by
          unfold npdEntries
          omega
        obtain ⟨x', ran, rest⟩ := (ih at_d (a := (a / npdEntries + 1) * npdEntries) (s := s) (by omega)
          fun v low => managed v (by omega)).skip (Nat.le_of_lt further) fun v => PgDir.missing_table has
        refine ⟨x', ?_, rest⟩
        rw [run_walk, Proc.dir_of at_d, page, if_neg has]
        exact ran
    · rw [if_neg more]
      exact unmaps_done at_d (by omega)

/-- `deallocuvm` frees exactly the range: of the pages that start in it those that are there, whatever page tables are
missing in between. -/
theorem deallocuvm_exact (κ : Kernel) (s : Shared) (oldsz newsz : Words.Address) (at_d : p.dirs d = some x)
    (user : oldsz.toNat ≤ kernBase) (managed : ∀ v, v < userPages → (x.pte v).p = true → Managed (x.pte v).addr) :
    ∃ gone x', run (execute κ) (Words.deallocuvm d oldsz newsz) (s, p) =
        (.ok (if oldsz ≤ newsz then oldsz else newsz),
          ((gone.map fun v => (x.pte v).addr).foldl (Shared.kfree κ) s, p.setDir d x')) ∧
      gone.Nodup ∧ (∀ v, v ∈ gone ↔ pgRoundUp newsz.toNat * pgSize ≤ v * pgSize ∧ v * pgSize < oldsz.toNat ∧ (x.pte v).p = true) ∧
      (∀ v, x'.pte v = if v ∈ gone then .zero else x.pte v) ∧ x'.pde = x.pde ∧ (oldsz ≤ newsz → gone = [] ∧ x' = x) := by
  have below : ∀ v, v < pgRoundUp oldsz.toNat ↔ v * pgSize < oldsz.toNat := by
    intro v
    unfold pgRoundUp pgSize
    omega
  have above : ∀ v, pgRoundUp newsz.toNat ≤ v ↔ pgRoundUp newsz.toNat * pgSize ≤ v * pgSize :=
    fun v => (Nat.mul_le_mul_right_iff (by decide)).symm
  have inside : pgRoundUp oldsz.toNat ≤ userPages := by
    rw [userPages_eq]
    unfold pgRoundUp pgSize
    unfold kernBase at user
    omega
  refine ⟨presentPages x.pte (pgRoundUp newsz.toNat) (pgRoundUp oldsz.toNat), ?_⟩
  rw [Words.deallocuvm_eq user, deallocuvm]
  by_cases grows : oldsz ≤ newsz
  · have grows' : oldsz.toNat ≤ newsz.toNat := grows
    have done : pgRoundUp oldsz.toNat ≤ pgRoundUp newsz.toNat := Nat.div_le_div_right (by omega)
    rw [if_pos grows', if_pos grows, presentPages_done done]
    refine ⟨x, ?_, .nil, fun v => ?_, fun v => ?_, rfl, fun _ => ⟨rfl, rfl⟩⟩
    · rw [Proc.setDir_self at_d, pure_bind, BitVec.ofNat_toNat, BitVec.setWidth_eq]
      rfl
    · rw [← above, ← below]
      constructor
      · exact fun member => nomatch member
      · exact fun range => by omega
    · rw [if_neg List.not_mem_nil]
  · have grows' : ¬ (oldsz.toNat ≤ newsz.toNat) := grows
    obtain ⟨x', ran, pde, pte⟩ := deallocLoop_unmaps (κ := κ) (s := s) at_d (a := pgRoundUp newsz.toNat)
      (Nat.le_refl (pgRoundUp oldsz.toNat - _)) fun v _ high => managed v (by omega)
    rw [if_neg grows', if_neg grows]
    refine ⟨x', ?_, presentPages_nodup, fun v => ?_, fun v => ?_, pde, fun more => absurd more grows⟩
    · rw [bind_assoc, run_bind_ok ran, pure_bind, BitVec.ofNat_toNat, BitVec.setWidth_eq]
      rfl
    · rw [mem_presentPages, above, below]
    · rw [pte, PgDir.cleared]
      simp only [mem_presentPages]

omit [KernelImage] in
/-- A page behind a missing page table goes, one below the new size stays. -/
theorem deallocuvm_exact_of_two_tables :
    letI := builtImage
    ∃ (x x' : PgDir) (p : Proc) (s' : Shared), (x.pte 2).p = true ∧ (x.pte 2048).p = true ∧ ¬ x.Has 1024 ∧
      run (execute .cow) (Words.deallocuvm 60 0x801000 0x3000) (⟨⟨[], 0, fun _ => 1⟩, fun _ _ => 0⟩, p) =
        (.ok 0x3000, (s', p.setDir 60 x')) ∧ (x'.pte 2).p = true ∧ (x'.pte 2048).p = false := by
  let := builtImage
  let x : PgDir := (((PgDir.empty.setPde 0 61).setPde 2 62).setPte 2 (.make 2000 permWU)).setPte 2048 (.make 2001 permWU)
  let p : Proc := ⟨63, 60, 0x801000, false, update (fun _ => none) 60 (some x), []⟩
  have entries : x.pte = update (update PgDir.empty.pte 2 (.make 2000 permWU)) 2048 (.make 2001 permWU) := by
    rw [PgDir.pte_setPte (by decide), PgDir.pte_setPte (by decide), PgDir.pte_setPde rfl, PgDir.pte_setPde rfl]
  have managed : ∀ v, v < userPages → (x.pte v).p = true → Managed (x.pte v).addr := by
    intro v _
    rw [entries]
    by_cases second : v = 2048
    · subst second
      exact fun _ => managed_of_range (by decide) (by decide)
    · rw [update_of_ne second]
      by_cases first : v = 2
      · subst first
        exact fun _ => managed_of_range (by decide) (by decide)
      · rw [update_of_ne first]
        intro present
        rw [PgDir.pte_empty] at present
        cases present
  obtain ⟨gone, x', ran, _, range, pte, _⟩ := deallocuvm_exact .cow ⟨⟨[], 0, fun _ => 1⟩, fun _ _ => 0⟩ 0x801000 0x3000
    (p := p) (d := 60) (x := x) (by simp [p]) (by decide) managed
  refine ⟨x, x', p, _, by decide, by decide, by decide, ran, ?_, ?_⟩
  · have stays : 2 ∉ gone := by
      rw [range]
      decide
    rw [pte, if_neg stays]
    decide
  · have goes : 2048 ∈ gone := by
      rw [range]
      decide
    rw [pte, if_pos goes]
    rfl

end Xv6
