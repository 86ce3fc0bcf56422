import Xv6.Library.Sums
import Xv6.Memory.Steps
import Xv6.Memory.Uses

namespace Xv6

open CommandProgram Program Function

/-- `kalloc` finds a page. -/
def Stocked (command : Cmd) (state : Shared × Proc) : Prop := command = .kalloc → state.1.kmem.freelist ≠ []

/-- How many page tables a directory can still get for the entries `T`. -/
def PgDir.vacantIn (T : Finset Nat) (x : PgDir) : Nat := ∑ i ∈ T, if x.pde i = none then 1 else 0

theorem PgDir.vacant_setPde {T : Finset Nat} {x : PgDir} {i : Nat} (absent : x.pde i = none) (entry : i ∈ T) (pa : Nat) :
    (x.setPde i pa).vacantIn T + 1 = x.vacantIn T := by
  have exchange := FiniteSums.sum_exchange T x.pde (fun _ o => if o = none then 1 else 0) entry (some pa)
  unfold vacantIn
  rw [pde_setPde]
  simpa only [absent, if_true, reduceCtorEq, if_false, Nat.add_zero] using exchange

theorem PgDir.vacant_setPte (T : Finset Nat) (x : PgDir) (v : Nat) (e : Pte) :
    (x.setPte v e).vacantIn T = x.vacantIn T := by
  unfold vacantIn
  rw [pde_setPte]

theorem PgDir.vacant_empty (T : Finset Nat) : empty.vacantIn T = T.card := by simp [vacantIn]

@[simp] theorem Proc.dir_setDir (p : Proc) (d : Nat) (x : PgDir) : (p.setDir d x).dir d = x := by
  simp [Proc.dir, Proc.setDir]

/-- The free list has a page for each page table that directory `d` may still get for the entries `T`, and just `n` more. -/
def Level (T : Finset Nat) (d n : Nat) (state : Shared × Proc) : Prop :=
  state.1.kmem.freelist.length = n + (state.2.dir d).vacantIn T

/-- The free list has a page for each page table that directory `d` may still get, and `n` more. -/
def Room (d n : Nat) (state : Shared × Proc) : Prop :=
  n + (state.2.dir d).vacantIn (.range npdEntries) ≤ state.1.kmem.freelist.length

theorem Room.level {d n : Nat} {state : Shared × Proc} (room : Room d n state) :
    ∃ m, n ≤ m ∧ Level (.range npdEntries) d m state := by
  refine ⟨state.1.kmem.freelist.length - (state.2.dir d).vacantIn (.range npdEntries), ?_, ?_⟩
  · unfold Room at room
    omega
  · unfold Room at room
    unfold Level
    omega

theorem Level.room {d n m : Nat} {state : Shared × Proc} (level : Level (.range npdEntries) d m state) (le : n ≤ m) :
    Room d n state := by
  unfold Level at level
  unfold Room
  omega

theorem Room.mono {d n m : Nat} {state : Shared × Proc} (room : Room d n state) (le : m ≤ n) : Room d m state := by
  unfold Room at *
  omega

theorem kalloc_cons {κ : Kernel} {s : Shared} {r : Nat} {next : List Nat} (free : s.kmem.freelist = r :: next) :
    (s.kalloc κ).1 = some r ∧ (s.kalloc κ).2.kmem.freelist = next := by
  cases κ <;> simp [Shared.kalloc, free]

variable {κ : Kernel} {α : Type} {s : Shared} {p : Proc} {d n : Nat}

theorem Freeing.stocked {program : Vm α} (uses : program.Uses Freeing) (state : Shared × Proc) :
    Along (execute κ) Stocked (fun _ _ => True) program state :=
  uses.along (fun command _ freeing wrong => by subst wrong; exact absurd freeing id) state

theorem stocked_of_ne {command : Cmd} {state : Shared × Proc} (other : command ≠ .kalloc) : Stocked command state :=
  fun same => absurd same other

theorem supply_kalloc {rest : Option Nat → Vm α} {post : α → Shared × Proc → Prop}
    (stock : 0 < s.kmem.freelist.length)
    (continues : ∀ r s', s'.kmem.freelist.length + 1 = s.kmem.freelist.length →
      Along (execute κ) Stocked post (rest (some r)) (s', p)) :
    Along (execute κ) Stocked post (kalloc >>= rest) (s, p) := by
  cases free : s.kmem.freelist with
  | nil => simp [free] at stock
  | cons r next =>
    apply along_kalloc (fun _ => by simp [free])
    rw [(kalloc_cons free).1]
    apply continues
    rw [(kalloc_cons free).2, free, List.length_cons]

variable [KernelImage]

section Level

variable {T : Finset Nat}

section

omit [KernelImage]

theorem level_walk {va : Nat} (inside : pageOf va / npdEntries ∈ T) (level : Level T d n (s, p)) :
    Along (execute κ) Stocked (fun found state => found ≠ none ∧ Level T d n state) (walkpgdir d va true) (s, p) := by
  unfold walkpgdir
  apply along_pde (stocked_of_ne (by simp))
  cases entry : (p.dir d).pde (pageOf va / npdEntries) with
  | some pa => exact along_pure ⟨Option.some_ne_none _, level⟩
  | none =>
    have one : 1 ≤ (p.dir d).vacantIn T := by
      have change := PgDir.vacant_setPde entry inside 0
      omega
    unfold Level at level
    simp only [if_true]
    apply supply_kalloc (by dsimp only at level; omega)
    intro r s' less
    apply along_ask (stocked_of_ne (by simp))
    apply along_pure
    refine ⟨Option.some_ne_none _, ?_⟩
    have change := PgDir.vacant_setPde entry inside r
    show s'.kmem.freelist.length = n + ((p.setDir d ((p.dir d).setPde (pageOf va / npdEntries) r)).dir d).vacantIn T
    rw [Proc.dir_setDir]
    dsimp only at level
    omega

theorem level_mapLoop {last rounds a pa : Nat} {q : Perm} (visits : Nat → Prop) (here : visits a)
    (next : ∀ v, visits v → v ≠ last → visits ((v + 1) % vaPages))
    (tables : ∀ v, visits v → pageOf (v * pgSize) / npdEntries ∈ T) (level : Level T d n (s, p)) :
    Along (execute κ) Stocked (fun mapped state => mapped = true ∧ Level T d n state) (mapLoop d last q rounds a pa) (s, p) := by
  induction rounds generalizing a pa s p with
  | zero => exact along_fail
  | succ rounds ih =>
    unfold mapLoop
    apply Along.bind
    refine (level_walk (tables a here) level).mono ?_
    rintro (_ | v) ⟨s₁, p₁⟩ ⟨found, level₁⟩
    · exact absurd rfl found
    · apply along_pte (stocked_of_ne (by simp))
      split
      · exact along_panic
      · apply along_ask (stocked_of_ne (by simp))
        have level₂ : Level T d n (s₁, p₁.setDir d ((p₁.dir d).setPte v (.make pa q))) := by
          unfold Level at *
          rw [Proc.dir_setDir, PgDir.vacant_setPte]
          exact level₁
        split
        · exact along_pure ⟨rfl, level₂⟩
        · exact ih (next a here ‹_›) level₂

theorem level_mappages {va size pa : Nat} {q : Perm} (inside : pageOf ((va + size + (2 ^ 32 - 1)) % 2 ^ 32) < vaPages)
    (order : pageOf va ≤ pageOf ((va + size + (2 ^ 32 - 1)) % 2 ^ 32))
    (tables : ∀ v, pageOf va ≤ v → v ≤ pageOf ((va + size + (2 ^ 32 - 1)) % 2 ^ 32) → v / npdEntries ∈ T)
    (level : Level T d n (s, p)) :
    Along (execute κ) Stocked (fun mapped state => mapped = true ∧ Level T d n state) (mappages d va size pa q) (s, p) := by
  apply level_mapLoop fun v => pageOf va ≤ v ∧ v ≤ pageOf ((va + size + (2 ^ 32 - 1)) % 2 ^ 32)
  · exact ⟨Nat.le_refl _, order⟩
  · intro v ⟨low, high⟩ more
    rw [Nat.mod_eq_of_lt (by omega)]
    omega
  · intro v ⟨low, high⟩
    have page : pageOf (v * pgSize) = v := Nat.mul_div_cancel _ (by decide)
    rw [page]
    exact tables v low high
  · exact level

theorem level_mapRows {rows : List (Nat × Nat × Nat × Perm)} {Q : Bool → Prop} (whole : Q true)
    (each : ∀ row ∈ rows, ∀ s p, Level T d n (s, p) →
      Along (execute κ) Stocked (fun mapped state => Q mapped ∧ Level T d n state)
        (mappages d row.1 ((row.2.2.1 + 2 ^ 32 - row.2.1) % 2 ^ 32) (pageOf row.2.1) row.2.2.2) (s, p))
    (level : Level T d n (s, p)) :
    Along (execute κ) Stocked (fun mapped state => Q mapped ∧ Level T d n state) (mapRows d rows) (s, p) := by
  induction rows generalizing s p with
  | nil => exact along_pure ⟨whole, level⟩
  | cons row rest ih =>
    unfold mapRows
    apply Along.bind
    refine (each row (.head _) s p level).mono ?_
    rintro mapped ⟨s₁, p₁⟩ ⟨answer, level₁⟩
    cases mapped
    · exact along_pure ⟨answer, level₁⟩
    · exact ih (fun row member => each row (.tail _ member)) level₁

end

/-- A new page table takes the page of its directory and those of the page tables for `T`, if its rows need no others. -/
theorem level_setupkvm (stock : s.kmem.freelist.length = n + 1 + T.card)
    (rows : ∀ d s p, Level T d n (s, p) → Along (execute κ) Stocked (fun _ => Level T d n) (mapRows d kmap) (s, p)) :
    Along (execute κ) Stocked (fun new state => ∀ d, new = some d → Level T d n state) setupkvm (s, p) := by
  unfold setupkvm
  apply supply_kalloc (by omega)
  intro d s₁ less
  apply along_ask (stocked_of_ne (by simp))
  have level : Level T d n (s₁, p.setDir d .empty) := by
    unfold Level
    rw [Proc.dir_setDir, PgDir.vacant_empty]
    dsimp only
    omega
  split
  · exact along_panic
  · apply Along.bind
    refine (rows d _ _ level).mono ?_
    rintro mapped state₂ level₂
    cases mapped
    · apply Along.bind
      refine (Freeing.stocked freevm_uses _).mono fun _ _ _ => along_pure ?_
      exact fun d wrong => absurd wrong (by simp)
    · refine along_pure fun d' same => ?_
      cases same
      exact level₂

end Level

omit [KernelImage] in
theorem level_anywhere {va size pa : Nat} {q : Perm} (inside : va < 2 ^ 32) (level : Level (.range npdEntries) d n (s, p)) :
    Along (execute κ) Stocked (fun _ => Level (.range npdEntries) d n) (mappages d va size pa q) (s, p) := by
  refine (level_mapLoop (fun v => v < vaPages) ?_ (fun v _ _ => Nat.mod_lt _ (by decide)) ?_ level).mono fun _ _ both => both.2
  · rw [vaPages_eq]
    unfold pageOf pgSize
    omega
  · intro v low
    have page : pageOf (v * pgSize) = v := Nat.mul_div_cancel _ (by decide)
    rw [page, Finset.mem_range]
    rw [vaPages_eq] at low
    unfold npdEntries
    omega

omit [KernelImage] in
theorem supply_mappages {va size pa : Nat} {q : Perm} (inside : va < 2 ^ 32) (room : Room d n (s, p)) :
    Along (execute κ) Stocked (fun _ => Room d n) (mappages d va size pa q) (s, p) := by
  obtain ⟨m, le, level⟩ := room.level
  exact (level_anywhere inside level).mono fun _ _ level => level.room le

theorem kmap_inside : ∀ row ∈ kmap, row.1 < 2 ^ 32 := by
  have high := KernelImage.end_le
  have middle := KernelImage.data_le_end
  intro row member
  simp only [kmap, List.mem_cons, List.not_mem_nil, or_false] at member
  rcases member with rfl | rfl | rfl | rfl
  all_goals
    simp only [kernLink, kernBase, extMem, devSpace, kpgdirPages, pgSize] at *
    omega

/-- A new page table takes at most the page of its directory and those of all page tables. -/
theorem supply_setupkvm (stock : n + 1 + npdEntries ≤ s.kmem.freelist.length) :
    Along (execute κ) Stocked (fun new state => ∀ d, new = some d → Room d n state) setupkvm (s, p) := by
  obtain ⟨m, more⟩ := Nat.exists_eq_add_of_le stock
  have exact : s.kmem.freelist.length = n + m + 1 + (Finset.range npdEntries).card := by
    rw [Finset.card_range]
    omega
  refine (level_setupkvm exact fun d s p level => ?_).mono fun new state levels d same => (levels d same).room (Nat.le_add_right n m)
  refine (level_mapRows (Q := fun _ => True) trivial (fun row member s p level => ?_) level).mono fun _ _ both => both.2
  exact (level_anywhere (kmap_inside row member) level).mono fun _ _ level => ⟨trivial, level⟩

theorem supply_allocLoop {oldsz newsz pages a : Nat} (user : a + pages ≤ userPages) (room : Room d (n + pages) (s, p)) :
    Along (execute κ) Stocked (fun size state => size ≠ 0 → Room d n state) (allocLoop d oldsz newsz pages a) (s, p) := by
  induction pages generalizing a s p with
  | zero => exact along_pure fun _ => room
  | succ pages ih =>
    unfold allocLoop
    apply supply_kalloc
    · unfold Room at room
      dsimp only at room
      omega
    · intro mem s₁ less
      apply along_ask (stocked_of_ne (by simp))
      have room₁ : Room d (n + pages) (s₁.setPage mem fun _ => 0, p) := by
        unfold Room Shared.setPage at *
        dsimp only at *
        omega
      apply Along.bind
      have inside : a * pgSize < 2 ^ 32 := by
        rw [userPages_eq] at user
        unfold pgSize
        omega
      refine (supply_mappages inside room₁).mono ?_
      rintro mapped ⟨s₂, p₂⟩ room₂
      cases mapped
      · apply Along.bind
        refine (Freeing.stocked deallocuvm_uses _).mono fun _ _ _ => Along.bind ?_
        exact (Freeing.stocked kfree_uses _).mono fun _ _ _ => along_pure fun wrong => absurd rfl wrong
      · exact ih (by omega) room₂

theorem supply_allocuvm {oldsz newsz : Nat} (room : Room d (n + (pgRoundUp newsz - pgRoundUp oldsz)) (s, p)) :
    Along (execute κ) Stocked (fun size state => size ≠ 0 → Room d n state) (allocuvm d oldsz newsz) (s, p) := by
  unfold allocuvm
  split
  · exact along_pure fun _ => room.mono (by omega)
  · split
    · exact along_pure fun _ => room.mono (by omega)
    · rename_i small order
      apply supply_allocLoop _ room
      rw [userPages_eq]
      unfold kernBase at small
      unfold pgRoundUp pgSize
      omega

theorem supply_shareLoop {pgdir pages i : Nat} (user : i + pages ≤ userPages)
    (room : Room d n (s, p)) :
    Along (execute κ) Stocked (fun copied state => copied = true → Room d n state) (shareLoop pgdir d pages i) (s, p) := by
  induction pages generalizing i s p with
  | zero => exact along_pure fun _ => room
  | succ pages ih =>
    unfold shareLoop
    have inside : i * pgSize < 2 ^ 32 := by
      rw [userPages_eq] at user
      unfold pgSize
      omega
    apply along_walk (stocked_of_ne (by simp))
    case missing => exact fun _ => along_panic
    intro _
    apply along_pte (stocked_of_ne (by simp))
    generalize (p.dir pgdir).pte (pageOf (i * pgSize)) = e
    have room₁ : Room d n (s, p.setDir pgdir ((p.dir pgdir).setPte (pageOf (i * pgSize)) { e with w := false })) := by
      have same : ((p.setDir pgdir ((p.dir pgdir).setPte (pageOf (i * pgSize)) { e with w := false })).dir d).vacantIn
          (.range npdEntries) = (p.dir d).vacantIn (.range npdEntries) := by
        by_cases own : pgdir = d
        · rw [own, Proc.dir_setDir, PgDir.vacant_setPte]
        · have other : d ≠ pgdir := fun equal => own equal.symm
          simp [Proc.dir, Proc.setDir, other]
      unfold Room at *
      rw [same]
      exact room
    split
    · apply along_ask (stocked_of_ne (by simp))
      apply Along.bind
      refine (supply_mappages inside room₁).mono ?_
      rintro mapped ⟨s₂, p₂⟩ room₂
      cases mapped
      · apply Along.bind
        exact (Freeing.stocked freevm_uses _).mono fun _ _ _ => along_pure fun wrong => absurd wrong (by decide)
      · simp only [if_true]
        unfold iRCount
        split
        · exact along_ask (stocked_of_ne (by simp)) (ih (by omega) room₂)
        · exact along_panic
    · exact along_panic

omit [KernelImage] in
theorem copied_pages {sz : Nat} (bound : sz ≤ kernBase) : 0 + pgRoundUp sz ≤ userPages := by
  rw [userPages_eq]
  unfold kernBase at bound
  unfold pgRoundUp pgSize
  omega

theorem supply_copied {loop : Nat → Vm Bool} {m : Nat} (stock : m + 1 + npdEntries ≤ s.kmem.freelist.length)
    (copies : ∀ d s p, Room d m (s, p) →
      Along (execute κ) Stocked (fun copied state => copied = true → Room d n state) (loop d) (s, p)) :
    Along (execute κ) Stocked (fun new state => ∀ d, new = some d → Room d n state) (do
      match ← setupkvm with
      | none => return none
      | some d =>
        let copied ← loop d
        if copied then return some d else return none) (s, p) := by
  apply Along.bind
  refine (supply_setupkvm stock).mono ?_
  rintro (_ | d) ⟨s₁, p₁⟩ room
  · exact along_pure fun d wrong => absurd wrong (by simp)
  · apply Along.bind
    refine (copies d s₁ p₁ (room d rfl)).mono ?_
    rintro copied state room₁
    cases copied
    · exact along_pure fun d wrong => absurd wrong (by simp)
    · refine along_pure fun d' same => ?_
      cases same
      exact room₁ rfl

theorem supply_copyuvm {pgdir sz : Nat} (bound : sz ≤ kernBase) (stock : n + 1 + npdEntries ≤ s.kmem.freelist.length) :
    Along (execute κ) Stocked (fun new state => ∀ d, new = some d → Room d n state) (copyuvm .cow pgdir sz) (s, p) :=
  supply_copied stock fun _ _ _ => supply_shareLoop (copied_pages bound)

theorem supply_copyLoop {pgdir pages i : Nat} (user : i + pages ≤ userPages) (room : Room d (n + pages) (s, p)) :
    Along (execute κ) Stocked (fun copied state => copied = true → Room d n state) (copyLoop pgdir d pages i) (s, p) := by
  induction pages generalizing i s p with
  | zero => exact along_pure fun _ => room
  | succ pages ih =>
    unfold copyLoop
    have inside : i * pgSize < 2 ^ 32 := by
      rw [userPages_eq] at user
      unfold pgSize
      omega
    apply along_walk (stocked_of_ne (by simp))
    case missing => exact fun _ => along_panic
    intro _
    apply along_pte (stocked_of_ne (by simp))
    generalize (p.dir pgdir).pte (pageOf (i * pgSize)) = e
    split
    · apply supply_kalloc
      · unfold Room at room
        dsimp only at room
        omega
      · intro mem s₁ less
        apply along_ask (stocked_of_ne (by simp))
        have room₁ : Room d (n + pages) ((execute κ (.memmove mem e.addr) (s₁, p)).2) := by
          have kept : (execute κ (.memmove mem e.addr) (s₁, p)).2 = (s₁.setPage mem (s₁.ram e.addr), p) := rfl
          rw [kept]
          unfold Room Shared.setPage at *
          dsimp only at *
          omega
        apply Along.bind
        refine (supply_mappages inside room₁).mono ?_
        rintro mapped ⟨s₂, p₂⟩ room₂
        cases mapped
        · apply Along.bind
          refine (Freeing.stocked kfree_uses _).mono fun _ _ _ => Along.bind ?_
          exact (Freeing.stocked freevm_uses _).mono fun _ _ _ => along_pure fun wrong => absurd wrong (by decide)
        · exact ih (by omega) room₂
    · exact along_panic

theorem supply_copyuvm_eager {pgdir sz : Nat} (bound : sz ≤ kernBase)
    (stock : n + pgRoundUp sz + 1 + npdEntries ≤ s.kmem.freelist.length) :
    Along (execute κ) Stocked (fun new state => ∀ d, new = some d → Room d n state) (copyuvm .eager pgdir sz) (s, p) :=
  supply_copied stock fun _ _ _ => supply_copyLoop (copied_pages bound)

/-- `fork` needs a page for the kernel stack beside those that `copyuvm` needs. -/
theorem supply_fork_of {κ' : Kernel} {pgdir sz k : Nat} (more : k < s.kmem.freelist.length)
    (copies : ∀ s p, k ≤ s.kmem.freelist.length → Along (execute κ) Stocked
      (fun new state => ∀ d, new = some d → Room d n state) (copyuvm κ' pgdir sz) (s, p)) :
    Along (execute κ) Stocked (fun child state => ∀ kstack d, child = some (kstack, d) → Room d n state)
      (fork κ' pgdir sz) (s, p) := by
  unfold fork
  apply supply_kalloc (by omega)
  intro kstack s₁ less
  apply along_ask (stocked_of_ne (by simp))
  apply Along.bind
  refine (copies _ _ (by omega)).mono ?_
  rintro (_ | d) state room
  · apply along_ask (stocked_of_ne (by simp))
    apply Along.bind
    exact (Freeing.stocked kfree_uses _).mono fun _ _ _ => along_pure fun _ _ wrong => absurd wrong (by simp)
  · refine along_pure fun _ _ same => ?_
    cases same
    exact room d rfl

theorem supply_fork {pgdir sz : Nat} (bound : sz ≤ kernBase) (stock : n + 2 + npdEntries ≤ s.kmem.freelist.length) :
    Along (execute κ) Stocked (fun child state => ∀ kstack d, child = some (kstack, d) → Room d n state)
      (fork .cow pgdir sz) (s, p) :=
  supply_fork_of (k := n + 1 + npdEntries) (by omega) fun _ _ stock => supply_copyuvm bound stock

theorem supply_fork_eager {pgdir sz : Nat} (bound : sz ≤ kernBase)
    (stock : n + pgRoundUp sz + 2 + npdEntries ≤ s.kmem.freelist.length) :
    Along (execute κ) Stocked (fun child state => ∀ kstack d, child = some (kstack, d) → Room d n state)
      (fork .eager pgdir sz) (s, p) :=
  supply_fork_of (k := n + pgRoundUp sz + 1 + npdEntries) (by omega) fun _ _ stock =>
    supply_copyuvm_eager bound stock

theorem supply_cowFault {pgdir va : Nat} (stock : 0 < s.kmem.freelist.length) :
    Along (execute κ) Stocked (fun _ _ => True) (cowFault pgdir va) (s, p) := by
  unfold cowFault
  apply along_walk (stocked_of_ne (by simp))
  case missing => exact fun _ => Program.along_fail
  intro _
  apply along_pte (stocked_of_ne (by simp))
  generalize (p.dir pgdir).pte (pageOf va) = e
  unfold getRCount
  by_cases managed : Managed e.addr
  · rw [if_pos managed]
    apply along_count (stocked_of_ne (by simp))
    split
    · exact along_panic
    · split
      · rw [← Program.bind_ret (ask _)]
        exact along_ask (stocked_of_ne (by simp)) (along_pure trivial)
      · apply supply_kalloc stock
        intro mem s₁ _
        refine along_ask (stocked_of_ne (by simp)) (along_ask (stocked_of_ne (by simp)) ?_)
        rw [dRCount, if_pos managed, ← Program.bind_ret (ask _)]
        exact along_ask (stocked_of_ne (by simp)) (along_pure trivial)
  · rw [if_neg managed]
    exact along_panic

theorem supply_userinit {init : List UInt8} (stock : n + 3 + npdEntries ≤ s.kmem.freelist.length) :
    Along (execute κ) Stocked (fun _ state => Room state.2.pgdir n state) (userinit init) (s, p) := by
  unfold userinit
  apply supply_kalloc (by omega)
  intro kstack s₁ less
  apply along_ask (stocked_of_ne (by simp))
  apply Along.bind
  refine (supply_setupkvm (n := n + 1) (by omega)).mono ?_
  rintro (_ | pgdir) ⟨s₂, p₂⟩ room
  · exact along_panic
  · have room := room pgdir rfl
    apply Along.bind
    unfold inituvm
    split
    · exact along_panic
    · apply supply_kalloc
      · unfold Room at room
        dsimp only at room
        omega
      · intro mem s₃ less₃
        have room₃ : Room pgdir n (s₃.setPage mem fun _ => 0, p₂) := by
          unfold Room Shared.setPage at *
          dsimp only at *
          omega
        apply along_ask (stocked_of_ne (by simp))
        apply Along.bind
        refine (supply_mappages (by omega) room₃).mono ?_
        intro _ state₄ room₄
        rw [← Program.bind_ret (ask _)]
        apply along_ask (stocked_of_ne (by simp))
        apply along_pure
        apply along_ask (stocked_of_ne (by simp))
        exact along_pure room₄

end Xv6
