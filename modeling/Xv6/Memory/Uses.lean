import Xv6.Memory.Process

namespace Xv6

open CommandProgram Program

/-- The commands that leave the counts to themselves: all but `d_rCount`. -/
def Harmless : Cmd → Prop
  | .dRCount _ => False
  | _ => True

def Freeing : Cmd → Prop
  | .dRCount _ => False
  | .kalloc => False
  | _ => True

/-- The harmless commands, with page tables for certain directory entries only. -/
def Mapping (table : Nat → Prop) : Cmd → Prop
  | .setPde _ i _ => table i
  | command => Harmless command

theorem Freeing.harmless {command : Cmd} (freeing : Freeing command) : Harmless command := by
  cases command <;> trivial

section

variable {allowed : Cmd → Prop} {α : Type} {program : Vm α}

theorem uses_ask {command : Cmd} (holds : allowed command) : (ask command).Uses allowed :=
  uses_call.mpr ⟨holds, fun _ => uses_ret⟩

theorem uses_pure {value : α} : (pure value : Vm α).Uses allowed := uses_ret

theorem uses_panic {message : String} : (panic message : Vm α).Uses allowed := uses_fail

theorem Freeing.uses (uses : program.Uses Freeing) : program.Uses Harmless := uses.mono fun _ => Freeing.harmless

end

variable [KernelImage]

/-- The commands of the programs that copy no bytes: the pages that they fill are those that the allocator takes back. -/
def Byteless : Cmd → Prop
  | .kfree pa => Managed pa
  | .freePte _ _ pa => Managed pa
  | .memset _ _ => False
  | .memmove _ _ => False
  | .store _ _ _ => False
  | _ => True

structure Frees (allowed : Cmd → Prop) : Prop where
  kfree : ∀ pa, Managed pa → allowed (.kfree pa)
  freePte : ∀ pgdir v pa, Managed pa → allowed (.freePte pgdir v pa)
  pde : ∀ pgdir i, allowed (.pde pgdir i)
  pte : ∀ pgdir v, allowed (.pte pgdir v)
  retire : ∀ pgdir, allowed (.retire pgdir)

/-- A page table may be made and shared, with tables for certain directory entries. -/
structure Maps (allowed : Cmd → Prop) (table : Nat → Prop) : Prop extends Frees allowed where
  kalloc : allowed .kalloc
  newPgdir : ∀ pa, allowed (.newPgdir pa)
  setPde : ∀ pgdir i pa, table i → allowed (.setPde pgdir i pa)
  setPte : ∀ pgdir v e, allowed (.setPte pgdir v e)
  iRCount : ∀ pa, allowed (.iRCount pa)

theorem Frees.freeing : Frees Freeing := ⟨fun _ _ => ⟨⟩, fun _ _ _ _ => ⟨⟩, fun _ _ => ⟨⟩, fun _ _ => ⟨⟩, fun _ => ⟨⟩⟩

theorem Maps.mapping (table : Nat → Prop) : Maps (Mapping table) table where
  toFrees := ⟨fun _ _ => ⟨⟩, fun _ _ _ _ => ⟨⟩, fun _ _ => ⟨⟩, fun _ _ => ⟨⟩, fun _ => ⟨⟩⟩
  kalloc := ⟨⟩
  newPgdir _ := ⟨⟩
  setPde _ _ _ here := here
  setPte _ _ _ := ⟨⟩
  iRCount _ := ⟨⟩

theorem Maps.harmless : Maps Harmless fun _ => True where
  toFrees := ⟨fun _ _ => ⟨⟩, fun _ _ _ _ => ⟨⟩, fun _ _ => ⟨⟩, fun _ _ => ⟨⟩, fun _ => ⟨⟩⟩
  kalloc := ⟨⟩
  newPgdir _ := ⟨⟩
  setPde _ _ _ _ := ⟨⟩
  setPte _ _ _ := ⟨⟩
  iRCount _ := ⟨⟩

theorem Maps.byteless : Maps Byteless fun _ => True where
  toFrees := ⟨fun _ managed => managed, fun _ _ _ managed => managed, fun _ _ => ⟨⟩, fun _ _ => ⟨⟩, fun _ => ⟨⟩⟩
  kalloc := ⟨⟩
  newPgdir _ := ⟨⟩
  setPde _ _ _ _ := ⟨⟩
  setPte _ _ _ := ⟨⟩
  iRCount _ := ⟨⟩

variable {allowed : Cmd → Prop} {table : Nat → Prop}

section Frees

theorem kfree_frees (frees : Frees allowed) {pa : Nat} : (kfree pa).Uses allowed := by
  unfold kfree
  split
  · exact uses_ask (frees.kfree pa ‹_›)
  · exact uses_panic

theorem walk_frees (frees : Frees allowed) {pgdir va : Nat} : (walkpgdir pgdir va false).Uses allowed := by
  unfold walkpgdir
  refine uses_bind (uses_ask (frees.pde _ _)) fun pde => ?_
  cases pde
  · exact uses_pure
  · exact uses_pure

theorem deallocLoop_frees (frees : Frees allowed) {pgdir last n a : Nat} : (deallocLoop pgdir last n a).Uses allowed := by
  induction n generalizing a with
  | zero =>
    unfold deallocLoop
    split
    · exact uses_fail
    · exact uses_pure
  | succ n ih =>
    unfold deallocLoop
    split
    · refine uses_bind (walk_frees frees) fun pte => ?_
      cases pte
      · exact ih
      · refine uses_bind (uses_ask (frees.pte _ _)) fun e => ?_
        split
        · split
          · exact uses_panic
          · split
            · exact uses_bind (uses_ask (frees.freePte _ _ _ ‹_›)) fun _ => ih
            · exact uses_panic
        · exact ih
    · exact uses_pure

theorem deallocuvm_frees (frees : Frees allowed) {pgdir oldsz newsz : Nat} : (deallocuvm pgdir oldsz newsz).Uses allowed := by
  unfold deallocuvm
  split
  · exact uses_pure
  · exact uses_bind (deallocLoop_frees frees) fun _ => uses_pure

theorem freeTables_frees (frees : Frees allowed) {pdes : List (Option Nat)} : (freeTables pdes).Uses allowed := by
  induction pdes with
  | nil => exact uses_pure
  | cons o rest ih =>
    unfold freeTables
    cases o
    · exact ih
    · exact uses_bind (kfree_frees frees) fun _ => ih

theorem freevm_frees (frees : Frees allowed) {pgdir : Nat} : (freevm pgdir).Uses allowed := by
  unfold freevm
  exact uses_bind (deallocuvm_frees frees) fun _ => uses_bind (uses_ask (frees.retire _)) fun _ =>
    uses_bind (freeTables_frees frees) fun _ => kfree_frees frees

theorem kfree_uses {pa : Nat} : (kfree pa).Uses Freeing := kfree_frees .freeing

theorem walk_uses {pgdir va : Nat} : (walkpgdir pgdir va false).Uses Freeing := walk_frees .freeing

theorem deallocuvm_uses {pgdir oldsz newsz : Nat} : (deallocuvm pgdir oldsz newsz).Uses Freeing := deallocuvm_frees .freeing

theorem freevm_uses {pgdir : Nat} : (freevm pgdir).Uses Freeing := freevm_frees .freeing

end Frees

section Maps

theorem walk_maps (maps : Maps allowed table) {pgdir va : Nat} (here : table (pageOf va / npdEntries)) :
    (walkpgdir pgdir va true).Uses allowed := by
  unfold walkpgdir
  refine uses_bind (uses_ask (maps.pde _ _)) fun pde => ?_
  cases pde
  · refine uses_bind (uses_ask maps.kalloc) fun pgtab => ?_
    cases pgtab
    · exact uses_pure
    · exact uses_bind (uses_ask (maps.setPde _ _ _ here)) fun _ => uses_pure
  · exact uses_pure

theorem mapLoop_maps (maps : Maps allowed table) {pgdir last n a pa : Nat} {perm : Perm} (visits : Nat → Prop) (here : visits a)
    (next : ∀ v, visits v → v ≠ last → visits ((v + 1) % vaPages))
    (tables : ∀ v, visits v → table (pageOf (v * pgSize) / npdEntries)) :
    (mapLoop pgdir last perm n a pa).Uses allowed := by
  induction n generalizing a pa with
  | zero => exact uses_fail
  | succ n ih =>
    unfold mapLoop
    refine uses_bind (walk_maps maps (tables a here)) fun pte => ?_
    cases pte
    · exact uses_pure
    · refine uses_bind (uses_ask (maps.pte _ _)) fun old => ?_
      split
      · exact uses_panic
      · refine uses_bind (uses_ask (maps.setPte _ _ _)) fun _ => ?_
        split
        · exact uses_pure
        · exact ih (next a here ‹_›)

theorem mappages_maps (maps : Maps allowed table) {pgdir va size pa : Nat} {perm : Perm}
    (inside : pageOf ((va + size + (2 ^ 32 - 1)) % 2 ^ 32) < vaPages)
    (order : pageOf va ≤ pageOf ((va + size + (2 ^ 32 - 1)) % 2 ^ 32))
    (tables : ∀ v, pageOf va ≤ v → v ≤ pageOf ((va + size + (2 ^ 32 - 1)) % 2 ^ 32) → table (v / npdEntries)) :
    (mappages pgdir va size pa perm).Uses allowed := by
  apply mapLoop_maps maps fun v => pageOf va ≤ v ∧ v ≤ pageOf ((va + size + (2 ^ 32 - 1)) % 2 ^ 32)
  · exact ⟨Nat.le_refl _, order⟩
  · intro v ⟨low, high⟩ more
    rw [Nat.mod_eq_of_lt (by omega)]
    omega
  · intro v ⟨low, high⟩
    have page : pageOf (v * pgSize) = v := Nat.mul_div_cancel _ (by decide)
    rw [page]
    exact tables v low high

theorem mappages_free (maps : Maps allowed fun _ => True) {pgdir va size pa : Nat} {perm : Perm} :
    (mappages pgdir va size pa perm).Uses allowed :=
  mapLoop_maps maps (fun _ => True) trivial (fun _ _ _ => trivial) fun _ _ => trivial

omit [KernelImage] in
theorem mapRows_maps {pgdir : Nat} {rows : List (Nat × Nat × Nat × Perm)}
    (each : ∀ row ∈ rows, (mappages pgdir row.1 ((row.2.2.1 + 2 ^ 32 - row.2.1) % 2 ^ 32) (pageOf row.2.1) row.2.2.2).Uses
      allowed) : (mapRows pgdir rows).Uses allowed := by
  induction rows with
  | nil => exact uses_pure
  | cons row rest ih =>
    unfold mapRows
    refine uses_bind (each row (.head _)) fun mapped => ?_
    split
    · exact ih fun row member => each row (.tail _ member)
    · exact uses_pure

theorem setupkvm_maps (maps : Maps allowed table) (rows : ∀ pgdir, (mapRows pgdir kmap).Uses allowed) :
    setupkvm.Uses allowed := by
  unfold setupkvm
  refine uses_bind (uses_ask maps.kalloc) fun page => ?_
  cases page
  · exact uses_pure
  · refine uses_bind (uses_ask (maps.newPgdir _)) fun _ => ?_
    split
    · exact uses_panic
    · refine uses_bind (rows _) fun mapped => ?_
      split
      · exact uses_pure
      · exact uses_bind (freevm_frees maps.toFrees) fun _ => uses_pure

theorem setupkvm_free (maps : Maps allowed fun _ => True) : setupkvm.Uses allowed :=
  setupkvm_maps maps fun _ => mapRows_maps fun _ _ => mappages_free maps

theorem setupkvm_uses : setupkvm.Uses Harmless := setupkvm_free .harmless

theorem allocLoop_maps (maps : Maps allowed table) (clears : ∀ pa, allowed (.memset pa 0)) {pgdir oldsz newsz n a : Nat}
    (each : ∀ v mem, a ≤ v → v < a + n → (mappages pgdir (v * pgSize) pgSize mem permWU).Uses allowed) :
    (allocLoop pgdir oldsz newsz n a).Uses allowed := by
  have undone : (deallocuvm pgdir newsz oldsz).Uses allowed := deallocuvm_frees maps.toFrees
  induction n generalizing a with
  | zero => exact uses_ret
  | succ n ih =>
    unfold allocLoop
    refine uses_bind (uses_ask maps.kalloc) fun page => ?_
    cases page
    · exact uses_bind undone fun _ => uses_pure
    · refine uses_bind (uses_ask (clears _)) fun _ => uses_bind (each a _ (by omega) (by omega)) fun mapped => ?_
      split
      · exact ih fun v mem low high => each v mem (by omega) (by omega)
      · exact uses_bind undone fun _ => uses_bind (kfree_frees maps.toFrees) fun _ => uses_pure

theorem allocuvm_maps (maps : Maps allowed table) (clears : ∀ pa, allowed (.memset pa 0)) {pgdir oldsz newsz : Nat}
    (each : ∀ v mem, v < userPages → (mappages pgdir (v * pgSize) pgSize mem permWU).Uses allowed) :
    (allocuvm pgdir oldsz newsz).Uses allowed := by
  unfold allocuvm
  split
  · exact uses_pure
  · split
    · exact uses_pure
    · apply allocLoop_maps maps clears
      intro v mem _ high
      apply each
      rw [userPages_eq]
      unfold pgRoundUp pgSize at *
      unfold kernBase at *
      omega

theorem allocuvm_uses {pgdir oldsz newsz : Nat} : (allocuvm pgdir oldsz newsz).Uses Harmless :=
  allocuvm_maps .harmless (fun _ => ⟨⟩) fun _ _ _ => mappages_free .harmless

theorem shareLoop_maps (maps : Maps allowed fun _ => True) {pgdir d n i : Nat} : (shareLoop pgdir d n i).Uses allowed := by
  induction n generalizing i with
  | zero => exact uses_ret
  | succ n ih =>
    unfold shareLoop
    refine uses_bind (walk_frees maps.toFrees) fun pte => ?_
    cases pte
    · exact uses_panic
    · refine uses_bind (uses_ask (maps.pte _ _)) fun e => ?_
      split
      · refine uses_bind (uses_ask (maps.setPte _ _ _)) fun _ => uses_bind (mappages_free maps) fun mapped => ?_
        split
        · refine uses_bind ?_ fun _ => ih
          unfold iRCount
          split
          · exact uses_ask (maps.iRCount _)
          · exact uses_panic
        · exact uses_bind (freevm_frees maps.toFrees) fun _ => uses_pure
      · exact uses_panic

theorem copyuvm_maps (maps : Maps allowed fun _ => True) {pgdir sz : Nat} : (copyuvm .cow pgdir sz).Uses allowed := by
  unfold copyuvm
  refine uses_bind (setupkvm_free maps) fun new => ?_
  cases new
  · exact uses_pure
  · refine uses_bind (shareLoop_maps maps) fun copied => ?_
    cases copied <;> exact uses_pure

end Maps

theorem growproc_uses {pgdir sz : Nat} {n : Int} : (growproc pgdir sz n).Uses Harmless := by
  have noted : ∀ grown, (if grown = 0 then return false else do ask (.commit pgdir grown); return true : Vm Bool).Uses Harmless := by
    intro grown
    split
    · exact uses_pure
    · exact uses_bind (uses_ask ⟨⟩) fun _ => uses_pure
  unfold growproc
  dsimp only
  split
  · exact uses_bind (uses_ask ⟨⟩) fun _ => uses_pure
  · split
    · exact uses_bind allocuvm_uses noted
    · exact uses_bind (Freeing.uses deallocuvm_uses) noted

theorem clearpteu_uses {pgdir uva : Nat} : (clearpteu pgdir uva).Uses Harmless := by
  unfold clearpteu
  refine uses_bind (Freeing.uses walk_uses) fun pte => ?_
  cases pte
  · exact uses_panic
  · exact uses_bind (uses_ask ⟨⟩) fun _ => uses_ask ⟨⟩

theorem copyLoop_uses {pgdir d n i : Nat} : (copyLoop pgdir d n i).Uses Harmless := by
  induction n generalizing i with
  | zero => exact uses_ret
  | succ n ih =>
    unfold copyLoop
    refine uses_bind (Freeing.uses walk_uses) fun pte => ?_
    cases pte
    · exact uses_panic
    · refine uses_bind (uses_ask ⟨⟩) fun e => ?_
      split
      · refine uses_bind (uses_ask ⟨⟩) fun page => ?_
        cases page
        · exact uses_bind (Freeing.uses freevm_uses) fun _ => uses_pure
        · refine uses_bind (uses_ask ⟨⟩) fun _ => uses_bind (mappages_free .harmless) fun mapped => ?_
          split
          · exact ih
          · exact uses_bind (Freeing.uses kfree_uses) fun _ => uses_bind (Freeing.uses freevm_uses) fun _ => uses_pure
      · exact uses_panic

theorem copyuvm_uses {κ : Kernel} {pgdir sz : Nat} : (copyuvm κ pgdir sz).Uses Harmless := by
  cases κ
  · exact copyuvm_maps .harmless
  · unfold copyuvm
    refine uses_bind setupkvm_uses fun new => ?_
    cases new
    · exact uses_pure
    · refine uses_bind copyLoop_uses fun copied => ?_
      cases copied <;> exact uses_pure

omit [KernelImage] in
theorem userWrite_uses {pgdir va : Nat} {byte : UInt8} : (userWrite pgdir va byte).Uses Freeing := by
  unfold userWrite
  refine uses_bind (uses_ask ⟨⟩) fun e => ?_
  split
  · exact uses_bind (uses_ask ⟨⟩) fun _ => uses_pure
  · exact uses_pure

end Xv6
