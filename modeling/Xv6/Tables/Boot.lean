import Mathlib.Data.List.Nodup
import Xv6.Tables.Map

namespace Xv6

open CommandProgram Program Function

/-- `freerange` over the pages `pas`: the counts are set and the pages given to `kfree` one by one. -/
def freerange (κ : Kernel) (pas : List Nat) (s : Shared) : Shared :=
  pas.foldl (fun s pa =>
    { s with kmem := { s.kmem with page_rCount := update s.kmem.page_rCount pa 0 } }.kfree κ pa) s

/-- Memory before `kinit1`, with whatever bytes are in it. -/
def unbooted (ram : Nat → Page) : Shared := ⟨⟨[], 0, fun _ => 0⟩, ram⟩

def Proc.unused : Proc := ⟨0, 0, 0, false, fun _ => none, []⟩

theorem freerange_cow (pas : List Nat) (s : Shared) :
    (freerange .cow pas s).kmem = ⟨pas.reverse ++ s.kmem.freelist, s.kmem.free_pages + pas.length,
      fun f => if f ∈ pas then 0 else s.kmem.page_rCount f⟩ := by
  induction pas generalizing s with
  | nil => simp [freerange]
  | cons pa rest ih =>
    have step := ih ({ s with kmem := { s.kmem with page_rCount := update s.kmem.page_rCount pa 0 } }.kfree .cow pa)
    unfold freerange at step ⊢
    rw [List.foldl_cons, step]
    simp only [Shared.kfree, update_self, Nat.lt_irrefl, if_false, if_true, List.reverse_cons, List.append_assoc,
      List.singleton_append, List.length_cons, Kmem.mk.injEq, true_and]
    constructor
    · omega
    · funext f
      by_cases here : f = pa
      · simp [here]
      · simp [here]

theorem freerange_eager (pas : List Nat) (s : Shared) :
    (freerange .eager pas s).kmem.freelist = pas.reverse ++ s.kmem.freelist := by
  induction pas generalizing s with
  | nil => rfl
  | cons pa rest ih =>
    have step := ih ({ s with kmem := { s.kmem with page_rCount := update s.kmem.page_rCount pa 0 } }.kfree .eager pa)
    unfold freerange at step ⊢
    rw [List.foldl_cons, step]
    simp [Shared.kfree]

theorem freerange_freelist (κ : Kernel) (pas : List Nat) (s : Shared) :
    (freerange κ pas s).kmem.freelist = pas.reverse ++ s.kmem.freelist := by
  cases κ
  · rw [freerange_cow]
  · exact freerange_eager pas s

variable [KernelImage]

/-- The pages that `kinit1` and `kinit2` free: from `end` up to 4 MB, and from there to PHYSTOP. -/
def kinit1Pages : List Nat := List.range' (pgRoundUp endPhys) (1024 - pgRoundUp endPhys)
def kinit2Pages : List Nat := List.range' 1024 (frames - 1024)

/-- Only the memory that `kpgdir` takes matters: no operation goes to its tables again. -/
def kvmalloc (κ : Kernel) (s : Shared) : Shared := (run (execute κ) setupkvm (s, .unused)).2.1

/-- Memory after `kinit2`. -/
def booted (κ : Kernel) (ram : Nat → Page) : Shared :=
  freerange κ kinit2Pages (kvmalloc κ (freerange κ kinit1Pages (unbooted ram)))

/-- The free list that is left: that of `kinit2`, and what `kvmalloc` has left of that of `kinit1`. -/
def bootPages : List Nat :=
  kinit2Pages.reverse ++ (List.range' (pgRoundUp endPhys) (1024 - kpgdirPages - pgRoundUp endPhys)).reverse

omit [KernelImage] in
theorem card_kernelTables : kernelTables.card + 1 = kpgdirPages := by decide +kernel

/-- `kvmalloc` takes the first 65 pages of the free list, and comes to `kpgdir` with them. -/
theorem kvmalloc_taken {κ : Kernel} {s : Shared} {pages rest : List Nat} (free : s.kmem.freelist = pages ++ rest)
    (enough : pages.length = kpgdirPages) :
    (∃ d p', run (execute κ) setupkvm (s, .unused) = (.ok (some d), (kvmalloc κ s, p'))) ∧ Taken κ s pages (kvmalloc κ s) := by
  obtain ⟨d, next, list⟩ : ∃ d next, s.kmem.freelist = d :: next := by
    cases pages with
    | nil => exact absurd enough (by decide)
    | cons d more => exact ⟨d, more ++ rest, free⟩
  obtain ⟨mapped, s', x', ran, fed, -, kernel, made⟩ := setupkvm_cons κ .unused list
  have length : (s.kalloc κ).2.kmem.freelist.length = rest.length + kernelTables.card := by
    have total := congrArg List.length list
    rw [free, List.length_append, enough, ← card_kernelTables, List.length_cons] at total
    rw [(kalloc_cons list).2]
    omega
  have level : Level kernelTables d rest.length ((s.kalloc κ).2, Proc.unused.setDir d .empty) := by
    unfold Level
    rw [Proc.dir_setDir, PgDir.vacant_empty]
    exact length
  obtain ⟨whole, left⟩ := (kmap_level d _ _ level).result ran
  rw [whole, if_pos rfl] at made
  have ends : kvmalloc κ s = s' := congrArg (fun result => result.2.1) made
  unfold Level at left
  dsimp only at left
  rw [Proc.dir_setDir, vacant_kernel (kernel whole), Nat.add_zero] at left
  obtain ⟨tables, taken⟩ := fed.taken
  have all : Taken κ s ([d] ++ tables) s' := (Taken.kalloc list).trans taken
  have split := all.freelist
  rw [free] at split
  have same : pages = [d] ++ tables := (List.append_inj' split left.symm).1
  rw [ends, same]
  exact ⟨⟨d, _, made⟩, all⟩

theorem endPhys_bounds : pgRoundUp endPhys ≤ 1024 - kpgdirPages := by
  have bound := KernelImage.end_le
  unfold pgRoundUp endPhys
  unfold kernBase kpgdirPages pgSize at *
  omega

theorem kinit1_split : kinit1Pages.reverse = (List.range' (1024 - kpgdirPages) kpgdirPages).reverse ++
    (List.range' (pgRoundUp endPhys) (1024 - kpgdirPages - pgRoundUp endPhys)).reverse := by
  have bound := endPhys_bounds
  have first : pgRoundUp endPhys + (1024 - kpgdirPages - pgRoundUp endPhys) = 1024 - kpgdirPages := by omega
  have both : 1024 - kpgdirPages - pgRoundUp endPhys + kpgdirPages = 1024 - pgRoundUp endPhys := by
    unfold kpgdirPages at *
    omega
  have ranges : List.range' (pgRoundUp endPhys) (1024 - kpgdirPages - pgRoundUp endPhys) ++ _ = _ :=
    List.range'_append_1 (n := kpgdirPages)
  rw [first, both] at ranges
  rw [kinit1Pages, ← List.reverse_append, ranges]

omit [KernelImage] in
theorem mem_kpgdir (f : Nat) : f ∈ (List.range' (1024 - kpgdirPages) kpgdirPages).reverse ↔ Kpgdir f := by
  rw [List.mem_reverse, List.mem_range'_1]
  rfl

/-- Every page that may be had is on the free list and counted by nobody, and the pages of `kpgdir` are counted once. -/
structure Booted (κ : Kernel) (s : Shared) : Prop where
  freelist : s.kmem.freelist = bootPages
  free_pages : κ = .cow → s.kmem.free_pages = bootPages.length
  page_rCount : κ = .cow → s.kmem.page_rCount = kpgdirCount

theorem booted_booted (κ : Kernel) (ram : Nat → Page) : Booted κ (booted κ ram) := by
  have list : (freerange κ kinit1Pages (unbooted ram)).kmem.freelist = kinit1Pages.reverse := by
    rw [freerange_freelist]
    exact List.append_nil _
  obtain ⟨-, taken⟩ := kvmalloc_taken (κ := κ) (list.trans kinit1_split) (by rw [List.length_reverse, List.length_range'])
  have left := taken.freelist
  rw [list, kinit1_split] at left
  have rest := List.append_cancel_left left
  constructor
  · rw [booted, freerange_freelist, ← rest]
    rfl
  · rintro rfl
    have left := taken.free_pages rfl
    have bound := endPhys_bounds
    rw [freerange_cow] at left
    rw [booted, freerange_cow, left]
    simp only [unbooted, Nat.zero_add, bootPages, kinit1Pages, List.length_append, List.length_reverse, List.length_range']
    omega
  · rintro rfl
    have counts := taken.page_rCount rfl
    rw [booted, freerange_cow, counts, freerange_cow]
    funext f
    simp only [unbooted, mem_kpgdir, kpgdirCount, ite_self]
    by_cases late : f ∈ kinit2Pages
    · have high := (List.mem_range'_1.mp late).1
      have other : ¬ Kpgdir f := fun kpgdir => absurd kpgdir.2 (by omega)
      rw [if_pos late, if_neg other]
    · rw [if_neg late]

theorem mem_bootPages (f : Nat) : f ∈ bootPages ↔ Available f := by
  have bound := endPhys_bounds
  simp only [bootPages, kinit2Pages, List.mem_append, List.mem_reverse, List.mem_range'_1, Available, Managed, Kpgdir, frames_eq]
  unfold pgRoundUp kpgdirPages pgSize physTop at *
  omega

theorem nodup_bootPages : bootPages.Nodup := by
  have bound := endPhys_bounds
  refine List.nodup_append.mpr ⟨?_, ?_, ?_⟩
  · exact List.nodup_reverse.mpr (List.nodup_range' 1)
  · exact List.nodup_reverse.mpr (List.nodup_range' 1)
  · intro f second g first
    simp only [kinit2Pages, List.mem_reverse, List.mem_range'_1] at first second
    omega

theorem length_bootPages : 56320 ≤ bootPages.length := by
  simp only [bootPages, kinit2Pages, List.length_append, List.length_reverse, List.length_range', frames_eq]
  omega

omit [KernelImage] in
example : (@bootPages builtImage).length = 56945 := by
  simp only [bootPages, kinit2Pages, List.length_append, List.length_reverse, List.length_range', frames_eq]
  decide

end Xv6
