import Mathlib.Algebra.Group.Nat.Defs
import Mathlib.Algebra.Group.Int.Defs
import Mathlib.Tactic.Common

namespace Xv6

def pgSize : Nat := 4096
def npdEntries : Nat := 1024
def extMem : Nat := 0x100000
def physTop : Nat := 0xE000000
def devSpace : Nat := 0xFE000000
def kernBase : Nat := 0x80000000
def kernLink : Nat := kernBase + extMem

/-- Number of pages of the user half, of the whole 32-bit space and of managed physical memory. -/
def userPages : Nat := kernBase / pgSize
def vaPages : Nat := 2 ^ 32 / pgSize
def frames : Nat := physTop / pgSize

theorem userPages_eq : userPages = 524288 := rfl
theorem vaPages_eq : vaPages = 1048576 := rfl
theorem frames_eq : frames = 57344 := rfl

/-- Page number of a virtual address, and the number of pages that hold `sz` bytes. -/
def pageOf (va : Nat) : Nat := va / pgSize
def pgRoundUp (sz : Nat) : Nat := (sz + pgSize - 1) / pgSize

/-- How many pages `kpgdir` takes: the directory, and a page table for each 4 MB that `kmap` maps. -/
def kpgdirPages : Nat := 65

/-- The addresses that the linker script leaves open. `entry.S` maps 4 MB, and `kvmalloc` finds its pages in them. -/
class KernelImage where
  data : Nat
  endAddr : Nat
  data_aligned : data % pgSize = 0
  link_lt_data : kernLink < data
  data_le_end : data ≤ endAddr
  end_le : endAddr + kpgdirPages * pgSize ≤ kernBase + 4 * 1024 * 1024

section

variable [KernelImage]

/-- `V2P(end)` and the first page number of the kernel's data. -/
def endPhys : Nat := KernelImage.endAddr - kernBase
def dataPage : Nat := (KernelImage.data - kernBase) / pgSize

/-- The page number passes the range check of `kfree` and of the reference counts. -/
def Managed (pa : Nat) : Prop := endPhys ≤ pa * pgSize ∧ pa * pgSize < physTop

instance (pa : Nat) : Decidable (Managed pa) := inferInstanceAs (Decidable (_ ∧ _))

theorem dataPage_bounds : 256 ≤ dataPage ∧ dataPage ≤ 1024 := by
  have low := KernelImage.link_lt_data
  have middle := KernelImage.data_le_end
  have high := KernelImage.end_le
  unfold dataPage pgSize
  unfold kernLink kernBase extMem kpgdirPages pgSize at *
  omega

theorem Managed.lt_frames {pa : Nat} (managed : Managed pa) : pa < frames := by
  have high := managed.2
  rw [frames_eq]
  unfold pgSize physTop at high
  omega

theorem Managed.dataPage_le {pa : Nat} (managed : Managed pa) : dataPage ≤ pa := by
  have low := managed.1
  have middle := KernelImage.data_le_end
  unfold endPhys pgSize at low
  unfold dataPage pgSize
  omega

theorem managed_of_range {pa : Nat} (low : 1024 ≤ pa) (high : pa < frames) : Managed pa := by
  have bound := KernelImage.end_le
  rw [frames_eq] at high
  unfold Managed endPhys pgSize physTop
  unfold kernBase kpgdirPages pgSize at *
  omega

/-- The frame is part of `kpgdir`: `kvmalloc` takes the pages just below 4 MB. -/
def Kpgdir (pa : Nat) : Prop := 1024 - kpgdirPages ≤ pa ∧ pa < 1024

instance (pa : Nat) : Decidable (Kpgdir pa) := inferInstanceAs (Decidable (_ ∧ _))

/-- The reference that the kernel itself holds on the frame for good. -/
def kpgdirCount (pa : Nat) : Nat := if Kpgdir pa then 1 else 0

/-- The frames that `kalloc` and `kfree` deal with once the kernel runs. -/
def Available (pa : Nat) : Prop := Managed pa ∧ ¬ Kpgdir pa

instance (pa : Nat) : Decidable (Available pa) := inferInstanceAs (Decidable (_ ∧ _))

theorem Available.count {pa : Nat} (available : Available pa) : kpgdirCount pa = 0 := if_neg available.2

end

@[reducible] def builtImage : KernelImage where
  data := 0x80108000
  endAddr := 0x8014d4d0
  data_aligned := by decide
  link_lt_data := by decide
  data_le_end := by decide
  end_le := by decide

end Xv6
