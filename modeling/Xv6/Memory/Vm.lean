import Xv6.Memory.Machine

namespace Xv6

open CommandProgram Program

variable [KernelImage]

def panic {α : Type} (message : String) : Vm α := .fail (.panic message)

def kalloc : Vm (Option Nat) := ask .kalloc

def kfree (pa : Nat) : Vm Unit :=
  if Managed pa then ask (.kfree pa) else panic "kfree"

def iRCount (pa : Nat) : Vm Unit :=
  if Managed pa then ask (.iRCount pa) else panic "i_rCount"

def dRCount (pa : Nat) : Vm Unit :=
  if Managed pa then ask (.dRCount pa) else panic "d_rCount"

def getRCount (pa : Nat) : Vm Nat :=
  if Managed pa then ask (.getRCount pa) else panic "getReferenceCount"

/-- The page number stands for the address of the entry; `none` is the null pointer. -/
def walkpgdir (pgdir va : Nat) (alloc : Bool) : Vm (Option Nat) := do
  let pde ← ask (.pde pgdir (pageOf va / npdEntries))
  match pde with
  | some _ => return some (pageOf va)
  | none =>
    if alloc then
      let pgtab ← kalloc
      match pgtab with
      | none => return none
      | some pa =>
        ask (.setPde pgdir (pageOf va / npdEntries) pa)
        return some (pageOf va)
    else return none

/-- The loop of `mappages`; `a`, `last` and `pa` are page numbers. -/
def mapLoop (pgdir last : Nat) (perm : Perm) : Nat → Nat → Nat → Vm Bool
  | 0, _, _ => .fail .endless
  | n + 1, a, pa => do
    let pte ← walkpgdir pgdir (a * pgSize) true
    match pte with
    | none => return false
    | some v =>
      let old ← ask (.pte pgdir v)
      if old.p then panic "remap"
      else
        ask (.setPte pgdir v (.make pa perm))
        if a = last then return true
        else mapLoop pgdir last perm n ((a + 1) % vaPages) ((pa + 1) % vaPages)

/-- `true` stands for 0 and `false` for -1. The addresses of one round trip through the 32-bit space
    bound the number of rounds. -/
def mappages (pgdir va size pa : Nat) (perm : Perm) : Vm Bool :=
  mapLoop pgdir (pageOf ((va + size + (2 ^ 32 - 1)) % 2 ^ 32)) perm vaPages (pageOf va) pa

def permW : Perm := ⟨true, false⟩
def permWU : Perm := ⟨true, true⟩

/-- The rows of `kmap`: virtual address, first and last physical address, permission. -/
def kmap : List (Nat × Nat × Nat × Perm) :=
  [(kernBase, 0, extMem, permW),
   (kernLink, kernLink - kernBase, KernelImage.data - kernBase, ⟨false, false⟩),
   (KernelImage.data, KernelImage.data - kernBase, physTop, permW),
   (devSpace, devSpace, 0, permW)]

/-- The loop of `deallocuvm` over the pages below `last`. -/
def deallocLoop (pgdir last : Nat) : Nat → Nat → Vm Unit
  | 0, a => if a < last then .fail .endless else return ()
  | n + 1, a =>
    if a < last then do
      let pte ← walkpgdir pgdir (a * pgSize) false
      match pte with
      | none => deallocLoop pgdir last n ((a / npdEntries + 1) * npdEntries)
      | some v =>
        let e ← ask (.pte pgdir v)
        if e.p then
          if e.addr = 0 then panic "kfree"
          else if Managed e.addr then
            ask (.freePte pgdir v e.addr)
            deallocLoop pgdir last n (a + 1)
          else panic "kfree"
        else deallocLoop pgdir last n (a + 1)
    else return ()

def deallocuvm (pgdir oldsz newsz : Nat) : Vm Nat :=
  if oldsz ≤ newsz then return oldsz
  else do
    deallocLoop pgdir (pgRoundUp oldsz) (pgRoundUp oldsz - pgRoundUp newsz) (pgRoundUp newsz)
    return newsz

/-- The second loop of `freevm`, over the directory entries. -/
def freeTables : List (Option Nat) → Vm Unit
  | [] => return ()
  | none :: rest => freeTables rest
  | some pa :: rest => do
    kfree pa
    freeTables rest

/-- The directory is no page table of anybody any more from the second loop on, which only reads it. -/
def freevm (pgdir : Nat) : Vm Unit := do
  let _ ← deallocuvm pgdir kernBase 0
  let pdes ← ask (.retire pgdir)
  freeTables pdes
  kfree pgdir

def mapRows (pgdir : Nat) : List (Nat × Nat × Nat × Perm) → Vm Bool
  | [] => return true
  | (virt, physStart, physEnd, perm) :: rest => do
    let mapped ← mappages pgdir virt ((physEnd + 2 ^ 32 - physStart) % 2 ^ 32) (pageOf physStart) perm
    if mapped then mapRows pgdir rest else return false

/-- `P2V(PHYSTOP) > DEVSPACE` is false for the constants of `memlayout.h`. -/
def setupkvm : Vm (Option Nat) := do
  let page ← kalloc
  match page with
  | none => return none
  | some pgdir =>
    ask (.newPgdir pgdir)
    if kernBase + physTop > devSpace then panic "PHYSTOP too high"
    else
      let mapped ← mapRows pgdir kmap
      if mapped then return some pgdir
      else
        freevm pgdir
        return none

/-- The loop of `allocuvm` with `n` pages to go from page `a`. -/
def allocLoop (pgdir oldsz newsz : Nat) : Nat → Nat → Vm Nat
  | 0, _ => return newsz
  | n + 1, a => do
    let page ← kalloc
    match page with
    | none =>
      let _ ← deallocuvm pgdir newsz oldsz
      return 0
    | some mem =>
      ask (.memset mem 0)
      let mapped ← mappages pgdir (a * pgSize) pgSize mem permWU
      if mapped then allocLoop pgdir oldsz newsz n (a + 1)
      else
        let _ ← deallocuvm pgdir newsz oldsz
        kfree mem
        return 0

def allocuvm (pgdir oldsz newsz : Nat) : Vm Nat :=
  if kernBase ≤ newsz then return 0
  else if newsz < oldsz then return oldsz
  else allocLoop pgdir oldsz newsz (pgRoundUp newsz - pgRoundUp oldsz) (pgRoundUp oldsz)

def clearpteu (pgdir uva : Nat) : Vm Unit := do
  let pte ← walkpgdir pgdir uva false
  match pte with
  | none => panic "clearpteu"
  | some v =>
    let e ← ask (.pte pgdir v)
    ask (.setPte pgdir v { e with u := false })

/-- `sz` is less than a page; nothing looks at whether the page could be had or mapped. -/
def inituvm (pgdir : Nat) (init : List UInt8) : Vm Unit :=
  if pgSize ≤ init.length then panic "inituvm: more than a page"
  else do
    let page ← kalloc
    match page with
    | none => .fail .nullDeref
    | some mem =>
      ask (.memset mem 0)
      let _ ← mappages pgdir 0 pgSize mem permWU
      ask (.store mem 0 init)

/-- The loop of `copyuvm` in the copy-on-write kernel, from page `i` on. -/
def shareLoop (pgdir d : Nat) : Nat → Nat → Vm Bool
  | 0, _ => return true
  | n + 1, i => do
    let pte ← walkpgdir pgdir (i * pgSize) false
    match pte with
    | none => panic "copyuvm: pte should exist"
    | some v =>
      let e ← ask (.pte pgdir v)
      if e.p then
        ask (.setPte pgdir v { e with w := false })
        let mapped ← mappages d (i * pgSize) pgSize e.addr ⟨false, e.u⟩
        if mapped then
          iRCount e.addr
          shareLoop pgdir d n (i + 1)
        else
          freevm d
          return false
      else panic "copyuvm: page not present"

/-- The loop of `copyuvm` in the kernel of the scheduling patch. -/
def copyLoop (pgdir d : Nat) : Nat → Nat → Vm Bool
  | 0, _ => return true
  | n + 1, i => do
    let pte ← walkpgdir pgdir (i * pgSize) false
    match pte with
    | none => panic "copyuvm: pte should exist"
    | some v =>
      let e ← ask (.pte pgdir v)
      if e.p then
        let page ← kalloc
        match page with
        | none =>
          freevm d
          return false
        | some mem =>
          ask (.memmove mem e.addr)
          let mapped ← mappages d (i * pgSize) pgSize mem ⟨e.w, e.u⟩
          if mapped then copyLoop pgdir d n (i + 1)
          else
            kfree mem
            freevm d
            return false
      else panic "copyuvm: page not present"

def copyuvm (κ : Kernel) (pgdir sz : Nat) : Vm (Option Nat) := do
  let new ← setupkvm
  match new with
  | none => return none
  | some d =>
    let copied ← match κ with
      | .cow => shareLoop pgdir d (pgRoundUp sz) 0
      | .eager => copyLoop pgdir d (pgRoundUp sz) 0
    if copied then return some d else return none

/-- `va` is the fault address in `cr2` and `pgdir` the page directory of the current process. The null
    pointer that `walkpgdir` may return is used without a check. -/
def cowFault (pgdir va : Nat) : Vm Unit := do
  let pte ← walkpgdir pgdir va false
  match pte with
  | none => .fail .nullDeref
  | some v =>
    let e ← ask (.pte pgdir v)
    let refCount ← getRCount e.addr
    if refCount < 1 then panic "Error in COW_FAULT: Incorrect Reference Count"
    else if refCount = 1 then
      ask (.setPte pgdir v { e with w := true })
    else
      let page ← kalloc
      match page with
      | some mem =>
        ask (.memmove mem e.addr)
        ask (.setPte pgdir v (.make mem permWU))
        dRCount e.addr
      | none => ask .kill

end Xv6
