import Xv6.Memory.Vm

namespace Xv6

open CommandProgram Program

variable [KernelImage]

/-- `fork` up to the point where the child becomes RUNNABLE: the child's kernel stack and page table. -/
def fork (κ : Kernel) (pgdir sz : Nat) : Vm (Option (Nat × Nat)) := do
  let page ← kalloc
  match page with
  | none => return none
  | some kstack =>
    ask (.keep kstack)
    let new ← copyuvm κ pgdir sz
    match new with
    | some d => return some (kstack, d)
    | none =>
      ask (.unkeep kstack)
      kfree kstack
      return none

def growproc (pgdir sz : Nat) (n : Int) : Vm Bool :=
  let newsz := ((sz + n) % 2 ^ 32).toNat
  if n = 0 then do
    ask (.commit pgdir sz)
    return true
  else do
    let grown ← if 0 < n then allocuvm pgdir sz newsz else deallocuvm pgdir sz newsz
    if grown = 0 then return false
    else
      ask (.commit pgdir grown)
      return true

/-- What `wait` frees of a zombie child. -/
def wait (kstack pgdir : Nat) : Vm Unit := do
  ask (.unkeep kstack)
  kfree kstack
  freevm pgdir

/-- The kernel stack is what `allocproc` allocates; `userinit` does not look whether it got a process. -/
def userinit (init : List UInt8) : Vm Nat := do
  let page ← kalloc
  match page with
  | none => .fail .nullDeref
  | some kstack =>
    ask (.keep kstack)
    let new ← setupkvm
    match new with
    | none => panic "userinit: out of memory?"
    | some pgdir =>
      inituvm pgdir init
      ask (.commit pgdir pgSize)
      return kstack

structure Elfhdr where
  magic : Nat
  phnum : Nat

structure Proghdr where
  type : UInt32
  off : UInt32
  vaddr : UInt32
  filesz : UInt32
  memsz : UInt32

/-- A file as `exec` reads it. A header that `readi` does not get whole is `none`. -/
structure Inode where
  elf : Option Elfhdr
  ph : Nat → Option Proghdr
  content : List UInt8

def elfMagic : Nat := 0x464C457F
def elfProgLoad : UInt32 := 1
def maxArg : Nat := 32

/-- The bytes that `readi` stores. -/
def Inode.readi (ip : Inode) (off n : Nat) : List UInt8 := (ip.content.drop off).take n

/-- The loop of `loaduvm` with `k` pages to go from offset `i` on. -/
def loadLoop (pgdir addr : Nat) (ip : Inode) (offset sz : Nat) : Nat → Nat → Vm Bool
  | 0, _ => return true
  | k + 1, i => do
    let pte ← walkpgdir pgdir (addr + i) false
    match pte with
    | none => panic "loaduvm: address should exist"
    | some v =>
      let e ← ask (.pte pgdir v)
      let n := min (sz - i) pgSize
      let bytes := ip.readi ((offset + i) % 2 ^ 32) n
      ask (.store e.addr 0 bytes)
      if bytes.length = n then loadLoop pgdir addr ip offset sz k (i + pgSize)
      else return false

def loaduvm (pgdir addr : Nat) (ip : Inode) (offset sz : Nat) : Vm Bool :=
  if addr % pgSize ≠ 0 then panic "loaduvm: addr must be page aligned"
  else loadLoop pgdir addr ip offset sz (pgRoundUp sz) 0

/-- `none` stands for the null pointer; `walkpgdir` returning it is not checked. -/
def uva2ka (pgdir uva : Nat) : Vm (Option Nat) := do
  let pte ← walkpgdir pgdir uva false
  match pte with
  | none => .fail .nullDeref
  | some v =>
    let e ← ask (.pte pgdir v)
    if e.p && e.u then return some e.addr else return none

/-- The loop of `copyout` with `k` pages at most to go. -/
def copyout (pgdir : Nat) : Nat → Nat → List UInt8 → Vm Bool
  | 0, _, bytes => if bytes = [] then return true else .fail .endless
  | k + 1, va, bytes =>
    if bytes = [] then return true
    else do
      let page ← uva2ka pgdir (pageOf va * pgSize)
      match page with
      | none => return false
      | some pa0 =>
        let n := min (pgSize - va % pgSize) bytes.length
        ask (.store pa0 (va % pgSize) (bytes.take n))
        copyout pgdir k ((pageOf va + 1) * pgSize % 2 ^ 32) (bytes.drop n)

def word (n : Nat) : List UInt8 :=
  [.ofNat n, .ofNat (n / 2 ^ 8), .ofNat (n / 2 ^ 16), .ofNat (n / 2 ^ 24)]

/-- `sz` after the loop of `exec` over the program headers from `i` on; `none` is `goto bad`. -/
def segments (pgdir : Nat) (ip : Inode) : Nat → Nat → Nat → Vm (Option Nat)
  | 0, _, sz => return some sz
  | k + 1, i, sz =>
    match ip.ph i with
    | none => return none
    | some ph =>
      if ph.type ≠ elfProgLoad then segments pgdir ip k (i + 1) sz
      else if ph.memsz < ph.filesz then return none
      else if ph.vaddr + ph.memsz < ph.vaddr then return none
      else do
        let grown ← allocuvm pgdir sz (ph.vaddr + ph.memsz).toNat
        if grown = 0 then return none
        else if ph.vaddr.toNat % pgSize ≠ 0 then return none
        else
          let loaded ← loaduvm pgdir ph.vaddr.toNat ip ph.off.toNat ph.filesz.toNat
          if loaded then segments pgdir ip k (i + 1) grown else return none

/-- The argument strings go on the stack one after the other. The result is the stack pointer and the
    pointers to them; `none` is `goto bad`. -/
def pushArgs (pgdir : Nat) : List (List UInt8) → Nat → List Nat → Vm (Option (Nat × List Nat))
  | [], sp, pointers => return some (sp, pointers)
  | arg :: rest, sp, pointers =>
    if maxArg ≤ pointers.length then return none
    else do
      let place := (sp + 2 ^ 32 - (arg.length + 1)) % 2 ^ 32 / 4 * 4
      let copied ← copyout pgdir (pgRoundUp arg.length + 2) place (arg ++ [0])
      if copied then pushArgs pgdir rest place (pointers ++ [place]) else return none

def ustack (sp : Nat) (pointers : List Nat) : List UInt8 :=
  ([2 ^ 32 - 1, pointers.length, (sp + 2 ^ 32 - (pointers.length + 1) * 4) % 2 ^ 32] ++ pointers ++ [0]).flatMap word

/-- The new image in page table `pgdir`, and its size. -/
def image (pgdir : Nat) (ip : Inode) (phnum : Nat) (argv : List (List UInt8)) : Vm (Option Nat) := do
  let loaded ← segments pgdir ip phnum 0 0
  match loaded with
  | none => return none
  | some size =>
    let bottom := pgRoundUp size * pgSize
    let sz ← allocuvm pgdir bottom (bottom + 2 * pgSize)
    if sz = 0 then return none
    else
      clearpteu pgdir (sz - 2 * pgSize)
      let pushed ← pushArgs pgdir argv sz []
      match pushed with
      | none => return none
      | some (sp, pointers) =>
        let stack := ustack sp pointers
        let copied ← copyout pgdir 3 ((sp + 2 ^ 32 - stack.length) % 2 ^ 32) stack
        if copied then return some sz else return none

/-- `ip` is the file that `namei` finds. -/
def exec (oldpgdir : Nat) (ip : Option Inode) (argv : List (List UInt8)) : Vm Bool :=
  match ip.bind (fun ip => ip.elf.map (ip, ·)) with
  | none => return false
  | some (ip, elf) =>
    if elf.magic ≠ elfMagic then return false
    else do
      let new ← setupkvm
      match new with
      | none => return false
      | some pgdir =>
        let loaded ← image pgdir ip elf.phnum argv
        match loaded with
        | none =>
          freevm pgdir
          return false
        | some sz =>
          ask (.commit pgdir sz)
          freevm oldpgdir
          return true

/-- A page fault ends in `COW_FAULT` or, in the kernel without, in the default case of `trap`; `user` is the
    privilege level in the trap frame. The result says whether `trap` ends in `exit`. -/
def trap (κ : Kernel) (user : Bool) (pgdir va : Nat) : Vm Bool := do
  match κ with
  | .cow => cowFault pgdir va
  | .eager => if user then ask .kill else panic "trap"
  let killed ← ask .killed
  return killed && user

/-- A read and a write by user code go through the entry that the hardware finds. `none` and `false` stand
    for a page fault. -/
def userRead (pgdir va : Nat) : Vm (Option UInt8) := do
  let e ← ask (.pte pgdir (pageOf va))
  if e.p && e.u then do
    let byte ← ask (.load e.addr (va % pgSize))
    return some byte
  else return none

def userWrite (pgdir va : Nat) (byte : UInt8) : Vm Bool := do
  let e ← ask (.pte pgdir (pageOf va))
  if e.p && e.w && e.u then do
    ask (.store e.addr (va % pgSize) [byte])
    return true
  else return false

/-- How an access by user code ends: done, at once or when it is retried, or with the end of the process,
    or with another fault. -/
inductive Touch where
  | byte (value : UInt8)
  | written
  | exits
  | faults
  deriving DecidableEq

def touchRead (κ : Kernel) (pgdir va : Nat) : Vm Touch := do
  let first ← userRead pgdir va
  match first with
  | some value => return .byte value
  | none =>
    let exits ← trap κ true pgdir va
    if exits then return .exits
    else
      let again ← userRead pgdir va
      match again with
      | some value => return .byte value
      | none => return .faults

def touchWrite (κ : Kernel) (pgdir va : Nat) (byte : UInt8) : Vm Touch := do
  let first ← userWrite pgdir va byte
  if first then return .written
  else
    let exits ← trap κ true pgdir va
    if exits then return .exits
    else
      let again ← userWrite pgdir va byte
      if again then return .written else return .faults

end Xv6
