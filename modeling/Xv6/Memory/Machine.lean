import Xv6.Library.Program
import Xv6.Memory.PageTable

namespace Xv6

open CommandProgram Function

abbrev Page := Nat → UInt8

/-- The allocator of `kalloc.c`. Pages are named by their page number. -/
structure Kmem where
  freelist : List Nat
  free_pages : Nat
  page_rCount : Nat → Nat

/-- What all CPUs see: the allocator and the bytes of every physical page. -/
structure Shared where
  kmem : Kmem
  ram : Nat → Page

/-- What only the kernel thread of one process touches: its fields of `struct proc`, the page tables it
    is responsible for, by the page number of their directories, and the pages it keeps as kernel memory. -/
structure Proc where
  kstack : Nat
  pgdir : Nat
  sz : Nat
  killed : Bool
  dirs : Nat → Option PgDir
  kpages : List Nat

/-- The two kernels of the repository, which differ in `kalloc.c` and in `copyuvm`. -/
inductive Kernel where
  | cow
  | eager
  deriving DecidableEq

/-- How a run of the kernel can end beside returning. -/
inductive Halt where
  | panic (message : String)
  | nullDeref
  | endless
  deriving DecidableEq

/-- The steps between which other CPUs may run. Each critical section of `kmem.lock` and each access to
    a page table or to a physical page is one command. -/
inductive Cmd where
  | kalloc
  | kfree (pa : Nat)
  | iRCount (pa : Nat)
  | dRCount (pa : Nat)
  | getRCount (pa : Nat)
  | memset (pa : Nat) (byte : UInt8)
  | memmove (dst src : Nat)
  | store (pa off : Nat) (bytes : List UInt8)
  | load (pa off : Nat)
  | newPgdir (pa : Nat)
  | pde (pgdir i : Nat)
  | setPde (pgdir i pa : Nat)
  | pte (pgdir v : Nat)
  | setPte (pgdir v : Nat) (e : Pte)
  | freePte (pgdir v pa : Nat)
  | retire (pgdir : Nat)
  | keep (pa : Nat)
  | unkeep (pa : Nat)
  | commit (pgdir sz : Nat)
  | killed
  | kill

abbrev sig : Signature where
  Cmd := Cmd
  Resp
    | .kalloc => Option Nat
    | .getRCount _ => Nat
    | .load _ _ => UInt8
    | .killed => Bool
    | .pde _ _ => Option Nat
    | .pte _ _ => Pte
    | .retire _ => List (Option Nat)
    | _ => Unit

abbrev Vm := Program sig Halt

def ask (command : Cmd) : Vm (sig.Resp command) := @Program.issue sig Halt command

namespace Shared

/-- The critical section of `kalloc`. -/
def kalloc (κ : Kernel) (s : Shared) : Option Nat × Shared :=
  match s.kmem.freelist with
  | [] => (none, s)
  | r :: next =>
    match κ with
    | .cow => (some r, { s with kmem :=
        { freelist := next
          free_pages := s.kmem.free_pages - 1
          page_rCount := update s.kmem.page_rCount r 1 } })
    | .eager => (some r, { s with kmem := { s.kmem with freelist := next } })

def junk : Page := fun _ => 1

/-- The critical section of `kfree`. -/
def kfree (κ : Kernel) (s : Shared) (pa : Nat) : Shared :=
  match κ with
  | .cow =>
    let count :=
      if 0 < s.kmem.page_rCount pa then update s.kmem.page_rCount pa (s.kmem.page_rCount pa - 1)
      else s.kmem.page_rCount
    if count pa = 0 then
      { kmem :=
          { freelist := pa :: s.kmem.freelist
            free_pages := s.kmem.free_pages + 1
            page_rCount := count }
        ram := update s.ram pa junk }
    else { s with kmem := { s.kmem with page_rCount := count } }
  | .eager =>
    { kmem := { s.kmem with freelist := pa :: s.kmem.freelist }, ram := update s.ram pa junk }

/-- A page has fewer than 2^32 entries pointing at it, so the count going up does not wrap. -/
def iRCount (s : Shared) (pa : Nat) : Shared :=
  { s with kmem := { s.kmem with page_rCount := update s.kmem.page_rCount pa (s.kmem.page_rCount pa + 1) } }

def dRCount (s : Shared) (pa : Nat) : Shared :=
  let count := if s.kmem.page_rCount pa = 0 then 2 ^ 32 - 1 else s.kmem.page_rCount pa - 1
  { s with kmem := { s.kmem with page_rCount := update s.kmem.page_rCount pa count } }

/-- What the system call `getfreepages` answers. -/
def num_of_FreePages (s : Shared) : Nat := s.kmem.free_pages

def setPage (s : Shared) (pa : Nat) (page : Page) : Shared := { s with ram := update s.ram pa page }

end Shared

/-- `page` with `bytes` from offset `off` on. -/
def Page.store (page : Page) (off : Nat) (bytes : List UInt8) : Page :=
  fun i => if off ≤ i ∧ i < off + bytes.length then bytes.getD (i - off) 0 else page i

namespace Proc

/-- Page directory `pgdir`, empty if the process has none there. -/
def dir (p : Proc) (pgdir : Nat) : PgDir := (p.dirs pgdir).getD .empty

def setDir (p : Proc) (pgdir : Nat) (x : PgDir) : Proc := { p with dirs := update p.dirs pgdir (some x) }

def dropDir (p : Proc) (pgdir : Nat) : Proc := { p with dirs := update p.dirs pgdir none }

end Proc

/-- One command of the kernel `κ`, issued by the kernel thread of the process in the second component. -/
def execute (κ : Kernel) : Program.Semantics sig (Shared × Proc)
  | .kalloc, (s, p) => ((s.kalloc κ).1, ((s.kalloc κ).2, p))
  | .kfree pa, (s, p) => ((), (s.kfree κ pa, p))
  | .iRCount pa, (s, p) => ((), (s.iRCount pa, p))
  | .dRCount pa, (s, p) => ((), (s.dRCount pa, p))
  | .getRCount pa, (s, p) => (s.kmem.page_rCount pa, (s, p))
  | .memset pa byte, (s, p) => ((), (s.setPage pa (fun _ => byte), p))
  | .memmove dst src, (s, p) => ((), (s.setPage dst (s.ram src), p))
  | .store pa off bytes, (s, p) => ((), (s.setPage pa ((s.ram pa).store off bytes), p))
  | .load pa off, (s, p) => (s.ram pa off, (s, p))
  | .newPgdir pa, (s, p) => ((), (s, p.setDir pa .empty))
  | .pde pgdir i, (s, p) => ((p.dir pgdir).pde i, (s, p))
  | .setPde pgdir i pa, (s, p) => ((), (s, p.setDir pgdir ((p.dir pgdir).setPde i pa)))
  | .pte pgdir v, (s, p) => ((p.dir pgdir).pte v, (s, p))
  | .setPte pgdir v e, (s, p) => ((), (s, p.setDir pgdir ((p.dir pgdir).setPte v e)))
  | .freePte pgdir v pa, (s, p) =>
    ((), (s.kfree κ pa, p.setDir pgdir ((p.dir pgdir).setPte v .zero)))
  | .retire pgdir, (s, p) =>
    ((List.range npdEntries).map (p.dir pgdir).pde, (s, p.dropDir pgdir))
  | .keep pa, (s, p) => ((), (s, { p with kpages := pa :: p.kpages }))
  | .unkeep pa, (s, p) => ((), (s, { p with kpages := p.kpages.erase pa }))
  | .commit pgdir sz, (s, p) => ((), (s, { p with pgdir := pgdir, sz := sz }))
  | .killed, (s, p) => (p.killed, (s, p))
  | .kill, (s, p) => ((), (s, { p with killed := true }))

end Xv6
