import Mathlib.Logic.Function.Basic
import Mathlib.Algebra.Ring.Nat

namespace Xv6.Umalloc

open Function

def KERNBASE : Nat := 0x80000000

/-- `union header`. Blocks and their sizes are in units of 8 bytes, each of which can be a header. -/
structure Header where
  ptr : Nat
  size : Nat
  deriving DecidableEq

structure Heap where
  mem : Nat → Header
  freep : Nat
  brk : Nat

/-- The address `n` units behind `p`. -/
def plus (p n : Nat) : Nat := (p + 8 * n) % 2 ^ 32

namespace Heap

def ptr (h : Heap) (p : Nat) : Nat := (h.mem p).ptr

def size (h : Heap) (p : Nat) : Nat := (h.mem p).size

def setPtr (h : Heap) (p q : Nat) : Heap := { h with mem := update h.mem p { h.mem p with ptr := q } }

def setSize (h : Heap) (p n : Nat) : Heap := { h with mem := update h.mem p { h.mem p with size := n } }

/-- The loop of `free`: the block to link `bp` to. -/
def freeLoop (h : Heap) (bp : Nat) : Nat → Nat → Option Nat
  | 0, _ => none
  | fuel + 1, p =>
    if p < bp ∧ bp < h.ptr p then some p
    else if h.ptr p ≤ p ∧ (p < bp ∨ bp < h.ptr p) then some p
    else h.freeLoop bp fuel (h.ptr p)

/-- `bp` gets the link of `p`, and the block behind it if that is the next one. -/
def joinNext (h : Heap) (bp p : Nat) : Heap :=
  if plus bp (h.size bp) = h.ptr p then
    let h := h.setSize bp ((h.size bp + h.size (h.ptr p)) % 2 ^ 32)
    h.setPtr bp (h.ptr (h.ptr p))
  else h.setPtr bp (h.ptr p)

/-- `p` is linked to `bp`, or becomes one block with it. -/
def joinPrev (h : Heap) (bp p : Nat) : Heap :=
  if plus p (h.size p) = bp then
    let h := h.setSize p ((h.size p + h.size bp) % 2 ^ 32)
    h.setPtr p (h.ptr bp)
  else h.setPtr p bp

/-- `free`, if its loop ends: there are fewer blocks than bytes. -/
def free (h : Heap) (ap : Nat) : Option Heap :=
  let bp := ap - 8
  (h.freeLoop bp (h.brk + 1) h.freep).map fun p => { (h.joinNext bp p).joinPrev bp p with freep := p }

/-- The kernel has memory, where it likes, and below its own. -/
def Gives (grant : Nat → Bool) (h : Heap) (n : Nat) : Prop := grant h.brk ∧ h.brk + n < KERNBASE

instance (grant : Nat → Bool) (h : Heap) (n : Nat) : Decidable (h.Gives grant n) :=
  inferInstanceAs (Decidable (grant h.brk ∧ h.brk + n < KERNBASE))

/-- The system call takes the amount as a signed number. A negative one makes the process smaller, if the new size is less,
and a new size of zero is the end of it. -/
def sbrk (grant : Nat → Bool) (h : Heap) (n : Nat) : Option (Option Nat × Heap) :=
  if n = 0 then some (some h.brk, h)
  else if n < 2 ^ 31 then
    some (if h.Gives grant n then (some h.brk, { h with brk := h.brk + n }) else (none, h))
  else
    let sz := (h.brk + n) % 2 ^ 32
    if h.brk ≤ sz then some (some h.brk, h)
    else if sz = 0 then none
    else some (some h.brk, { h with brk := sz })

/-- The units that `morecore` asks for. -/
def amount (nu : Nat) : Nat := if nu < 4096 then 4096 else nu

/-- `morecore`, if its header does not fall behind the last page of the process. -/
def morecore (grant : Nat → Bool) (h : Heap) (nu : Nat) : Option (Option Nat × Heap) :=
  (h.sbrk grant (amount nu * 8 % 2 ^ 32)).bind fun (p, h) =>
    match p with
    | none => some (none, h)
    | some p =>
      if p < (h.brk + 4095) / 4096 * 4096 then
        ((h.setSize p (amount nu)).free (plus p 1)).map fun h => (some h.freep, h)
      else none

/-- The last lines of `malloc`: the block `p` behind `prevp` is taken, or its end. -/
def take (h : Heap) (nunits prevp p : Nat) : Nat × Heap :=
  if h.size p = nunits then (plus p 1, { h.setPtr prevp (h.ptr p) with freep := prevp })
  else
    let h := h.setSize p (h.size p - nunits)
    let p := plus p (h.size p)
    (plus p 1, { h.setSize p nunits with freep := prevp })

/-- The loop of `malloc`. -/
def mallocLoop (grant : Nat → Bool) (nunits : Nat) : Nat → Heap → Nat → Nat → Option (Option Nat × Heap)
  | 0, _, _, _ => none
  | fuel + 1, h, prevp, p =>
    if nunits ≤ h.size p then
      let (ap, h) := h.take nunits prevp p
      some (some ap, h)
    else if p = h.freep then
      (h.morecore grant nunits).bind fun (p, h) =>
        match p with
        | none => some (none, h)
        | some p => mallocLoop grant nunits fuel h p (h.ptr p)
    else mallocLoop grant nunits fuel h p (h.ptr p)

/-- What `morecore` asks for in the loop of `malloc`. -/
def requests (grant : Nat → Bool) (nunits : Nat) : Nat → Heap → Nat → List Nat
  | 0, _, _ => []
  | fuel + 1, h, p =>
    if nunits ≤ h.size p then []
    else if p = h.freep then
      match h.morecore grant nunits with
      | some (some p, h) => amount nunits :: requests grant nunits fuel h (h.ptr p)
      | _ => [amount nunits]
    else requests grant nunits fuel h (h.ptr p)

/-- The units for a request: its bytes, rounded up, and a header. -/
def nunits (nbytes : Nat) : Nat := (nbytes + 7) % 2 ^ 32 / 8 + 1

def ready (base : Nat) (h : Heap) : Heap :=
  if h.freep = 0 then { h with mem := update h.mem base ⟨base, 0⟩, freep := base } else h

/-- `malloc`, if its loops end. `base` is the address of the list's first header. -/
def malloc (base : Nat) (grant : Nat → Bool) (h : Heap) (nbytes : Nat) : Option (Option Nat × Heap) :=
  let h := if h.freep = 0 then { h with mem := update h.mem base ⟨base, 0⟩, freep := base } else h
  h.mallocLoop grant (nunits nbytes) (2 * h.brk + 2) h.freep (h.ptr h.freep)

/-- What `malloc` asks for, in units. -/
def asked (base : Nat) (grant : Nat → Bool) (h : Heap) (nbytes : Nat) : List Nat :=
  let h := h.ready base
  requests grant (nunits nbytes) (2 * h.brk + 2) h (h.ptr h.freep)

end Heap

/-- The heap, and the blocks the program has: what `malloc` returned for them, and the bytes it was asked for. -/
structure State where
  heap : Heap
  live : List (Nat × Nat)

inductive Event where
  | malloc (nbytes : Nat) (grant : Nat → Bool)
  | free (ap : Nat)
  | store (p : Nat) (v : Header)

namespace Event

/-- What the program does. A call that does not return has no result. -/
def run (base : Nat) (s : State) : Event → Option State
  | malloc nbytes grant => (s.heap.malloc base grant nbytes).map fun (r, h) =>
    match r with
    | some ap => ⟨h, (ap, nbytes) :: s.live⟩
    | none => ⟨h, s.live⟩
  | free ap => (s.heap.free ap).map fun h => ⟨h, s.live.eraseP fun x => x.1 = ap⟩
  | store p v => some { s with heap := { s.heap with mem := update s.heap.mem p v } }

/-- Requests are not too large, only live blocks are freed, and the program writes to nothing but the bytes it asked for. -/
def Allowed (s : State) : Event → Prop
  | malloc nbytes _ => nbytes < 2 ^ 28
  | free ap => ∃ x ∈ s.live, x.1 = ap
  | store p _ => ∃ x ∈ s.live, x.1 ≤ p ∧ p < x.1 + x.2 ∧ 8 ∣ p - x.1

instance (s : State) : (e : Event) → Decidable (e.Allowed s)
  | malloc nbytes _ => inferInstanceAs (Decidable (nbytes < 2 ^ 28))
  | free ap => inferInstanceAs (Decidable (∃ x ∈ s.live, x.1 = ap))
  | store p _ => inferInstanceAs (Decidable (∃ x ∈ s.live, x.1 ≤ p ∧ p < x.1 + x.2 ∧ 8 ∣ p - x.1))

def next (base : Nat) (s : State) (e : Event) : Option State := if e.Allowed s then e.run base s else none

def step (base : Nat) (s : State) (e : Event) (s' : State) : Prop := e.next base s = some s'

end Event

/-- Where the linker has put `base`, and where the heap begins. -/
structure Program where
  base : Nat
  brk : Nat
  data : 0 < base
  above : base + 8 ≤ brk
  user : brk < KERNBASE

/-- A program begins with a heap of no bytes, and with anything in its memory. -/
def start (program : Program) (mem : Nat → Header) : State := ⟨⟨mem, 0, program.brk⟩, []⟩

end Xv6.Umalloc
