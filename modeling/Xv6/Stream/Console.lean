import Xv6.Library.Ring
import Xv6.Library.Transition

namespace Xv6.Stream

open Function Ring Transition

def INPUT_BUF : Nat := 128

instance : NeZero INPUT_BUF := ⟨by decide⟩

/-- `input`, with its read, write and edit index -/
structure Input where
  buf : Fin INPUT_BUF → UInt8
  r : BitVec 32
  w : BitVec 32
  e : BitVec 32

def C (x : Char) : UInt8 := UInt8.ofNat x.toNat - 64

def newline : UInt8 := 10

namespace Input

/-- Kill line. Each pass takes a character back, so `e - w` passes are enough. -/
def killLine : Nat → Input → Input
  | 0, input => input
  | fuel + 1, input =>
    if input.e ≠ input.w ∧ input.buf (slot INPUT_BUF (input.e - 1)) ≠ newline then killLine fuel { input with e := input.e - 1 }
    else input

/-- The default case of `consoleintr`. -/
def put (input : Input) (c : UInt8) : Input :=
  if c ≠ 0 ∧ (input.e - input.r).toNat < INPUT_BUF then
    let c := if c = 13 then newline else c
    let input := { input with buf := update input.buf (slot INPUT_BUF input.e) c, e := input.e + 1 }
    if c = newline ∨ c = C 'D' ∨ input.e = input.r + BitVec.ofNat 32 INPUT_BUF then { input with w := input.e } else input
  else input

/-- One pass of the loop of `consoleintr`. -/
def key (input : Input) (c : UInt8) : Input :=
  if c = C 'P' then input
  else if c = C 'U' then killLine (input.e - input.w).toNat input
  else if c = C 'H' ∨ c = 127 then if input.e ≠ input.w then { input with e := input.e - 1 } else input
  else put input c

end Input

/-- The characters that `getc` has ready. -/
def consoleintr (input : Input) (chars : List UInt8) : Input := chars.foldl Input.key input

/-- What a reader does from where it gets `cons.lock` to where it gives it up: it sleeps with a number of bytes to go or
returns `value`. It puts `delivered` into its buffer. `taken` has a ^D as well, except for one that it puts back. -/
structure Reading where
  input : Input
  asleep : Option Nat
  value : Int
  taken : List UInt8
  delivered : List UInt8

/-- `consoleread` with `n` bytes to go. -/
def consoleread (killed : Bool) (target : Nat) : Nat → Input → Reading
  | 0, input => ⟨input, none, target, [], []⟩
  | n + 1, input =>
    if input.r = input.w then if killed then ⟨input, none, -1, [], []⟩ else ⟨input, some (n + 1), 0, [], []⟩
    else
      let c := input.buf (slot INPUT_BUF input.r)
      let next := { input with r := input.r + 1 }
      if c = C 'D' then
        if n + 1 < target then ⟨{ next with r := next.r - 1 }, none, target - (n + 1 : Nat), [], []⟩
        else ⟨next, none, target - (n + 1 : Nat), [c], []⟩
      else if c = newline then ⟨next, none, target - n, [c], [c]⟩
      else
        let rest := consoleread killed target n next
        { rest with taken := c :: rest.taken, delivered := c :: rest.delivered }

/-- The console with its sleeping readers: what they asked for and what is to go. -/
structure Console (ι : Type) where
  input : Input
  asleep : ι → Option (Nat × Nat)

/-- An interrupt, or a reader that enters `consoleread` or goes on in it. -/
inductive Event (ι : Type) where
  | consoleintr (chars : List UInt8)
  | enter (t : ι) (n : Int) (killed : Bool)
  | resume (t : ι) (killed : Bool)

namespace Event

variable {ι : Type}

/-- The stretch of a reader under `cons.lock`. It may go on at any time, which covers every `wakeup`. -/
def reading (s : Console ι) : Event ι → Option Reading
  | consoleintr _ => none
  | enter t n killed => if (s.asleep t).isNone then some (consoleread killed n.toNat n.toNat s.input) else none
  | resume t killed => (s.asleep t).map fun (target, n) => consoleread killed target n s.input

variable [DecidableEq ι]

def next (s : Console ι) (a : Event ι) : Option (Console ι) :=
  match a with
  | consoleintr chars => some { s with input := Stream.consoleintr s.input chars }
  | enter t n _ => (a.reading s).map fun reading =>
    { input := reading.input, asleep := update s.asleep t (reading.asleep.map fun left => (n.toNat, left)) }
  | resume t _ => (a.reading s).map fun reading =>
    { input := reading.input
      asleep := update s.asleep t ((s.asleep t).bind fun (target, _) => reading.asleep.map fun left => (target, left)) }

def step (s : Console ι) (a : Event ι) (s' : Console ι) : Prop := a.next s = some s'

end Event

/-- What the line discipline accepts. A character fills the ring up or not. -/
inductive Key where
  | type (c : UInt8) (full : Bool)
  | erase
  | kill

/-- The lines that are committed so far, one after the other, and the one that is edited. -/
structure Lines where
  committed : List UInt8
  line : List UInt8

def Lines.edit (l : Lines) : Key → Lines
  | .type c full =>
    if c = newline ∨ c = C 'D' ∨ full then ⟨l.committed ++ (l.line ++ [c]), []⟩ else ⟨l.committed, l.line ++ [c]⟩
  | .erase => ⟨l.committed, l.line.dropLast⟩
  | .kill => ⟨l.committed, []⟩

def Input.accepts (input : Input) (c : UInt8) : Option Key :=
  if c = C 'P' then none
  else if c = C 'U' then some .kill
  else if c = C 'H' ∨ c = 127 then some .erase
  else if c ≠ 0 ∧ (input.e - input.r).toNat < INPUT_BUF then
    some (.type (if c = 13 then newline else c) (decide (input.e + 1 = input.r + BitVec.ofNat 32 INPUT_BUF)))
  else none

def Input.keys (input : Input) : List UInt8 → List Key
  | [] => []
  | c :: chars => (input.accepts c).toList ++ (input.key c).keys chars

section History

variable {ι : Type}

def keys : List (Console ι × Event ι) → List Key
  | [] => []
  | (s, .consoleintr chars) :: past => keys past ++ s.input.keys chars
  | _ :: past => keys past

def edited (past : List (Console ι × Event ι)) : Lines := (keys past).foldl Lines.edit ⟨[], []⟩

/-- The bytes that readers have taken off the ring in a run. -/
def taken : List (Console ι × Event ι) → List UInt8
  | [] => []
  | (s, a) :: past => taken past ++ ((a.reading s).map Reading.taken).getD []

/-- The bytes that reads have delivered in a run, in order. -/
def delivered : List (Console ι × Event ι) → List UInt8
  | [] => []
  | (s, a) :: past => delivered past ++ ((a.reading s).map Reading.delivered).getD []

end History

end Xv6.Stream
