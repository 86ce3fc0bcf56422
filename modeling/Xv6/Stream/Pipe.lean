import Xv6.Library.Ring
import Xv6.Library.Transition

namespace Xv6.Stream

open Function Ring Transition

abbrev Uint := BitVec 32

def PIPESIZE : Nat := 512

instance : NeZero PIPESIZE := ⟨by decide⟩

/-- `struct pipe`, without its lock -/
structure Pipe where
  data : Fin PIPESIZE → UInt8
  nread : Uint
  nwrite : Uint
  readopen : Bool
  writeopen : Bool

/-- The part of `pipealloc` that sets up the pipe. The page holds anything. -/
def pipealloc (data : Fin PIPESIZE → UInt8) : Pipe := ⟨data, 0, 0, true, true⟩

def pipeclose (p : Pipe) (writable : Bool) : Pipe :=
  if writable then { p with writeopen := false } else { p with readopen := false }

/-- A call of `pipewrite` or `piperead`. -/
inductive Call where
  | write (addr : Nat → UInt8) (n : Int)
  | read (n : Int)

/-- What a process does from where it gets `p->lock` to where it gives it up: it sleeps in a pass of the loop of its call,
or it returns `value`. -/
structure Section where
  pipe : Pipe
  asleep : Option Nat
  value : Int
  stored : List UInt8
  returned : List UInt8

/-- The loop of `pipewrite`, up to a `sleep`. -/
def writeLoop (addr : Nat → UInt8) (n : Int) (killed : Bool) : Nat → Nat → Pipe → Section
  | 0, _, p => ⟨p, none, n, [], []⟩
  | fuel + 1, i, p =>
    if p.nwrite = p.nread + BitVec.ofNat 32 PIPESIZE then
      if p.readopen = false ∨ killed then ⟨p, none, -1, [], []⟩ else ⟨p, some i, 0, [], []⟩
    else
      let rest := writeLoop addr n killed fuel (i + 1)
        { p with data := update p.data (slot PIPESIZE p.nwrite) (addr i), nwrite := p.nwrite + 1 }
      { rest with stored := addr i :: rest.stored }

/-- `pipewrite` from pass `i` on. -/
def pipewrite (p : Pipe) (addr : Nat → UInt8) (n : Int) (i : Nat) (killed : Bool) : Section :=
  writeLoop addr n killed (n.toNat - i) i p

/-- The copy loop of `piperead`. -/
def readLoop : Nat → Pipe → List UInt8 × Pipe
  | 0, p => ([], p)
  | n + 1, p =>
    if p.nread = p.nwrite then ([], p)
    else
      let (bytes, q) := readLoop n { p with nread := p.nread + 1 }
      (p.data (slot PIPESIZE p.nread) :: bytes, q)

def piperead (p : Pipe) (n : Int) (killed : Bool) : Section :=
  if p.nread = p.nwrite ∧ p.writeopen then
    if killed then ⟨p, none, -1, [], []⟩ else ⟨p, some 0, 0, [], []⟩
  else ⟨(readLoop n.toNat p).2, none, (readLoop n.toNat p).1.length, [], (readLoop n.toNat p).1⟩

def Call.run (p : Pipe) (killed : Bool) (i : Nat) : Call → Section
  | .write addr n => pipewrite p addr n i killed
  | .read n => piperead p n killed

/-- A pipe with the processes that sleep in a call on it. -/
structure System (ι : Type) where
  pipe : Pipe
  asleep : ι → Option (Call × Nat)

/-- A process enters a call or goes on with it, its `killed` flag as given; or one end is closed. -/
inductive Act (ι : Type) where
  | enter (t : ι) (call : Call) (killed : Bool)
  | resume (t : ι) (killed : Bool)
  | close (writable : Bool)

namespace Act

variable {ι : Type}

/-- The stretch under `p->lock`. A sleeper may go on at any time, which covers every `wakeup`. -/
def outcome (s : System ι) : Act ι → Option Section
  | enter t call killed => if (s.asleep t).isNone then some (call.run s.pipe killed 0) else none
  | resume t killed => (s.asleep t).map fun (call, i) => call.run s.pipe killed i
  | close writable => some ⟨pipeclose s.pipe writable, none, 0, [], []⟩

variable [DecidableEq ι]

/-- The processes that sleep after a stretch under the lock. -/
def sleepers (s : System ι) (stretch : Section) : Act ι → ι → Option (Call × Nat)
  | enter t call _ => update s.asleep t (stretch.asleep.map fun i => (call, i))
  | resume t _ => update s.asleep t ((s.asleep t).bind fun (call, _) => stretch.asleep.map fun i => (call, i))
  | close _ => s.asleep

/-- The last `pipeclose` frees the pipe. -/
def next (s : System ι) (a : Act ι) : Option (System ι) :=
  if s.pipe.readopen ∨ s.pipe.writeopen then
    (a.outcome s).map fun stretch => { pipe := stretch.pipe, asleep := a.sleepers s stretch }
  else none

def step (s : System ι) (a : Act ι) (s' : System ι) : Prop := a.next s = some s'

end Act

section History

variable {ι : Type}

/-- The bytes that the calls of a run have put into the pipe, in the order of the lock. -/
def stored : List (System ι × Act ι) → List UInt8
  | [] => []
  | (s, a) :: past => stored past ++ ((a.outcome s).map Section.stored).getD []

/-- The bytes that the reads of a run have returned, in order. -/
def returned : List (System ι × Act ι) → List UInt8
  | [] => []
  | (s, a) :: past => returned past ++ ((a.outcome s).map Section.returned).getD []

end History

/-- The pipe holds `l`, from the oldest byte to the latest. -/
structure Pipe.Contains (p : Pipe) (l : List UInt8) : Prop where
  held : Holds p.data p.nread l
  ends : p.nwrite = p.nread + BitVec.ofNat 32 l.length

theorem divides : PIPESIZE ∣ 2 ^ 32 := by decide

theorem small : PIPESIZE < 2 ^ 32 := by decide

namespace Pipe.Contains

variable {p : Pipe} {l : List UInt8} {c : UInt8}

theorem full_iff (held : p.Contains l) : p.nwrite = p.nread + BitVec.ofNat 32 PIPESIZE ↔ l.length = PIPESIZE :=
  held.held.at_end small held.ends (Nat.le_refl _)

theorem empty_iff (held : p.Contains l) : p.nread = p.nwrite ↔ l = [] := held.held.empty_iff small held.ends

theorem store (held : p.Contains l) (room : l.length ≠ PIPESIZE) (c : UInt8) :
    ({ p with data := update p.data (slot PIPESIZE p.nwrite) c, nwrite := p.nwrite + 1 } : Pipe).Contains (l ++ [c]) where
  held := held.held.push divides (Nat.lt_of_le_of_ne held.held.fits room) held.ends c
  ends := by
    dsimp only
    rw [held.ends, List.length_append, List.length_singleton, BitVec.ofNat_add, BitVec.add_assoc]
    rfl

theorem take (held : p.Contains (c :: l)) : ({ p with nread := p.nread + 1 } : Pipe).Contains l where
  held := held.held.pop
  ends := by
    dsimp only
    rw [held.ends, List.length_cons, Nat.add_comm, BitVec.ofNat_add, BitVec.add_assoc]
    rfl

theorem writeLoop {addr : Nat → UInt8} {n : Int} {killed : Bool} {fuel i : Nat} (held : p.Contains l) :
    (writeLoop addr n killed fuel i p).pipe.Contains (l ++ (writeLoop addr n killed fuel i p).stored) ∧
      (Stream.writeLoop addr n killed fuel i p).returned = [] := by
  induction fuel generalizing i p l with
  | zero =>
    rw [Stream.writeLoop, List.append_nil]
    exact ⟨held, rfl⟩
  | succ fuel ih =>
    rw [Stream.writeLoop]
    split
    · split
      · rw [List.append_nil]
        exact ⟨held, rfl⟩
      · rw [List.append_nil]
        exact ⟨held, rfl⟩
    · rename_i room
      have later := ih (i := i + 1) (held.store (fun full => room (held.full_iff.mpr full)) (addr i))
      rw [List.append_assoc] at later
      exact later

theorem readLoop {n : Nat} (held : p.Contains l) :
    ∃ rest, (Stream.readLoop n p).2.Contains rest ∧ (Stream.readLoop n p).1 ++ rest = l ∧
      (0 < n → (Stream.readLoop n p).1 = [] → l = []) := by
  induction n generalizing p l with
  | zero => exact ⟨l, held, rfl, fun positive => absurd positive (Nat.lt_irrefl 0)⟩
  | succ n ih =>
    rw [Stream.readLoop]
    cases l with
    | nil =>
      rw [if_pos (held.empty_iff.mpr rfl)]
      exact ⟨[], held, rfl, fun _ _ => rfl⟩
    | cons c l =>
      rw [if_neg fun same => List.cons_ne_nil c l (held.empty_iff.mp same)]
      obtain ⟨rest, contains, split, -⟩ := ih held.take
      refine ⟨rest, contains, ?_, fun _ none => absurd none (List.cons_ne_nil _ _)⟩
      rw [held.held.head, List.cons_append, split]

theorem run (held : p.Contains l) (call : Call) (killed : Bool) (i : Nat) :
    ∃ rest, (call.run p killed i).pipe.Contains rest ∧
      (call.run p killed i).returned ++ rest = l ++ (call.run p killed i).stored := by
  cases call with
  | write addr n =>
    have stretch : (pipewrite p addr n i killed).pipe.Contains (l ++ (pipewrite p addr n i killed).stored) ∧
        (pipewrite p addr n i killed).returned = [] := held.writeLoop
    refine ⟨_, stretch.1, ?_⟩
    rw [Call.run, stretch.2, List.nil_append]
  | read n =>
    rw [Call.run, piperead]
    split
    · split
      · exact ⟨l, held, (List.append_nil l).symm⟩
      · exact ⟨l, held, (List.append_nil l).symm⟩
    · obtain ⟨rest, contains, split, -⟩ := held.readLoop (n := n.toNat)
      refine ⟨rest, contains, ?_⟩
      rw [List.append_nil]
      exact split

/-- One stretch under the lock puts bytes behind the others or takes the oldest away. -/
theorem outcome {ι : Type} {s : System ι} (held : s.pipe.Contains l) {a : Act ι} {stretch : Section}
    (ran : a.outcome s = some stretch) :
    ∃ rest, stretch.pipe.Contains rest ∧ stretch.returned ++ rest = l ++ stretch.stored := by
  cases a with
  | enter t call killed =>
    obtain ⟨-, eq⟩ := Option.ite_none_right_eq_some.mp ran
    cases eq
    exact held.run call killed 0
  | resume t killed =>
    obtain ⟨⟨call, i⟩, -, eq⟩ := Option.map_eq_some_iff.mp ran
    cases eq
    exact held.run call killed i
  | close writable =>
    cases ran
    refine ⟨l, ?_, (List.append_nil l).symm⟩
    dsimp only
    rw [pipeclose]
    split
    · exact ⟨held.held, held.ends⟩
    · exact ⟨held.held, held.ends⟩

theorem read_zero {n : Int} {killed : Bool} (held : p.Contains l) (positive : 0 < n)
    (returns : (piperead p n killed).asleep = none) (zero : (piperead p n killed).value = 0) :
    p.writeopen = false ∧ l = [] := by
  rw [piperead] at returns zero
  split at returns
  · split at returns
    · rename_i waits dead
      rw [if_pos waits, if_pos dead] at zero
      cases zero
    · cases returns
  · rename_i goes
    rw [if_neg goes] at zero
    obtain ⟨rest, -, -, drained⟩ := held.readLoop (n := n.toNat)
    have none : l = [] := drained (by omega) (List.length_eq_zero_iff.mp (Int.ofNat_eq_zero.mp zero))
    constructor
    · simpa [held.empty_iff, none] using goes
    · exact none

end Pipe.Contains

variable {ι : Type} [DecidableEq ι]

theorem contains_run {data : Fin PIPESIZE → UInt8} {past : List (System ι × Act ι)} {s : System ι}
    (path : Path Act.step ⟨pipealloc data, fun _ => none⟩ past s) :
    ∃ l, s.pipe.Contains l ∧ returned past ++ l = stored past := by
  induction path with
  | nil => exact ⟨[], ⟨.nil, rfl⟩, rfl⟩
  | @snoc past s s' a _ taken ih =>
    obtain ⟨l, held, eq⟩ := ih
    obtain ⟨-, taken⟩ := Option.ite_none_right_eq_some.mp taken
    obtain ⟨stretch, ran, rfl⟩ := Option.map_eq_some_iff.mp taken
    obtain ⟨rest, contains, split⟩ := held.outcome ran
    refine ⟨rest, contains, ?_⟩
    rw [returned, stored, ran, List.append_assoc]
    show returned past ++ (stretch.returned ++ rest) = stored past ++ stretch.stored
    rw [split, ← List.append_assoc, eq]

/-- Between the stretches under the lock the pipe holds what was stored and not returned yet, at the indices from `nread`
to `nwrite`, and a read of something returns 0 only after the end of a closed write side. -/
theorem pipes_are_fifos {data : Fin PIPESIZE → UInt8} {past : List (System ι × Act ι)} {s : System ι}
    (path : Path Act.step ⟨pipealloc data, fun _ => none⟩ past s) :
    (s.pipe.nwrite - s.pipe.nread).toNat ≤ PIPESIZE ∧
    returned past <+: stored past ∧
    (∃ contents, returned past ++ contents = stored past ∧ contents.length = (s.pipe.nwrite - s.pipe.nread).toNat ∧
      ∀ i (inside : i < contents.length),
        s.pipe.data (slot PIPESIZE (s.pipe.nread + BitVec.ofNat 32 i)) = contents[i]) ∧
    ∀ n killed, 0 < n → (piperead s.pipe n killed).asleep = none → (piperead s.pipe n killed).value = 0 →
      s.pipe.writeopen = false ∧ returned past = stored past := by
  obtain ⟨l, held, eq⟩ := contains_run path
  have far := held.held.distance small held.ends
  refine ⟨?_, ⟨l, eq⟩, ⟨l, eq, far.symm, held.held.cells⟩, ?_⟩
  · rw [far]
    exact held.held.fits
  · intro n killed positive returns zero
    obtain ⟨closed, none⟩ := held.read_zero positive returns zero
    rw [none, List.append_nil] at eq
    exact ⟨closed, eq⟩

/-- A write sleeps on a full pipe and goes on after a read. -/
theorem pipes_are_fifos_of_long_write : ∃ past s,
    Path (Act.step (ι := Bool)) ⟨pipealloc fun _ => 0, fun _ => none⟩ past s ∧
      (returned past).length = 100 ∧ (s.pipe.nwrite - s.pipe.nread).toNat = 500 ∧ returned past <+: stored past := by
  obtain ⟨past, s, path, test⟩ := replay_reaches (Act.next (ι := Bool)) ⟨pipealloc fun _ => 0, fun _ => none⟩
    [.enter true (.write (fun i => UInt8.ofNat i) 600) false, .enter false (.read 100) false, .resume true false]
    (fun past s => decide ((returned past).length = 100 ∧ (s.pipe.nwrite - s.pipe.nread).toNat = 500))
    (by decide +kernel)
  have facts := of_decide_eq_true test
  exact ⟨past, s, path, facts.1, facts.2, (pipes_are_fifos path).2.1⟩

end Xv6.Stream
