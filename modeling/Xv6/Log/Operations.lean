import Xv6.Library.Transition
import Xv6.Log.Disk

namespace Xv6.Log

open Function Transition

def MAXOPBLOCKS : Nat := 10

def LOGSIZE : Nat := MAXOPBLOCKS * 3

/-- Where the committing process is in `end_op` and `commit`. -/
inductive Stage where
  | check
  | writeLog (tail : Nat)
  | writeHead
  | install (tail : Nat)
  | clear
  | eraseHead
  | done
  deriving DecidableEq

/-- Where a process is. `logged` are the blocks that its operation has logged, each once. -/
inductive Pc where
  | out
  | asleep
  | woken
  | inside (logged : List Nat)
  | tested (logged : List Nat) (blockno : Nat)
  | commit (stage : Stage)
  deriving DecidableEq

/-- `struct log`: `block` holds the first `lh.n` entries of `lh.block`. -/
structure State where
  outstanding : Int
  committing : Bool
  block : List Nat
  pc : Nat → Pc
  panicked : Option String

/-- A critical section of `log.lock`, the tests of `log_write` before it, or a step of `commit`. -/
inductive Action where
  | beginOp (p : Nat)
  | logWrite (p blockno : Nat)
  | append (p : Nat)
  | endOp (p : Nat)
  | commit (p : Nat)
  deriving DecidableEq

/-- The loop of `log_write`: an entry is found or added. -/
def absorb : List Nat → Nat → List Nat
  | [], blockno => [blockno]
  | b :: block, blockno => if b = blockno then b :: block else b :: absorb block blockno

namespace State

variable (s : State)

/-- `log.lh.n` -/
def n : Nat := s.block.length

def move (p : Nat) (pc : Pc) : State := { s with pc := update s.pc p pc }

/-- `wakeup(&log)` -/
def wakeup : State := { s with pc := fun p => if s.pc p = .asleep then .woken else s.pc p }

def start : State := ⟨0, false, [], fun _ => .out, none⟩

end State

namespace Layout

variable (l : Layout) (s : State)

def beginOp (p : Nat) : State :=
  if s.committing then s.move p .asleep
  else if s.n + (s.outstanding + 1) * MAXOPBLOCKS > LOGSIZE then s.move p .asleep
  else { s.move p (.inside []) with outstanding := s.outstanding + 1 }

def logWrite (p : Nat) (logged : List Nat) (blockno : Nat) : State :=
  if s.n ≥ LOGSIZE ∨ (s.n : Int) ≥ l.size - 1 then { s with panicked := some "too big a transaction" }
  else if s.outstanding < 1 then { s with panicked := some "log_write outside of trans" }
  else s.move p (.tested logged blockno)

def endOp (p : Nat) : State :=
  let s := { s with outstanding := s.outstanding - 1 }
  if s.committing then { s with panicked := some "log.committing" }
  else if s.outstanding = 0 then { s.move p (.commit .check) with committing := true }
  else (s.move p .out).wakeup

/-- One step of `commit` and of what follows it in `end_op`. -/
def commitStep (p : Nat) : Stage → State
  | .check => s.move p (.commit (if s.n > 0 then .writeLog 0 else .done))
  | .writeLog tail => s.move p (.commit (if tail < s.n then .writeLog (tail + 1) else .writeHead))
  | .writeHead => s.move p (.commit (.install 0))
  | .install tail => s.move p (.commit (if tail < s.n then .install (tail + 1) else .clear))
  | .clear => { s.move p (.commit .eraseHead) with block := [] }
  | .eraseHead => s.move p (.commit .done)
  | .done => { (s.move p .out).wakeup with committing := false }

def act : Action → Option State
  | .beginOp p =>
    match s.pc p with
    | .out | .woken => some (beginOp s p)
    | _ => none
  | .logWrite p blockno =>
    match s.pc p with
    | .inside logged => some (l.logWrite s p logged blockno)
    | _ => none
  | .append p =>
    match s.pc p with
    | .tested logged blockno =>
      some { s.move p (.inside (logged.insert blockno)) with block := absorb s.block blockno }
    | _ => none
  | .endOp p =>
    match s.pc p with
    | .inside _ => some (endOp s p)
    | _ => none
  | .commit p =>
    match s.pc p with
    | .commit stage => some (commitStep s p stage)
    | _ => none

def step (a : Action) : Option State := if s.panicked = none then l.act s a else none

def Takes (s : State) (a : Action) (s' : State) : Prop := l.step s a = some s'

end Layout

inductive Step (l : Layout) (s : State) : Action → State → Prop
  | wait (p : Nat) (outside : s.pc p = .out ∨ s.pc p = .woken) : Step l s (.beginOp p) (s.move p .asleep)
  | begin (p : Nat) (outside : s.pc p = .out ∨ s.pc p = .woken) (free : s.committing = false)
    (room : s.n + (s.outstanding + 1) * MAXOPBLOCKS ≤ LOGSIZE) :
    Step l s (.beginOp p) { s.move p (.inside []) with outstanding := s.outstanding + 1 }
  | tooBig (p blockno : Nat) (logged : List Nat) (at_p : s.pc p = .inside logged)
    (full : s.n ≥ LOGSIZE ∨ (s.n : Int) ≥ l.size - 1) :
    Step l s (.logWrite p blockno) { s with panicked := some "too big a transaction" }
  | alone (p blockno : Nat) (logged : List Nat) (at_p : s.pc p = .inside logged) (none : s.outstanding < 1) :
    Step l s (.logWrite p blockno) { s with panicked := some "log_write outside of trans" }
  | logWrite (p blockno : Nat) (logged : List Nat) (at_p : s.pc p = .inside logged) (room : s.n < LOGSIZE)
    (fits : (s.n : Int) < l.size - 1) : Step l s (.logWrite p blockno) (s.move p (.tested logged blockno))
  | append (p blockno : Nat) (logged : List Nat) (at_p : s.pc p = .tested logged blockno) :
    Step l s (.append p) { s.move p (.inside (logged.insert blockno)) with block := absorb s.block blockno }
  | clash (p : Nat) (logged : List Nat) (at_p : s.pc p = .inside logged) (busy : s.committing = true) :
    Step l s (.endOp p) { s with outstanding := s.outstanding - 1, panicked := some "log.committing" }
  | last (p : Nat) (logged : List Nat) (at_p : s.pc p = .inside logged) (free : s.committing = false)
    (last : s.outstanding - 1 = 0) :
    Step l s (.endOp p) { s.move p (.commit .check) with outstanding := s.outstanding - 1, committing := true }
  | endOp (p : Nat) (logged : List Nat) (at_p : s.pc p = .inside logged) (free : s.committing = false)
    (others : s.outstanding - 1 ≠ 0) :
    Step l s (.endOp p) { (s.move p .out).wakeup with outstanding := s.outstanding - 1 }
  | commit (p : Nat) (stage : Stage) (at_p : s.pc p = .commit stage) : Step l s (.commit p) (Layout.commitStep s p stage)

variable {l : Layout} {s s' : State} {a : Action} {p q : Nat}

theorem begin_cases (outside : s.pc p = .out ∨ s.pc p = .woken) : Step l s (.beginOp p) (Layout.beginOp s p) := by
  unfold Layout.beginOp
  split
  · exact .wait p outside
  · split
    · exact .wait p outside
    · exact .begin p outside (by simpa using ‹¬ s.committing = true›) (by omega)

theorem write_cases {logged : List Nat} {blockno : Nat} (at_p : s.pc p = .inside logged) :
    Step l s (.logWrite p blockno) (l.logWrite s p logged blockno) := by
  unfold Layout.logWrite
  split
  · exact .tooBig p blockno logged at_p ‹_›
  · split
    · exact .alone p blockno logged at_p ‹_›
    · exact .logWrite p blockno logged at_p (by omega) (by omega)

theorem end_cases {logged : List Nat} (at_p : s.pc p = .inside logged) : Step l s (.endOp p) (Layout.endOp s p) := by
  simp only [Layout.endOp]
  split
  · exact .clash p logged at_p ‹_›
  · split
    · exact .last p logged at_p (by simpa using ‹¬ _ = true›) ‹_›
    · exact .endOp p logged at_p (by simpa using ‹¬ _ = true›) ‹_›

theorem step_cases (taken : l.Takes s a s') : s.panicked = none ∧ Step l s a s' := by
  unfold Layout.Takes Layout.step at taken
  by_cases running : s.panicked = none
  · rw [if_pos running] at taken
    apply And.intro running
    cases a with
    | beginOp p =>
      cases at_p : s.pc p <;> simp only [Layout.act, at_p, reduceCtorEq, Option.some.injEq] at taken
      · subst taken
        exact begin_cases (.inl at_p)
      · subst taken
        exact begin_cases (.inr at_p)
    | logWrite p blockno =>
      cases at_p : s.pc p <;> simp only [Layout.act, at_p, reduceCtorEq, Option.some.injEq] at taken
      subst taken
      exact write_cases at_p
    | append p =>
      cases at_p : s.pc p <;> simp only [Layout.act, at_p, reduceCtorEq, Option.some.injEq] at taken
      subst taken
      exact .append p _ _ at_p
    | endOp p =>
      cases at_p : s.pc p <;> simp only [Layout.act, at_p, reduceCtorEq, Option.some.injEq] at taken
      subst taken
      exact end_cases at_p
    | commit p =>
      cases at_p : s.pc p <;> simp only [Layout.act, at_p, reduceCtorEq, Option.some.injEq] at taken
      subst taken
      exact .commit p _ at_p
  · rw [if_neg running] at taken
    cases taken

end Xv6.Log
