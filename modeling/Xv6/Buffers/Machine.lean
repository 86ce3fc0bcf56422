import Xv6.Library.Transition
import Xv6.Log.Operations
import Xv6.Sched.Table

namespace Xv6.Buffers

open Function Log Sched

def NBUF : Nat := MAXOPBLOCKS * 3

def FSSIZE : Nat := 1000

/-- An index of `bcache.buf`. -/
abbrev Index := Fin NBUF

/-- A `prev` or `next`; `none` is `&bcache.head`. -/
abbrev Link := Option Index

/-- `struct buf` without its links. `valid` and `dirty` are B_VALID and B_DIRTY, and `lock` names the process that
    holds the sleep lock. -/
structure Buf where
  valid : Bool
  dirty : Bool
  dev : Nat
  blockno : Nat
  lock : Option Slot
  refcnt : Nat
  data : Data

def Buf.zero : Buf := ⟨false, false, 0, 0, none, 0, fun _ => 0⟩

/-- `bcache.head` and the links of the buffers. -/
structure Lru where
  next : Link → Link
  prev : Link → Link

namespace Lru

/-- Link `b` in after `head`. -/
def insert (lru : Lru) (b : Index) : Lru :=
  let lru := { lru with next := update lru.next (some b) (lru.next none) }
  let lru := { lru with prev := update lru.prev (some b) none }
  let lru := { lru with prev := update lru.prev (lru.next none) (some b) }
  { lru with next := update lru.next none (some b) }

def unlink (lru : Lru) (b : Index) : Lru :=
  let lru := { lru with prev := update lru.prev (lru.next (some b)) (lru.prev (some b)) }
  { lru with next := update lru.next (lru.prev (some b)) (lru.next (some b)) }

/-- `binit` -/
def init : Lru := (List.finRange NBUF).foldl insert ⟨fun _ => none, fun _ => none⟩

end Lru

/-- The loops of `bget`: the first buffer that passes the test, or `&bcache.head`. -/
def scan (links : Link → Link) (test : Index → Bool) : Nat → Link → Option Link
  | _, none => some none
  | 0, some _ => none
  | fuel + 1, some b => if test b then some (some b) else scan links test fuel (links (some b))

/-- Why `iderw` is called: `bread` of a block, or `bwrite`. -/
inductive Request where
  | read (dev blockno : Nat)
  | write
  deriving DecidableEq

/-- Where a process is in a call. In `returned` its last `bread` has returned; it is as free as in `out`. -/
inductive Pc where
  | out
  | locking (dev blockno : Nat) (b : Index)
  | locked (dev blockno : Nat) (b : Index)
  | starting (request : Request) (b : Index)
  | waiting (request : Request) (b : Index)
  | returned (dev blockno : Nat) (b : Index)
  | logging (b : Index)
  | released (b : Index)
  deriving DecidableEq

/-- Where a process is when `iderw` has returned to the caller. -/
def Request.result : Request → Index → Pc
  | .read dev blockno, b => .returned dev blockno b
  | .write, _ => .out

/-- `write_log` and `install_trans` -/
inductive Loop where
  | writeLog
  | installTrans
  deriving DecidableEq

/-- The next statement of `commit` and of what follows it in `end_op`. Each pass of a loop reads a log block and
    its home block, copies the one to the other, writes the copy and releases both, the source first. -/
inductive Stage where
  | check
  | test (loop : Loop) (tail : Nat)
  | home (loop : Loop) (tail : Nat)
  | copy (loop : Loop) (tail : Nat) (log : Index)
  | write (loop : Loop) (tail : Nat) (dst src : Index)
  | dropSrc (loop : Loop) (tail : Nat) (dst src : Index)
  | dropDst (loop : Loop) (tail : Nat) (dst : Index)
  | head (erase : Bool)
  | fill (erase : Bool)
  | writeHead (erase : Bool) (hb : Index)
  | dropHead (erase : Bool) (hb : Index)
  | clear
  | done
  deriving DecidableEq

/-- The cache, the disk driver, the log (`block` holds the first `lh.n` entries of `lh.block`) and the processes.
    No code reads the last two fields: what `bwrite` or `log_write` was last given for a block, and whether a
    buffer was modified since it was last given to one of them. -/
structure State where
  buf : Index → Buf
  lru : Lru
  idequeue : List Index
  disk : Nat → Disk
  block : List Nat
  outstanding : Int
  committing : Bool
  pc : Slot → Pc
  stage : Slot → Option Stage
  panicked : Option String
  given : Nat → Disk
  touched : Index → Bool

/-- What `initlog` is told, and what `ideinit` finds. -/
structure Config where
  layout : Layout
  dev : Nat
  havedisk1 : Bool

inductive Action where
  | bread (p : Slot) (dev blockno : Nat)
  | modify (p : Slot) (b : Index) (data : Data)
  | bwrite (p : Slot) (b : Index)
  | logWrite (p : Slot) (b : Index)
  | brelse (p : Slot) (b : Index)
  | beginOp (p : Slot)
  | endOp (p : Slot)
  | commit (p : Slot)
  | resume (p : Slot)
  | ideintr (error : Bool)

namespace State

variable (s : State) (p : Slot) (b : Index)

def start (disk : Nat → Disk) : State where
  buf _ := .zero
  lru := .init
  idequeue := []
  disk := disk
  block := []
  outstanding := 0
  committing := false
  pc _ := .out
  stage _ := none
  panicked := none
  given dev := disk (dev % 2)
  touched _ := false

def panic (msg : String) : State := { s with panicked := some msg }

def goto (pc : Pc) : State := { s with pc := update s.pc p pc }

def put (v : Buf) : State := { s with buf := update s.buf b v }

/-- Where `commit` goes on. -/
def «at» (stage : Stage) : State := { s with stage := update s.stage p (some stage) }

/-- `b` is passed to `bwrite` or `log_write`. -/
def give : State :=
  let v := s.buf b
  { s with
    given := update s.given v.dev (update (s.given v.dev) v.blockno v.data)
    touched := update s.touched b false }

def Idle : Prop :=
  match s.pc p with
  | .out | .returned .. => True
  | _ => False

instance : Decidable (s.Idle p) := by
  unfold Idle
  split <;> infer_instance

/-- In either case the process goes on to `acquiresleep`. -/
def bget (dev blockno : Nat) : Option State :=
  match scan s.lru.next (fun b => (s.buf b).dev = dev ∧ (s.buf b).blockno = blockno) NBUF (s.lru.next none) with
  | some (some b) => some ((s.put b { s.buf b with refcnt := (s.buf b).refcnt + 1 }).goto p (.locking dev blockno b))
  | some none =>
    match scan s.lru.prev (fun b => (s.buf b).refcnt = 0 ∧ (s.buf b).dirty = false) NBUF (s.lru.prev none) with
    | some (some b) =>
      some ((s.put b
        { s.buf b with
          dev := dev
          blockno := blockno
          valid := false
          dirty := false
          refcnt := 1 }).goto p (.locking dev blockno b))
    | some none => some (s.panic "bget: no buffers")
    | none => none
  | none => none

/-- The driver sends a block that is to be written at once. -/
def idestart : State :=
  let v := s.buf b
  if v.blockno ≥ FSSIZE then s.panic "incorrect blockno"
  else if v.dirty then { s with disk := update s.disk (v.dev % 2) (update (s.disk (v.dev % 2)) v.blockno v.data) }
  else s

/-- `error` is what `idewait(1)` finds. -/
def ideintr (error : Bool) : State :=
  match s.idequeue with
  | [] => s
  | b :: rest =>
    let v := s.buf b
    let data := if v.dirty = false ∧ error = false then s.disk (v.dev % 2) v.blockno else v.data
    let s := { s with idequeue := rest }.put b { v with data := data, valid := true, dirty := false }
    rest.head?.elim s s.idestart

def bwrite : State :=
  if (s.buf b).lock = some p then
    ((s.put b { s.buf b with dirty := true }).give b).goto p (.starting .write b)
  else s.panic "bwrite"

/-- `brelse` up to its critical section. -/
def brelse : State :=
  if (s.buf b).lock = some p then (s.put b { s.buf b with lock := none }).goto p (.released b)
  else s.panic "brelse"

/-- The critical section of `brelse`. -/
def unref : State :=
  let refcnt := (s.buf b).refcnt - 1
  let s := (s.put b { s.buf b with refcnt := refcnt }).goto p .out
  if refcnt = 0 then { s with lru := (s.lru.unlink b).insert b } else s

/-- The process stores into `b->data`. -/
def modify (data : Data) : State :=
  { (s.put b { s.buf b with data := data }).goto p .out with touched := update s.touched b true }

/-- The critical section of `log_write`. -/
def append : State :=
  (({ s with block := absorb s.block (s.buf b).blockno }.put b { s.buf b with dirty := true }).give b).goto p .out

def beginOp : State :=
  if s.committing then s
  else if s.block.length + (s.outstanding + 1) * MAXOPBLOCKS > LOGSIZE then s
  else { s with outstanding := s.outstanding + 1 }

def endOp : State :=
  let s := { s with outstanding := s.outstanding - 1 }
  if s.committing then s.panic "log.committing"
  else if s.outstanding = 0 then { s.at p .check with committing := true }
  else s

/-- Processes modify only what they hold, and pass it to `bwrite` or `log_write` before `brelse`. -/
def Disciplined : Action → Prop
  | .modify p b _ => (s.buf b).lock = some p
  | .logWrite p b => (s.buf b).lock = some p
  | .brelse p b => (s.buf b).lock = some p → s.touched b = false
  | _ => True

instance (a : Action) : Decidable (s.Disciplined a) := by
  unfold Disciplined
  split <;> infer_instance

end State

namespace Config

variable (c : Config) (s : State) (p : Slot)

def iderw (request : Request) (b : Index) : State :=
  let v := s.buf b
  if v.lock ≠ some p then s.panic "iderw: buf not locked"
  else if v.valid = true ∧ v.dirty = false then s.panic "iderw: nothing to do"
  else if v.dev ≠ 0 ∧ c.havedisk1 = false then s.panic "iderw: ide disk 1 not present"
  else
    let s := { s with idequeue := s.idequeue ++ [b] }.goto p (.waiting request b)
    if s.idequeue.head? = some b then s.idestart b else s

/-- `log_write` up to its critical section. -/
def logWrite (b : Index) : State :=
  if s.block.length ≥ LOGSIZE ∨ (s.block.length : Int) ≥ c.layout.size - 1 then s.panic "too big a transaction"
  else if s.outstanding < 1 then s.panic "log_write outside of trans"
  else s.goto p (.logging b)

/-- What a process does next inside a call, unless it has to sleep. -/
def resume : Pc → Option State
  | .locking dev blockno b =>
    if (s.buf b).lock = none then some ((s.put b { s.buf b with lock := some p }).goto p (.locked dev blockno b))
    else none
  | .locked dev blockno b =>
    some (s.goto p (if (s.buf b).valid then .returned dev blockno b else .starting (.read dev blockno) b))
  | .starting request b => some (c.iderw s p request b)
  | .waiting request b =>
    if (s.buf b).valid = true ∧ (s.buf b).dirty = false then some (s.goto p (request.result b)) else none
  | .logging b => some (s.append p b)
  | .released b => some (s.unref p b)
  | _ => none

/-- One statement of `commit`. -/
def commitStep : Stage → Option State
  | .check => some (s.at p (if s.block.length > 0 then .test .writeLog 0 else .done))
  | .test loop tail =>
    if tail < s.block.length then
      (s.bget p c.dev (c.layout.start + tail + 1)).map (·.at p (.home loop tail))
    else some (s.at p (if loop = .writeLog then .head false else .clear))
  | .home loop tail =>
    match s.pc p with
    | .returned _ _ log => (s.bget p c.dev (s.block.getD tail 0)).map (·.at p (.copy loop tail log))
    | _ => none
  | .copy loop tail log =>
    match s.pc p with
    | .returned _ _ home =>
      if loop = .writeLog then some ((s.modify p log (s.buf home).data).at p (.write loop tail log home))
      else some ((s.modify p home (s.buf log).data).at p (.write loop tail home log))
    | _ => none
  | .write loop tail dst src => some ((s.bwrite p dst).at p (.dropSrc loop tail dst src))
  | .dropSrc loop tail dst src => some ((s.brelse p src).at p (.dropDst loop tail dst))
  | .dropDst loop tail dst => some ((s.brelse p dst).at p (.test loop (tail + 1)))
  | .head erase => (s.bget p c.dev c.layout.start).map (·.at p (.fill erase))
  | .fill erase =>
    match s.pc p with
    | .returned _ _ hb =>
      let lh : Header := ⟨s.block.length, fun i => s.block.getD i 0⟩
      some ((s.modify p hb (lh.fill (s.buf hb).data)).at p (.writeHead erase hb))
    | _ => none
  | .writeHead erase hb => some ((s.bwrite p hb).at p (.dropHead erase hb))
  | .dropHead erase hb => some ((s.brelse p hb).at p (if erase then .done else .test .installTrans 0))
  | .clear => some ({ s with block := [] }.at p (.head true))
  | .done => some { s with committing := false, stage := update s.stage p none }

/-- Between its calls a process may make any other call, unless it is in `commit`. -/
def act : Action → Option State
  | .bread p dev blockno => if s.Idle p ∧ s.stage p = none then s.bget p dev blockno else none
  | .modify p b data => if s.Idle p ∧ s.stage p = none then some (s.modify p b data) else none
  | .bwrite p b => if s.Idle p ∧ s.stage p = none then some (s.bwrite p b) else none
  | .logWrite p b => if s.Idle p ∧ s.stage p = none then some (c.logWrite s p b) else none
  | .brelse p b => if s.Idle p ∧ s.stage p = none then some (s.brelse p b) else none
  | .beginOp p => if s.Idle p ∧ s.stage p = none then some s.beginOp else none
  | .endOp p => if s.Idle p ∧ s.stage p = none then some (s.endOp p) else none
  | .commit p => if s.Idle p then (s.stage p).bind (c.commitStep s p) else none
  | .resume p => c.resume s p (s.pc p)
  | .ideintr error => some (s.ideintr error)

def step (a : Action) : Option State := if s.panicked = none then c.act s a else none

def Takes (s : State) (a : Action) (s' : State) : Prop := s.Disciplined a ∧ c.step s a = some s'

end Config

end Xv6.Buffers
