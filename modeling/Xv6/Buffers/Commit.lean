import Xv6.Buffers.Volume

namespace Xv6.Buffers

open Function Log Sched Transition Writes

variable {c : Config} {s s' : State} {p q : Slot} {b x : Index} {stage : Stage} {base goal d : Disk} {who : Option Slot}

/-- The home of the block in slot `t` of the log. -/
def homeOf (block : List Nat) (t : Nat) : Nat := block.getD t 0

/-- The header that `write_head` writes. -/
def headerOf (block : List Nat) : Header := ⟨block.length, homeOf block⟩

def Lists (block : List Nat) (data : Data) : Prop :=
  Bytes.load 4 data 0 = block.length ∧ ∀ i, i < block.length → Bytes.load 4 data (4 + 4 * i) = homeOf block i

namespace Stage

/-- The first header is still to be sent, or has just been. -/
def Early : Stage → Prop
  | .check | .test .writeLog _ | .home .writeLog _ | .copy .writeLog _ _ | .write .writeLog _ _ _
  | .dropSrc .writeLog _ _ _ | .dropDst .writeLog _ _ | .head false | .fill false | .writeHead false _
  | .dropHead false _ => True
  | _ => False

def Filled (t : Nat) : Stage → Prop
  | .check => False
  | .test .writeLog tail | .home .writeLog tail | .copy .writeLog tail _ | .write .writeLog tail _ _ => t < tail
  | .dropSrc .writeLog tail _ _ | .dropDst .writeLog tail _ => t ≤ tail
  | _ => True

/-- The slot of the log whose block has been passed to `bwrite`. -/
def Installed (t : Nat) : Stage → Prop
  | .test .installTrans tail | .home .installTrans tail | .copy .installTrans tail _
  | .write .installTrans tail _ _ => t < tail
  | .dropSrc .installTrans tail _ _ | .dropDst .installTrans tail _ => t ≤ tail
  | .clear => True
  | _ => False

def tail : Stage → Option Nat
  | .home _ tail | .copy _ tail _ | .write _ tail _ _ | .dropSrc _ tail _ _ | .dropDst _ tail _ => some tail
  | _ => none

def source (c : Config) (block : List Nat) : Stage → Option Nat
  | .home _ tail => some (c.layout.start + tail + 1)
  | .copy _ tail _ => some (homeOf block tail)
  | .fill _ => some c.layout.start
  | _ => none

/-- The buffer that is to be passed to `bwrite`. -/
def ready : Stage → Option Index
  | .write _ _ dst _ => some dst
  | .writeHead _ hb => some hb
  | _ => none

/-- The slot that `copy` is at, and the buffer that has the log block. -/
def copies : Stage → Option (Nat × Index)
  | .copy _ tail log => some (tail, log)
  | _ => none

def place (c : Config) (block : List Nat) : Stage → Nat
  | .write .writeLog tail _ _ | .dropSrc .writeLog tail _ _ => c.layout.start + tail + 1
  | .write .installTrans tail _ _ | .dropSrc .installTrans tail _ _ => homeOf block tail
  | _ => c.layout.start

def Fits (block : List Nat) (goal : Disk) (data : Data) : Stage → Prop
  | .write _ tail _ _ | .dropSrc _ tail _ _ => data = goal (homeOf block tail)
  | .writeHead _ _ | .dropHead _ _ => Lists block data
  | _ => True

/-- `lh.n` is zero again. -/
def Cleared : Stage → Prop
  | .head true | .fill true | .writeHead true _ | .dropHead true _ | .done => True
  | _ => False

end Stage

/-- The log on disk turns the disk into `goal`. -/
def Pending (l : Layout) (goal d : Disk) : Prop := ∃ lh new, Transaction l lh ∧ Logged l lh new goal d

/-- What the header block on disk says; `busy` if a write is not over. -/
def Stage.Heads (c : Config) (block : List Nat) (goal d : Disk) (busy : Prop) : Stage → Prop
  | .dropHead false _ => c.layout.count d = 0 ∧ busy ∨ Lists block (d c.layout.start)
  | .test .installTrans _ | .home .installTrans _ | .copy .installTrans _ _ | .write .installTrans _ _ _
  | .dropSrc .installTrans _ _ _ | .dropDst .installTrans _ _ | .clear => Lists block (d c.layout.start)
  | .head true | .fill true | .writeHead true _ => Pending c.layout goal d
  | .dropHead true _ => Pending c.layout goal d ∧ busy ∨ c.layout.count d = 0
  | _ => c.layout.count d = 0

theorem Stage.heads_cases (c : Config) (block : List Nat) (goal d : Disk) (stage : Stage) :
    (∃ erase hb, stage = .dropHead erase hb) ∨
      ∀ busy busy', stage.Heads c block goal d busy = stage.Heads c block goal d busy' := by
  cases stage
  case dropHead erase hb => exact Or.inl ⟨erase, hb, rfl⟩
  case test loop tail => cases loop <;> exact Or.inr fun _ _ => rfl
  case home loop tail => cases loop <;> exact Or.inr fun _ _ => rfl
  case copy loop tail log => cases loop <;> exact Or.inr fun _ _ => rfl
  case write loop tail dst src => cases loop <;> exact Or.inr fun _ _ => rfl
  case dropSrc loop tail dst src => cases loop <;> exact Or.inr fun _ _ => rfl
  case dropDst loop tail dst => cases loop <;> exact Or.inr fun _ _ => rfl
  case head erase => cases erase <;> exact Or.inr fun _ _ => rfl
  case fill erase => cases erase <;> exact Or.inr fun _ _ => rfl
  case writeHead erase hb => cases erase <;> exact Or.inr fun _ _ => rfl
  all_goals exact Or.inr fun _ _ => rfl

/-- The process holds a buffer with what the statement is to write. -/
structure Stage.Holds (c : Config) (s : State) (goal : Disk) (p : Slot) (stage : Stage) (b : Index) : Prop where
  lock : (s.buf b).lock = some p
  names : (s.buf b).Names c.dev (stage.place c s.block)
  fits : stage.Fits s.block goal (s.buf b).data

/-- A commit in progress: the disk was `base`, and is to be `goal`, outside the log. -/
structure Commits (c : Config) (s : State) (base goal : Disk) (p : Slot) (stage : Stage) : Prop where
  given : ∀ n, ¬c.layout.Inside n → s.given c.dev n = goal n
  early : stage.Early → ∀ n, ¬c.layout.Inside n → s.disk (c.dev % 2) n = base n
  heads : stage.Heads c s.block goal (s.disk (c.dev % 2)) ((s.pc p).writes ≠ none)
  filled : ∀ t, t < s.block.length → stage.Filled t → s.given c.dev (c.layout.start + t + 1) = goal (homeOf s.block t)
  dirty : ∀ b, (s.buf b).dirty = true → (s.pc p).writes = some b ∨
    ∃ t, t < s.block.length ∧ ¬stage.Installed t ∧ (s.buf b).blockno = homeOf s.block t
  low : ∀ t, stage.tail = some t → t < s.block.length
  reads : ∀ n, stage.source c s.block = some n → (s.pc p).Reads c.dev n
  log : ∀ loop tail log, stage = .copy loop tail log →
    (s.buf log).lock = some p ∧ (s.buf log).Names c.dev (c.layout.start + tail + 1)
  ready : ∀ b, stage.ready = some b → s.pc p = .out ∧ stage.Holds c s goal p b
  flight : ∀ b, (s.pc p).writes = some b → stage.wrote = some b ∧ stage.Holds c s goal p b
  sent : ∀ erase hb, stage = .dropHead erase hb → Lists s.block (s.given c.dev c.layout.start)
  cleared : stage.Cleared → s.block = []

namespace Commits

variable (held : Commits c s base goal p stage)
include held

/-- A block that is neither being written nor still to be installed is on disk. -/
theorem stored (faithful : s.Faithful {c.dev}) {n : Nat} (still : ∀ b, (s.pc p).writes = some b → n ≠ stage.place c s.block)
    (home : ∀ t, t < s.block.length → ¬stage.Installed t → n ≠ homeOf s.block t) : s.disk (c.dev % 2) n = s.given c.dev n := by
  apply faithful.stored c.dev n rfl
  intro b names
  by_contra dirty
  rcases held.dirty b (eq_true_of_ne_false dirty) with writes | ⟨t, low, left, same⟩
  · exact still b writes (names.2.symm.trans (held.flight b writes).2.names.2)
  · exact home t low left (names.2.symm.trans same)

theorem logged (faithful : s.Faithful {c.dev}) (tr : Transaction c.layout (headerOf s.block))
    (header : Lists s.block (s.disk (c.dev % 2) c.layout.start)) (full : ∀ t, stage.Filled t)
    (away : ∀ b, (s.pc p).writes = some b → ∀ t, t < s.block.length → stage.place c s.block ≠ c.layout.start + t + 1)
    (inside : ∀ b, (s.pc p).writes = some b → c.layout.Inside (stage.place c s.block) ∨
      ∃ t, t < s.block.length ∧ stage.place c s.block = homeOf s.block t) :
    Logged c.layout (headerOf s.block) (fun t => goal (homeOf s.block t)) goal (s.disk (c.dev % 2)) := by
  constructor
  · exact header.1
  · exact header.2
  · intro t low
    rw [← held.filled t low (full t)]
    apply held.stored faithful
    · intro b writes same
      exact away b writes t low same.symm
    · rintro u high - same
      exact tr.outside u high (show c.layout.Inside (homeOf s.block u) from same ▸ tr.inside_log t low)
  · intro n outside
    by_cases home : ∃ t, t < s.block.length ∧ homeOf s.block t = n
    · obtain ⟨t, low, rfl⟩ := home
      exact apply_of_mem tr.homes_nodup (w := (homeOf s.block t, goal (homeOf s.block t))) (List.mem_map_of_mem (List.mem_range.mpr low))
    · rw [apply_of_not_mem, held.stored faithful, held.given n outside]
      · intro b writes same
        rcases inside b writes with within | ⟨t, low, eq⟩
        · exact outside (same ▸ within)
        · exact home ⟨t, low, (same.trans eq).symm⟩
      · rintro t low - same
        exact home ⟨t, low, same.symm⟩
      · intro w member same
        obtain ⟨t, low, rfl⟩ := List.mem_map.mp member
        exact home ⟨t, List.mem_range.mp low, same⟩

theorem settled (faithful : s.Faithful {c.dev}) (none_left : ∀ t, t < s.block.length → stage.Installed t)
    (within : ∀ b, (s.pc p).writes = some b → c.layout.Inside (stage.place c s.block)) {n : Nat} (outside : ¬c.layout.Inside n) :
    s.disk (c.dev % 2) n = goal n := by
  rw [held.stored faithful, held.given n outside]
  · intro b writes same
    exact outside (same ▸ within b writes)
  · intro t low left
    exact absurd (none_left t low) left

theorem pending (faithful : s.Faithful {c.dev}) (tr : Transaction c.layout (headerOf s.block))
    (header : Lists s.block (s.disk (c.dev % 2) c.layout.start)) (full : ∀ t, stage.Filled t)
    (place : ∀ b, stage.wrote = some b → stage.place c s.block = c.layout.start ∨
      ∃ t, stage.tail = some t ∧ stage.place c s.block = homeOf s.block t) : Pending c.layout goal (s.disk (c.dev % 2)) := by
  refine ⟨headerOf s.block, _, tr, held.logged faithful tr header full ?_ ?_⟩
  · intro b writes t low same
    rcases place b (held.flight b writes).1 with start | ⟨u, tail, home⟩
    · omega
    · apply tr.outside u (held.low u tail)
      show c.layout.Inside (homeOf s.block u)
      rw [← home, same]
      exact tr.inside_log t low
  · intro b writes
    rcases place b (held.flight b writes).1 with start | ⟨u, tail, home⟩
    · rw [start]
      exact Or.inl tr.inside_start
    · exact Or.inr ⟨u, held.low u tail, home⟩

theorem recoverable (faithful : s.Faithful {c.dev}) (tr : Transaction c.layout (headerOf s.block)) :
    Idle c.layout base (s.disk (c.dev % 2)) ∨ Pending c.layout goal (s.disk (c.dev % 2)) ∨
      Idle c.layout goal (s.disk (c.dev % 2)) := by
  have heads := held.heads
  have early := held.early
  have nothing : s.block = [] → ∀ t, t < s.block.length → stage.Installed t := by
    intro empty t low
    rw [empty] at low
    exact absurd low (Nat.not_lt_zero t)
  cases stage with
  | check => exact Or.inl ⟨heads, early trivial⟩
  | test loop tail =>
    cases loop with
    | writeLog => exact Or.inl ⟨heads, early trivial⟩
    | installTrans => exact Or.inr (Or.inl (held.pending faithful tr heads (fun _ => trivial) nofun))
  | home loop tail =>
    cases loop with
    | writeLog => exact Or.inl ⟨heads, early trivial⟩
    | installTrans => exact Or.inr (Or.inl (held.pending faithful tr heads (fun _ => trivial) nofun))
  | copy loop tail log =>
    cases loop with
    | writeLog => exact Or.inl ⟨heads, early trivial⟩
    | installTrans => exact Or.inr (Or.inl (held.pending faithful tr heads (fun _ => trivial) nofun))
  | write loop tail dst src =>
    cases loop with
    | writeLog => exact Or.inl ⟨heads, early trivial⟩
    | installTrans => exact Or.inr (Or.inl (held.pending faithful tr heads (fun _ => trivial) nofun))
  | dropSrc loop tail dst src =>
    cases loop with
    | writeLog => exact Or.inl ⟨heads, early trivial⟩
    | installTrans =>
      exact Or.inr (Or.inl (held.pending faithful tr heads (fun _ => trivial) fun _ _ => Or.inr ⟨tail, rfl, rfl⟩))
  | dropDst loop tail dst =>
    cases loop with
    | writeLog => exact Or.inl ⟨heads, early trivial⟩
    | installTrans => exact Or.inr (Or.inl (held.pending faithful tr heads (fun _ => trivial) nofun))
  | head erase =>
    cases erase with
    | false => exact Or.inl ⟨heads, early trivial⟩
    | true => exact Or.inr (Or.inl heads)
  | fill erase =>
    cases erase with
    | false => exact Or.inl ⟨heads, early trivial⟩
    | true => exact Or.inr (Or.inl heads)
  | writeHead erase hb =>
    cases erase with
    | false => exact Or.inl ⟨heads, early trivial⟩
    | true => exact Or.inr (Or.inl heads)
  | dropHead erase hb =>
    cases erase with
    | false =>
      rcases heads with ⟨count, -⟩ | header
      · exact Or.inl ⟨count, early trivial⟩
      · exact Or.inr (Or.inl (held.pending faithful tr header (fun _ => trivial) fun _ _ => Or.inl rfl))
    | true =>
      rcases heads with ⟨pending, -⟩ | count
      · exact Or.inr (Or.inl pending)
      · exact Or.inr (Or.inr ⟨count, fun n => held.settled faithful (nothing (held.cleared trivial)) fun _ _ => tr.inside_start⟩)
  | clear => exact Or.inr (Or.inl (held.pending faithful tr heads (fun _ => trivial) nofun))
  | done =>
    refine Or.inr (Or.inr ⟨heads, fun n => held.settled faithful (nothing (held.cleared trivial)) ?_⟩)
    intro b writes
    cases (held.flight b writes).1

end Commits

end Xv6.Buffers
