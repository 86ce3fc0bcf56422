import Xv6.Buffers.Lru
import Xv6.Library.Tally
import Mathlib.Tactic.Common

namespace Xv6.Buffers

open Function Links Log Sched Tally

variable {s s' : State} {p q : Slot} {b x : Index}

def Buf.Same (v w : Buf) : Prop := v.dev = w.dev ∧ v.blockno = w.blockno

def Buf.Names (v : Buf) (dev blockno : Nat) : Prop := v.dev = dev ∧ v.blockno = blockno

/-- The buffer that a process has a reference to without its lock. -/
def Pc.awaits : Pc → Option Index
  | .locking _ _ b => some b
  | .released b => some b
  | _ => none

/-- The buffer that a `bread` has locked and not yet read. -/
def Pc.fetches : Pc → Option Index
  | .locked _ _ b => some b
  | .starting (.read ..) b => some b
  | .waiting (.read ..) b => some b
  | _ => none

/-- The buffer that a process waits for in `iderw`. -/
def Pc.waits : Pc → Option Index
  | .waiting _ b => some b
  | _ => none

theorem Pc.waiting_of_waits {pc : Pc} (waits : pc.waits = some b) : ∃ request, pc = .waiting request b := by
  cases pc
  case waiting request x =>
    cases waits
    exact ⟨request, rfl⟩
  all_goals cases waits

theorem Pc.fetches_of_waiting {request : Request} (other : x ≠ b) : (Pc.waiting request b).fetches ≠ some x := by
  cases request with
  | read => exact fun same => other (Option.some.inj same).symm
  | write => exact (Option.some_ne_none x).symm

def Request.Fits (v : Buf) : Request → Prop
  | .read dev blockno => v.Names dev blockno
  | .write => True

namespace State

/-- The process holds the lock and has not modified the buffer. -/
def Keeps (s : State) (p : Slot) (b : Index) : Prop := (s.buf b).lock = some p ∧ s.touched b = false

/-- What a process knows of the buffer it works on. -/
def At (s : State) (p : Slot) : Pc → Prop
  | .out => True
  | .locking dev blockno b => (s.buf b).Names dev blockno
  | .locked dev blockno b => s.Keeps p b ∧ (s.buf b).Names dev blockno
  | .starting request b => s.Keeps p b ∧ request.Fits (s.buf b)
  | .waiting request b => s.Keeps p b ∧ request.Fits (s.buf b)
  | .returned dev blockno b => s.Keeps p b ∧ (s.buf b).Names dev blockno
  | .logging b => (s.buf b).lock = some p
  | .released b => (s.buf b).valid = true

/-- A place in the reference count of `b`. -/
def locks (s : State) (b : Index) : Nat := if (s.buf b).lock.isSome then 1 else 0

structure Sound (s : State) : Prop where
  counted : ∀ b, (s.buf b).refcnt = tally (fun p => (s.pc p).awaits) b + s.locks b
  fresh : ∀ b, (s.buf b).refcnt = 0 → (s.buf b).valid = false → s.buf b = .zero
  pinned : ∀ b, (s.buf b).dirty = true → (s.buf b).valid = true
  calm : ∀ b, (s.buf b).lock = none → s.touched b = false
  held : ∀ p b, (s.buf b).lock = some p → (s.buf b).valid = true ∨ (s.pc p).fetches = some b
  located : ∀ p, s.At p (s.pc p)
  once : s.idequeue.Nodup
  queued : ∀ b ∈ s.idequeue, ∃ p, (s.buf b).lock = some p ∧ (s.pc p).waits = some b
  pending : ∀ b ∈ s.idequeue, (s.buf b).valid = false ∨ (s.buf b).dirty = true

structure Edit (s s' : State) (p : Slot) (b : Index) : Prop where
  others : ∀ x, x ≠ b → s'.buf x = s.buf x ∧ s'.touched x = s.touched x
  pcs : ∀ q, q ≠ p → s'.pc q = s.pc q
  same : 0 < (s.buf b).refcnt → (s'.buf b).Same (s.buf b)
  valid : 0 < (s.buf b).refcnt → (s.buf b).valid = true → (s'.buf b).valid = true
  lock : ∀ q, q ≠ p → ((s'.buf b).lock = some q ↔ (s.buf b).lock = some q)
  touched : ∀ q, q ≠ p → (s.buf b).lock = some q → s'.touched b = s.touched b
  awaits : ∀ x, x ≠ b → ((s'.pc p).awaits = some x ↔ (s.pc p).awaits = some x)
  count : (s'.buf b).refcnt + (if (s.pc p).awaits = some b then 1 else 0) + s.locks b =
    (s.buf b).refcnt + (if (s'.pc p).awaits = some b then 1 else 0) + s'.locks b
  fresh : (s'.buf b).refcnt = 0 → (s'.buf b).valid = false → s'.buf b = .zero
  pinned : (s'.buf b).dirty = true → (s'.buf b).valid = true
  calm : (s'.buf b).lock = none → s'.touched b = false
  fetches : ∀ x, x ≠ b → (s.pc p).fetches = some x → (s'.pc p).fetches = some x
  held : (s'.buf b).lock = some p → (s'.buf b).valid = true ∨ (s'.pc p).fetches = some b
  located : s'.At p (s'.pc p)

namespace Sound

variable (sound : s.Sound)
include sound

theorem referenced_of_lock (locked : (s.buf b).lock = some p) : 0 < (s.buf b).refcnt := by
  rw [sound.counted, locks, locked, Option.isSome_some, if_pos rfl]
  exact Nat.succ_pos _

theorem referenced_of_awaits (awaits : (s.pc p).awaits = some b) : 0 < (s.buf b).refcnt := by
  have counted := sound.counted b
  have positive : 0 < tally (fun p => (s.pc p).awaits) b := tally_pos awaits
  omega

theorem unlocked (none_left : (s.buf b).refcnt = 0) : (s.buf b).lock = none := by
  by_contra locked
  obtain ⟨p, holder⟩ := Option.ne_none_iff_exists'.mp locked
  have positive := sound.referenced_of_lock holder
  omega

theorem not_queued (locked : (s.buf b).lock = some p) (elsewhere : (s.pc p).waits ≠ some b) : b ∉ s.idequeue := by
  intro member
  obtain ⟨q, holder, waits⟩ := sound.queued b member
  rw [locked] at holder
  cases holder
  exact elsewhere waits

theorem not_queued_of_unlocked (unlocked : (s.buf b).lock = none) : b ∉ s.idequeue := by
  intro member
  obtain ⟨q, holder, _⟩ := sound.queued b member
  rw [unlocked] at holder
  cases holder

end Sound

/-- What another process relies on stays as it is. -/
structure Spares (s s' : State) (q : Slot) : Prop where
  pc : s'.pc q = s.pc q
  same : ∀ b, 0 < (s.buf b).refcnt → (s'.buf b).Same (s.buf b)
  valid : ∀ b, 0 < (s.buf b).refcnt → (s.buf b).valid = true → (s'.buf b).valid = true
  lock : ∀ b, (s'.buf b).lock = some q ↔ (s.buf b).lock = some q
  touched : ∀ b, (s.buf b).lock = some q → s'.touched b = s.touched b

theorem Spares.refl (s : State) (q : Slot) : s.Spares s q :=
  ⟨rfl, fun _ _ => ⟨rfl, rfl⟩, fun _ _ valid => valid, fun _ => Iff.rfl, fun _ _ => rfl⟩

theorem Spares.congr {s'' : State} (spares : s.Spares s' q) (buf : s''.buf = s'.buf) (touched : s''.touched = s'.touched)
    (pc : s''.pc = s'.pc) : s.Spares s'' q where
  pc := pc ▸ spares.pc
  same := buf ▸ spares.same
  valid := buf ▸ spares.valid
  lock := buf ▸ spares.lock
  touched := touched ▸ spares.touched

theorem Edit.spares (edit : s.Edit s' p b) (other : q ≠ p) : s.Spares s' q := by
  constructor
  · exact edit.pcs q other
  · intro x referenced
    by_cases here : x = b
    · subst here
      exact edit.same referenced
    · rw [(edit.others x here).1]
      exact ⟨rfl, rfl⟩
  · intro x referenced valid
    by_cases here : x = b
    · subst here
      exact edit.valid referenced valid
    · rwa [(edit.others x here).1]
  · intro x
    by_cases here : x = b
    · subst here
      exact edit.lock q other
    · rw [(edit.others x here).1]
  · intro x locked
    by_cases here : x = b
    · subst here
      exact edit.touched q other locked
    · exact (edit.others x here).2

namespace Spares

variable (spares : s.Spares s' q)
include spares

theorem keeps (keeps : s.Keeps q b) : s'.Keeps q b :=
  ⟨(spares.lock b).mpr keeps.1, (spares.touched b keeps.1).trans keeps.2⟩

theorem names {dev blockno : Nat} (referenced : 0 < (s.buf b).refcnt) (names : (s.buf b).Names dev blockno) :
    (s'.buf b).Names dev blockno :=
  ⟨(spares.same b referenced).1.trans names.1, (spares.same b referenced).2.trans names.2⟩

theorem fits {request : Request} (referenced : 0 < (s.buf b).refcnt) (fits : request.Fits (s.buf b)) :
    request.Fits (s'.buf b) := by
  cases request with
  | read dev blockno => exact spares.names referenced fits
  | write => trivial

theorem located (sound : s.Sound) : s'.At q (s'.pc q) := by
  have before := sound.located q
  rw [spares.pc]
  cases place : s.pc q <;> rw [place] at before
  case out => trivial
  case locking =>
    exact spares.names (sound.referenced_of_awaits (by rw [place]; rfl)) before
  case locked => exact ⟨spares.keeps before.1, spares.names (sound.referenced_of_lock before.1.1) before.2⟩
  case starting => exact ⟨spares.keeps before.1, spares.fits (sound.referenced_of_lock before.1.1) before.2⟩
  case waiting => exact ⟨spares.keeps before.1, spares.fits (sound.referenced_of_lock before.1.1) before.2⟩
  case returned => exact ⟨spares.keeps before.1, spares.names (sound.referenced_of_lock before.1.1) before.2⟩
  case logging => exact (spares.lock _).mpr before
  case released => exact spares.valid _ (sound.referenced_of_awaits (by rw [place]; rfl)) before

theorem held (sound : s.Sound) (locked : (s'.buf b).lock = some q) :
    (s'.buf b).valid = true ∨ (s'.pc q).fetches = some b := by
  have before := (spares.lock b).mp locked
  rw [spares.pc]
  rcases sound.held q b before with valid | fetches
  · exact .inl (spares.valid b (sound.referenced_of_lock before) valid)
  · exact .inr fetches

end Spares

namespace Edit

variable (edit : s.Edit s' p b)
include edit

theorem tally_awaits (x : Index) :
    tally (fun q => (s'.pc q).awaits) x + (if (s.pc p).awaits = some x then 1 else 0) =
      tally (fun q => (s.pc q).awaits) x + if (s'.pc p).awaits = some x then 1 else 0 := by
  have places : (fun q => (s'.pc q).awaits) = update (fun q => (s.pc q).awaits) p (s'.pc p).awaits := by
    funext q
    by_cases here : q = p
    · subst here
      rw [update_self]
    · rw [update_of_ne here, edit.pcs q here]
  rw [places]
  exact tally_exchange (fun q => (s.pc q).awaits) p _ x

theorem counted (sound : s.Sound) (x : Index) :
    (s'.buf x).refcnt = tally (fun q => (s'.pc q).awaits) x + s'.locks x := by
  have exchange := edit.tally_awaits x
  have before := sound.counted x
  by_cases here : x = b
  · subst here
    have count := edit.count
    omega
  · have kept : s'.locks x = s.locks x := by
      unfold locks
      rw [(edit.others x here).1]
    have awaits := edit.awaits x here
    rw [kept, (edit.others x here).1, before]
    simp only [awaits] at exchange
    omega

theorem queued (sound : s.Sound) (queue : s'.idequeue = s.idequeue)
    (lock : b ∈ s.idequeue → (s'.buf b).lock = (s.buf b).lock)
    (awake : ∀ x ∈ s.idequeue, (s.pc p).waits ≠ some x) :
    ∀ x ∈ s'.idequeue, ∃ q, (s'.buf x).lock = some q ∧ (s'.pc q).waits = some x := by
  intro x member
  rw [queue] at member
  obtain ⟨q, holder, waits⟩ := sound.queued x member
  have other : q ≠ p := by
    rintro rfl
    exact awake x member waits
  refine ⟨q, ?_, by rw [edit.pcs q other]; exact waits⟩
  by_cases here : x = b
  · subst here
    rw [lock member]
    exact holder
  · rw [(edit.others x here).1]
    exact holder

theorem pending (sound : s.Sound) (queue : s'.idequeue = s.idequeue)
    (flags : b ∈ s.idequeue → (s'.buf b).valid = (s.buf b).valid ∧ (s'.buf b).dirty = (s.buf b).dirty) :
    ∀ x ∈ s'.idequeue, (s'.buf x).valid = false ∨ (s'.buf x).dirty = true := by
  intro x member
  rw [queue] at member
  by_cases here : x = b
  · subst here
    rw [(flags member).1, (flags member).2]
    exact sound.pending x member
  · rw [(edit.others x here).1]
    exact sound.pending x member

theorem sound (sound : s.Sound) (once : s'.idequeue.Nodup)
    (queued : ∀ x ∈ s'.idequeue, ∃ q, (s'.buf x).lock = some q ∧ (s'.pc q).waits = some x)
    (pending : ∀ x ∈ s'.idequeue, (s'.buf x).valid = false ∨ (s'.buf x).dirty = true) : s'.Sound where
  counted := edit.counted sound
  fresh x := by
    by_cases here : x = b
    · subst here
      exact edit.fresh
    · rw [(edit.others x here).1]
      exact sound.fresh x
  pinned x := by
    by_cases here : x = b
    · subst here
      exact edit.pinned
    · rw [(edit.others x here).1]
      exact sound.pinned x
  calm x := by
    by_cases here : x = b
    · subst here
      exact edit.calm
    · rw [(edit.others x here).1, (edit.others x here).2]
      exact sound.calm x
  held q x locked := by
    by_cases own : q = p
    · subst own
      by_cases here : x = b
      · subst here
        exact edit.held locked
      · rw [(edit.others x here).1] at locked ⊢
        exact (sound.held q x locked).imp_right (edit.fetches x here)
    · exact (edit.spares own).held sound locked
  located q := by
    by_cases own : q = p
    · subst own
      exact edit.located
    · exact (edit.spares own).located sound
  once := once
  queued := queued
  pending := pending

theorem sound_of_queue (sound : s.Sound) (queue : s'.idequeue = s.idequeue)
    (awake : ∀ x ∈ s.idequeue, (s.pc p).waits ≠ some x)
    (lock : b ∈ s.idequeue → (s'.buf b).lock = (s.buf b).lock)
    (flags : b ∈ s.idequeue → (s'.buf b).valid = (s.buf b).valid ∧ (s'.buf b).dirty = (s.buf b).dirty) : s'.Sound := by
  apply edit.sound sound
  · rw [queue]
    exact sound.once
  · exact edit.queued sound queue lock awake
  · exact edit.pending sound queue flags

theorem sound_of_not_queued (sound : s.Sound) (queue : s'.idequeue = s.idequeue)
    (awake : ∀ x ∈ s.idequeue, (s.pc p).waits ≠ some x) (outside : b ∉ s.idequeue) : s'.Sound :=
  edit.sound_of_queue sound queue awake (fun member => absurd member outside) fun member => absurd member outside

end Edit

end State

end Xv6.Buffers
