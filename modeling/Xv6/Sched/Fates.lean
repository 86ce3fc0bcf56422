import Xv6.Sched.Dispatches

namespace Xv6.Sched

open Scheduler Transition

/-- The process is who it was, and its state changed at most by a wakeup or a `yield`. -/
structure Proc.Same (p p' : Proc) : Prop where
  state : p'.state = p.state ∨ p'.state = .runnable ∧ (p.state = .sleeping ∨ p.state = .running)
  pid : p'.pid = p.pid
  parent : p'.parent = p.parent
  chan : p'.chan = p.chan
  killed : p'.killed = p.killed

namespace Proc

theorem Same.refl (p : Proc) : p.Same p := ⟨.inl rfl, rfl, rfl, rfl, rfl⟩

theorem Booked.same {p p' : Proc} (booked : p.Booked p') : p.Same p' := by
  rw [booked]
  exact ⟨.inl rfl, rfl, rfl, rfl, rfl⟩

theorem updateRunsandOthers_same (p : Proc) : p.Same p.updateRunsandOthers := by
  unfold updateRunsandOthers
  cases at_p : p.state with
  | running => exact ⟨.inl at_p.symm, rfl, rfl, rfl, rfl⟩
  | sleeping => exact ⟨.inl at_p.symm, rfl, rfl, rfl, rfl⟩
  | _ => exact .refl p

theorem wakeup_same (p : Proc) (chan : Chan) : p.Same (p.wakeup chan) := by
  unfold wakeup
  split
  · next asleep => exact ⟨.inr ⟨rfl, .inl asleep.1⟩, rfl, rfl, rfl, rfl⟩
  · exact .refl p

theorem Same.trans {p q r : Proc} (first : p.Same q) (second : q.Same r) : p.Same r where
  state := by
    rcases second.state with same | ⟨awake, before⟩
    · rw [same]
      exact first.state
    · rcases first.state with same | ⟨awake', -⟩
      · rw [same] at before
        exact .inr ⟨awake, before⟩
      · rw [awake'] at before
        rcases before with h | h <;> cases h
  pid := second.pid.trans first.pid
  parent := second.parent.trans first.parent
  chan := second.chan.trans first.chan
  killed := second.killed.trans first.killed

theorem Same.asleep {p p' : Proc} (same : p.Same p') (asleep : p'.state = .sleeping) : p.state = .sleeping := by
  rcases same.state with old | ⟨awake, -⟩
  · exact old.symm.trans asleep
  · rw [awake] at asleep
    cases asleep

theorem Same.zombie {p p' : Proc} (same : p.Same p') (zombie : p'.state = .zombie) : p.state = .zombie := by
  rcases same.state with old | ⟨awake, -⟩
  · exact old.symm.trans zombie
  · rw [awake] at zombie
    cases zombie

theorem wakeup_awake {p : Proc} {chan : Chan} (asleep : (p.wakeup chan).state = .sleeping) :
    (p.wakeup chan).chan ≠ some chan := by
  unfold wakeup at *
  by_cases here : p.state = .sleeping ∧ p.chan = some chan
  · rw [if_pos here] at asleep
    cases asleep
  · rw [if_neg here] at asleep ⊢
    exact fun on_chan => here ⟨asleep, on_chan⟩

end Proc

namespace Table

variable (t : Table) (p initproc k : Slot)

theorem wakeParent_same : (t k).Same (t.wakeParent p k) := by
  unfold wakeParent
  cases (t p).parent with
  | some parent => exact (t k).wakeup_same _
  | none => exact .refl _

/-- What `exit` does to another process: a child is handed to init, anybody may be woken. -/
theorem abandon_same : ({ t k with parent := if (t k).parent = some p then some initproc else (t k).parent } : Proc).Same
    (t.abandon p initproc k) := by
  have woken : (t k).Same (if ∃ k, (t k).parent = some p ∧ (t k).state = .zombie
      then (t k).wakeup (.proc initproc) else t k) := by
    split
    · exact (t k).wakeup_same _
    · exact .refl _
  unfold abandon
  by_cases child : (t k).parent = some p
  · simp only [child, if_true]
    exact ⟨woken.state, woken.pid, rfl, woken.chan, woken.killed⟩
  · simp only [child, if_false]
    exact ⟨woken.state, woken.pid, woken.parent, woken.chan, woken.killed⟩

/-- The table of `exit` before the process itself becomes a ZOMBIE. -/
def left : Table := (t.wakeParent p).abandon p initproc

theorem exit_eq (ticks : Word) : t.exit p initproc ticks p = (t.left p initproc p).exit ticks := modify_self ..

theorem exit_other (ticks : Word) (ne : k ≠ p) : t.exit p initproc ticks k = t.left p initproc k := modify_of_ne _ _ ne

theorem left_same : ({ t k with parent := if (t k).parent = some p then some initproc else (t k).parent } : Proc).Same
    (t.left p initproc k) := by
  have first := t.wakeParent_same p k
  have second := (t.wakeParent p).abandon_same p initproc k
  refine Proc.Same.trans (q := { t.wakeParent p k with
    parent := if (t.wakeParent p k).parent = some p then some initproc else (t.wakeParent p k).parent }) ?_ second
  rw [first.parent]
  exact ⟨first.state, first.pid, rfl, first.chan, first.killed⟩

/-- The parent of the process that exits does not sleep in `wait` any more ... -/
theorem left_parent {q : Slot} (parent : (t p).parent = some q) (asleep : (t.left p initproc q).state = .sleeping) :
    (t.left p initproc q).chan ≠ some (.proc q) := by
  have second := (t.wakeParent p).abandon_same p initproc q
  have woken : (t.wakeParent p q).state = .sleeping → (t.wakeParent p q).chan ≠ some (.proc q) := by
    unfold wakeParent
    rw [parent]
    exact Proc.wakeup_awake
  rw [left, second.chan]
  exact woken (second.asleep asleep)

theorem left_init (child : (t k).parent = some p) (zombie : (t k).state = .zombie)
    (asleep : (t.left p initproc initproc).state = .sleeping) :
    (t.left p initproc initproc).chan ≠ some (.proc initproc) := by
  have first := t.wakeParent_same p k
  have dead : ∃ k, (t.wakeParent p k).parent = some p ∧ (t.wakeParent p k).state = .zombie := by
    refine ⟨k, first.parent.trans child, ?_⟩
    rcases first.state with same | ⟨-, before⟩
    · exact same.trans zombie
    · rw [zombie] at before
      rcases before with h | h <;> cases h
  unfold left abandon at *
  simp only [dead, if_true] at asleep ⊢
  by_cases own : (t.wakeParent p initproc).parent = some p
  · simp only [own, if_true] at asleep ⊢
    exact Proc.wakeup_awake asleep
  · simp only [own, if_false] at asleep ⊢
    exact Proc.wakeup_awake asleep

end Table

namespace Scheduler

variable (S : Scheduler) (s : State S.Frame)

/-- The process that executes on CPU `c`. -/
def caller (c : Nat) : Option Slot :=
  match s.cpu c with
  | .running f _ => some (S.proc f)
  | _ => none

def exited : Action → Option Slot
  | .exit c => S.caller s c
  | _ => none

/-- The slot that the process on CPU `c` is forking into. -/
def forking (c : Nat) : Option Slot :=
  (S.caller s c).bind fun p =>
    match s.task p with
    | .fork np => some np
    | _ => none

/-- The process that calls `wait` or `waitx` and the child that the call returns. -/
def reaped : Action → Option (Slot × Slot)
  | .wait c | .waitx c => (S.caller s c).bind fun p => (s.ptable.zombieOf p).map fun k => (p, k)
  | _ => none

end Scheduler

variable {S : Scheduler}

/-- What one step can do to slot `k`, as far as the identity of its process goes. -/
inductive Fate (S : Scheduler) (s : State S.Frame) (k : Slot) : Action → Proc → Prop
  | quiet (a : Action) (p : Proc) (same : (s.ptable k).Same p) : Fate S s k a p
  | run (c : Nat) (before : (s.ptable k).state = .runnable) : Fate S s k (.dispatch c) ((s.ptable k).run s.ticks)
  | sleep (a : Action) (chan : Chan) (before : (s.ptable k).state = .running)
    (away : ∀ j, chan = .proc j → j = k ∧ s.ptable.zombieOf k = none) : Fate S s k a ((s.ptable k).sleep chan)
  | left (c : Nat) (e : Slot) (other : k ≠ e) (exits : S.exited s (.exit c) = some e) (mortal : e ≠ initproc) :
    Fate S s k (.exit c) (s.ptable.left e initproc k)
  | exit (c : Nat) (exits : S.exited s (.exit c) = some k) (before : (s.ptable k).state = .running)
    (mortal : k ≠ initproc) : Fate S s k (.exit c) ((s.ptable.left k initproc k).exit s.ticks)
  | found (c : Nat) (here : s.creates (.fork c) = some k) (before : (s.ptable k).state = .unused) :
    Fate S s k (.fork c) ((s.ptable k).found s.nextpid s.ticks)
  | abandoned (c : Nat) (forking : S.forking s c = some k) (before : (s.ptable k).state = .embryo) :
    Fate S s k (.forkFails c) (s.ptable k).abandoned
  | ready (c : Nat) (parent : Slot) (before : (s.ptable k).state = .embryo)
    (running : (s.ptable parent).state = .running) : Fate S s k (.forkDone c) ((s.ptable k).ready parent)
  | reaped (a : Action) (p : Slot) (returned : S.reaped s a = some (p, k)) (before : (s.ptable k).state = .zombie)
    (clear : Proc → Proc) (clears : clear = .reaped ∨ clear = .reapedx) : Fate S s k a (clear (s.ptable k))
  | kill (c : Nat) (pid : Word) (here : s.ptable.withPid pid = some k) : Fate S s k (.kill c pid) (s.ptable k).kill
  | fault (c : Nat) (before : (s.ptable k).state = .running) : Fate S s k (.fault c) (s.ptable k).fault

namespace Fate

variable {s s' : State S.Frame} {c : Nat} {f : S.Frame} {i : Bool} {a : Action} {k : Slot}

theorem still : Fate S s k a (s.ptable k) := .quiet a _ (.refl _)

theorem modify (j : Slot) (change : Proc → Proc) (here : j = k → Fate S s k a (change (s.ptable k))) :
    Fate S s k a (s.ptable.modify j change k) := by
  by_cases same : k = j
  · subst same
    rw [Table.modify_self]
    exact here rfl
  · rw [Table.modify_of_ne _ _ same]
    exact still

theorem of_reap {clear : Proc → Proc} (clears : clear = .reaped ∨ clear = .reapedx) (held : Coherent s)
    (at_c : s.cpu c = .running f i)
    (returns : S.reaped s a = (s.ptable.zombieOf (S.proc f)).map fun k => (S.proc f, k)) :
    Fate S s k a ((S.reap s c f clear).ptable k) := by
  rcases S.reap_cases s c f clear with ⟨j, found, reaped⟩ | same | ⟨none, slept⟩
  · rw [reaped]
    refine modify j clear fun eq => ?_
    subst eq
    exact .reaped a (S.proc f) (by rw [returns, found]; rfl) (zombieOf_state found).2 clear clears
  · rw [same]
    exact still
  · rw [slept]
    refine modify (S.proc f) (·.sleep (.proc (S.proc f))) fun eq => ?_
    subst eq
    exact .sleep a _ (held.running at_c) fun j own => ⟨(Chan.proc.inj own).symm, none⟩

theorem of_call (held : Coherent s) (at_c : s.cpu a.cpu = .running f i) (called : Call S s a.cpu f a s') :
    Fate S s k a (s'.ptable k) := by
  have caller : S.caller s a.cpu = some (S.proc f) := by simp [Scheduler.caller, at_c]
  cases called with
  | sleep c chan free resting settled other =>
    refine modify (S.proc f) (·.sleep chan) fun eq => ?_
    subst eq
    exact .sleep _ chan (held.running at_c) fun j own => absurd own (other j)
  | exit c free resting mortal =>
    show Fate S s k _ (s.ptable.exit (S.proc f) initproc s.ticks k)
    by_cases same : k = S.proc f
    · subst same
      rw [s.ptable.exit_eq]
      exact .exit c caller (held.running at_c) mortal
    · rw [s.ptable.exit_other _ _ _ _ same]
      exact .left c _ same caller mortal
  | fork c np free resting found =>
    refine modify np (·.found s.nextpid s.ticks) fun eq => ?_
    subst eq
    exact .found c found (unused_state found)
  | full => exact still
  | forkFails c np forking =>
    refine modify np .abandoned fun eq => ?_
    subst eq
    refine .abandoned c ?_ (held.embryo _ _ forking)
    rw [Scheduler.forking, show S.caller s c = some (S.proc f) from caller, Option.bind_some, forking]
  | forkDone c np free forking =>
    refine modify np (·.ready (S.proc f)) fun eq => ?_
    subst eq
    exact .ready c _ (held.embryo _ _ forking) (held.running at_c)
  | wait c =>
    refine of_reap (.inl rfl) held at_c ?_
    rw [Scheduler.reaped, show S.caller s c = some (S.proc f) from caller, Option.bind_some]
  | waitx c =>
    refine of_reap (.inr rfl) held at_c ?_
    rw [Scheduler.reaped, show S.caller s c = some (S.proc f) from caller, Option.bind_some]
  | kill c pid j free resting found =>
    refine modify j .kill fun eq => ?_
    subst eq
    exact .kill c pid found
  | killNone => exact still
  | setPriority => exact still
  | refuse => exact still
  | assign c j priority =>
    exact modify j (·.setPriority priority) fun _ => .quiet _ _ ⟨.inl rfl, rfl, rfl, rfl, rfl⟩
  | fault c =>
    refine modify (S.proc f) .fault fun eq => ?_
    subst eq
    exact .fault c (held.running at_c)

theorem of_step (held : Coherent s) (taken : Step S s a s') : Fate S s k a (s'.ptable k) := by
  cases taken with
  | start c =>
    rw [Move.settle_ptable]
    exact .quiet _ _ (S.start_books _ _ k).same
  | dispatch c f at_c =>
    refine modify (S.proc f) (·.run s.ticks) fun eq => ?_
    subst eq
    exact .run c (held.picked at_c).2
  | resume c f =>
    rw [Move.settle_ptable]
    exact .quiet _ _ (S.resume_books _ _ _ k).same
  | tick => exact still
  | charge => exact .quiet _ _ (s.ptable k).updateRunsandOthers_same
  | wakeTicks => exact .quiet _ _ ((s.ptable k).wakeup_same _)
  | interrupt => exact still
  | wakeup => exact .quiet _ _ ((s.ptable k).wakeup_same _)
  | yield c f interrupted at_c =>
    refine modify (S.proc f) .yield fun eq => ?_
    subst eq
    exact .quiet _ _ ⟨.inr ⟨rfl, .inr (held.running at_c)⟩, rfl, rfl, rfl, rfl⟩
  | call a f interrupted s' at_c awake killed called => exact of_call held at_c called

end Fate

end Xv6.Sched
