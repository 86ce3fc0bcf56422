import Xv6.Sched.Coherent

namespace Xv6.Sched

open Scheduler

def Proc.Kept (p p' : Proc) : Prop :=
  p' = { p with
    state := p'.state
    pid := p'.pid
    parent := p'.parent
    chan := p'.chan
    killed := p'.killed
    priority := p'.priority }

namespace Proc

theorem Kept.refl (p : Proc) : p.Kept p := rfl

theorem Kept.trans {p q r : Proc} (first : p.Kept q) (second : q.Kept r) : p.Kept r := by
  unfold Kept at *
  rw [second, first]

theorem wakeup_kept (p : Proc) (chan : Chan) : p.Kept (p.wakeup chan) := by
  unfold wakeup
  split
  · rfl
  · exact .refl p

end Proc

namespace Table

theorem wakeParent_kept (t : Table) (p k : Slot) : (t k).Kept (t.wakeParent p k) := by
  unfold wakeParent
  cases (t p).parent with
  | some parent => exact (t k).wakeup_kept _
  | none => exact .refl _

theorem abandon_kept (t : Table) (p initproc k : Slot) : (t k).Kept (t.abandon p initproc k) := by
  have kept : (t k).Kept (if ∃ k, (t k).parent = some p ∧ (t k).state = .zombie
      then (t k).wakeup (.proc initproc) else t k) := by
    split
    · exact (t k).wakeup_kept _
    · exact .refl _
  unfold abandon
  by_cases child : (t k).parent = some p
  · simp only [child, if_true]
    exact kept.trans rfl
  · simpa only [child, if_false] using kept

theorem exit_kept (t : Table) {p k : Slot} (initproc : Slot) (ticks : Word) (ne : k ≠ p) :
    (t k).Kept (t.exit p initproc ticks k) := by
  unfold exit
  rw [modify_of_ne _ _ ne]
  exact (t.wakeParent_kept p k).trans (abandon_kept _ p initproc k)

theorem exit_same (t : Table) (p initproc : Slot) (ticks : Word) :
    ({ t p with etime := ticks } : Proc).Kept (t.exit p initproc ticks p) := by
  have kept := (t.wakeParent_kept p p).trans (abandon_kept _ p initproc p)
  unfold exit
  rw [modify_self]
  unfold Proc.Kept Proc.exit at *
  rw [kept]

end Table

def State.creates {Frame : Type} (s : State Frame) : Action → Option Slot
  | .fork _ => s.ptable.unused
  | _ => none

variable {S : Scheduler}

/-- What one step can do to slot `k`, as far as the counters go. -/
inductive Move (S : Scheduler) (s : State S.Frame) (k : Slot) : Action → Proc → Prop
  | quiet (a : Action) (p : Proc) (plain : a ≠ .charge) (old : s.creates a ≠ some k)
    (kept : (s.ptable k).Kept p) (woken : (s.ptable k).Woken p) : Move S s k a p
  | switch (a : Action) (p : Proc) (plain : a ≠ .charge) (old : s.creates a ≠ some k) (clock : a ≠ .tick)
    (kept : (s.ptable k).Kept p) (before : (s.ptable k).state = .running)
    (after : p.state = .runnable ∨ p.state = .sleeping) : Move S s k a p
  | exit (c : Nat) (p : Proc) (kept : ({ s.ptable k with etime := s.ticks } : Proc).Kept p)
    (before : (s.ptable k).state = .running) (after : p.state = .zombie) : Move S s k (.exit c) p
  | start (c : Nat) (free : s.lock = none) :
    Move S s k (.start c) ((S.start s.ticks s.ptable).1 k)
  | resume (c : Nat) (f : S.Frame) (at_c : s.cpu c = .back f) :
    Move S s k (.resume c) ((S.resume s.ticks f s.ptable).1 k)
  | run (c : Nat) (f : S.Frame) (at_c : s.cpu c = .picked f) (same : S.proc f = k)
    (before : (s.ptable k).state = .runnable) : Move S s k (.dispatch c) ((s.ptable k).run s.ticks)
  | charge (free : s.lock = none) (counted : s.timer = .counted) :
    Move S s k .charge (s.ptable k).updateRunsandOthers
  | found (c : Nat) (here : s.creates (.fork c) = some k) (before : (s.ptable k).state = .unused) :
    Move S s k (.fork c) ((s.ptable k).found s.nextpid s.ticks)
  | abandoned (c : Nat) (before : (s.ptable k).state = .embryo) :
    Move S s k (.forkFails c) (s.ptable k).abandoned
  | ready (c : Nat) (parent : Slot) (before : (s.ptable k).state = .embryo) :
    Move S s k (.forkDone c) ((s.ptable k).ready parent)
  | reaped (c : Nat) (before : (s.ptable k).state = .zombie) : Move S s k (.wait c) (s.ptable k).reaped
  | reapedx (c : Nat) (before : (s.ptable k).state = .zombie) : Move S s k (.waitx c) (s.ptable k).reapedx

namespace Move

variable {s s' : State S.Frame} {c : Nat} {f : S.Frame} {i : Bool} {a : Action} {k : Slot}

theorem still (a : Action) (plain : a ≠ .charge) (old : s.creates a ≠ some k) : Move S s k a (s.ptable k) :=
  .quiet a _ plain old (.refl _) (.refl _)

/-- A step that changes one slot: what holds there and what holds elsewhere. -/
theorem modify {t : Table} (j : Slot) (change : Proc → Proc) (new : t = s.ptable.modify j change)
    (here : j = k → Move S s k a (change (s.ptable k))) (plain : a ≠ .charge)
    (old : k ≠ j → s.creates a ≠ some k) : Move S s k a (t k) := by
  subst new
  by_cases same : k = j
  · subst same
    rw [Table.modify_self]
    exact here rfl
  · rw [Table.modify_of_ne _ _ same]
    exact still a plain (old same)

theorem of_reap (clears : Proc → Proc) (held : Coherent s) (at_c : s.cpu c = .running f i) (plain : a ≠ .charge)
    (old : ∀ k, s.creates a ≠ some k) (clock : a ≠ .tick)
    (cleared : (s.ptable k).state = .zombie → Move S s k a (clears (s.ptable k))) :
    Move S s k a ((S.reap s c f clears).ptable k) := by
  rcases S.reap_cases s c f clears with ⟨j, found, reaped⟩ | same | ⟨-, slept⟩
  · rw [reaped]
    refine modify j clears rfl (fun eq => ?_) plain (fun _ => old k)
    subst eq
    exact cleared (zombieOf_state found).2
  · rw [same]
    exact still a plain (old k)
  · rw [slept]
    refine modify (S.proc f) (·.sleep (.proc (S.proc f))) rfl (fun eq => ?_) plain (fun _ => old k)
    subst eq
    exact .switch a _ plain (old _) clock rfl (held.running at_c) (.inr rfl)

theorem of_call (held : Coherent s) (at_c : s.cpu c = .running f i) (called : Call S s c f a s') :
    Move S s k a (s'.ptable k) := by
  cases called with
  | sleep c' chan =>
    refine modify (S.proc f) (·.sleep chan) rfl (fun eq => ?_) (by simp) (by simp [State.creates])
    subst eq
    exact .switch _ _ (by simp) (by simp [State.creates]) (by simp) rfl (held.running at_c) (.inr rfl)
  | exit c' =>
    by_cases same : k = S.proc f
    · subst same
      exact .exit c' _ (s.ptable.exit_same _ _ _) (held.running at_c) (s.ptable.exit_self _ _ _)
    · exact .quiet _ _ (by simp) (by simp [State.creates]) (s.ptable.exit_kept _ _ same) (s.ptable.exit_woken _ _ same)
  | fork c' np free resting found =>
    refine modify np (·.found s.nextpid s.ticks) rfl (fun eq => ?_) (by simp) (fun ne => ?_)
    · subst eq
      exact .found c' found (unused_state found)
    · rw [show s.creates (.fork c') = some np from found]
      exact fun eq => ne (Option.some.inj eq).symm
  | full c' free resting none =>
    refine still _ (by simp) ?_
    rw [show s.creates (.fork c') = .none from none]
    simp
  | forkFails c' np forking =>
    refine modify np .abandoned rfl (fun eq => ?_) (by simp) (by simp [State.creates])
    subst eq
    exact .abandoned c' (held.embryo _ _ forking)
  | forkDone c' np free forking =>
    refine modify np (·.ready (S.proc f)) rfl (fun eq => ?_) (by simp) (by simp [State.creates])
    subst eq
    exact .ready c' _ (held.embryo _ _ forking)
  | wait c' =>
    exact of_reap .reaped held at_c (by simp) (by simp [State.creates]) (by simp) (.reaped c')
  | waitx c' =>
    exact of_reap .reapedx held at_c (by simp) (by simp [State.creates]) (by simp) (.reapedx c')
  | kill c' pid j =>
    exact modify j .kill rfl (fun _ => .quiet _ _ (by simp) (by simp [State.creates]) rfl (s.ptable k).kill_woken) (by simp)
      (by simp [State.creates])
  | killNone => exact still _ (by simp) (by simp [State.creates])
  | setPriority => exact still _ (by simp) (by simp [State.creates])
  | refuse => exact still _ (by simp) (by simp [State.creates])
  | assign c' j priority =>
    exact modify j (·.setPriority priority) rfl (fun _ => .quiet _ _ (by simp) (by simp [State.creates]) rfl (.inl rfl)) (by simp)
      (by simp [State.creates])
  | fault c' =>
    exact modify (S.proc f) .fault rfl (fun _ => .quiet _ _ (by simp) (by simp [State.creates]) rfl (.inl rfl)) (by simp)
      (by simp [State.creates])

theorem settle_ptable (s : State S.Frame) (c : Nat) (turn : Table × Option S.Frame) :
    (S.settle s c turn).ptable = turn.1 := by
  unfold settle
  cases turn.2 <;> rfl

theorem of_step (held : Coherent s) (taken : Step S s a s') : Move S s k a (s'.ptable k) := by
  cases taken with
  | start c idle awake free =>
    rw [settle_ptable]
    exact .start c free
  | dispatch c f at_c =>
    refine modify (S.proc f) (·.run s.ticks) rfl (fun eq => ?_) (by simp) (by simp [State.creates])
    subst eq
    exact .run c f at_c rfl (held.picked at_c).2
  | resume c f at_c =>
    rw [settle_ptable]
    exact .resume c f at_c
  | tick => exact still _ (by simp) (by simp [State.creates])
  | charge counted free => exact .charge free counted
  | wakeTicks => exact .quiet _ _ (by simp) (by simp [State.creates]) (Proc.wakeup_kept _ _) (Proc.wakeup_woken _ _)
  | interrupt => exact still _ (by simp) (by simp [State.creates])
  | wakeup => exact .quiet _ _ (by simp) (by simp [State.creates]) (Proc.wakeup_kept _ _) (Proc.wakeup_woken _ _)
  | yield c f interrupted at_c =>
    refine modify (S.proc f) .yield rfl (fun eq => ?_) (by simp) (by simp [State.creates])
    subst eq
    exact .switch _ _ (by simp) (by simp [State.creates]) (by simp) rfl (held.running at_c) (.inl rfl)
  | call a f interrupted s' at_c awake killed called => exact of_call held at_c called

end Move

/-- The CPU after the scheduler has come to an end or to a process. -/
def Cpu.seat {Frame : Type} : Option Frame → Cpu Frame
  | some f => .picked f
  | none => .idle

/-- What one step can do to CPU `d`. -/
inductive Turn (S : Scheduler) (s : State S.Frame) (d : Nat) (s' : State S.Frame) : Action → Prop
  | still (a : Action) (same : s'.cpu d = s.cpu d) (start : a ≠ .start d) (dispatch : a ≠ .dispatch d)
    (resume : a ≠ .resume d) (wakes : a = .wakeTicks → d = 0 → ∀ f i, s.cpu d ≠ .running f i) : Turn S s d s' a
  | start (idle : s.cpu d = .idle) (awake : s.Awake d) (free : s.lock = none)
    (table : s'.ptable = (S.start s.ticks s.ptable).1)
    (seat : s'.cpu d = .seat (S.start s.ticks s.ptable).2) : Turn S s d s' (.start d)
  | dispatch (f : S.Frame) (at_d : s.cpu d = .picked f) (table : s'.ptable = s.ptable.modify (S.proc f) (·.run s.ticks))
    (seat : s'.cpu d = .running f false) : Turn S s d s' (.dispatch d)
  | resume (f : S.Frame) (at_d : s.cpu d = .back f) (table : s'.ptable = (S.resume s.ticks f s.ptable).1)
    (seat : s'.cpu d = .seat (S.resume s.ticks f s.ptable).2) : Turn S s d s' (.resume d)
  | wakeTicks (f : S.Frame) (i : Bool) (zero : d = 0) (at_d : s.cpu d = .running f i)
    (seat : s'.cpu d = .running f S.timerYields) : Turn S s d s' .wakeTicks
  | interrupt (f : S.Frame) (at_d : s.cpu d = .running f false) (ne : d ≠ 0) (yields : S.timerYields = true)
    (seat : s'.cpu d = .running f true) : Turn S s d s' (.interrupt d)
  | yield (f : S.Frame) (i : Bool) (at_d : s.cpu d = .running f i) (awake : s.Awake d) (free : s.lock = none)
    (due : i = true ∨ s.task (S.proc f) = .yielding) (seat : s'.cpu d = .back f) : Turn S s d s' (.yield d)
  | leave (a : Action) (f : S.Frame) (i : Bool) (at_d : s.cpu d = .running f i) (awake : s.Awake d)
    (mine : a.cpu = d) (called : a.isCall = true)
    (gone : (s'.ptable (S.proc f)).state = .sleeping ∨ (s'.ptable (S.proc f)).state = .zombie)
    (seat : s'.cpu d = .back f) : Turn S s d s' a

namespace Turn

variable {s s' : State S.Frame} {a : Action} {d : Nat} {g : S.Frame}

theorem settle_seat (s : State S.Frame) (c : Nat) (turn : Table × Option S.Frame) :
    (S.settle s c turn).cpu = Function.update s.cpu c (.seat turn.2) := by
  unfold settle
  cases turn.2 <;> rfl

theorem of_call (called : a.isCall = true) (same : s'.cpu d = s.cpu d) : Turn S s d s' a := by
  refine .still a same ?_ ?_ ?_ ?_
  · rintro rfl
    cases called
  · rintro rfl
    cases called
  · rintro rfl
    cases called
  · rintro rfl
    cases called

theorem of_sched {c : Nat} {f : S.Frame} {i : Bool} {t : Table} (at_c : s.cpu c = .running f i) (awake : s.Awake c)
    (mine : a.cpu = c) (called : a.isCall = true)
    (gone : (t (S.proc f)).state = .sleeping ∨ (t (S.proc f)).state = .zombie) (new : s' = S.sched s c f t) :
    Turn S s d s' a := by
  subst new
  by_cases same : d = c
  · subst same
    exact .leave a f i at_c awake mine called gone (Function.update_self ..)
  · exact of_call called (Function.update_of_ne same ..)

theorem of_reap {c : Nat} {f : S.Frame} {i : Bool} {clear : Proc → Proc} (at_c : s.cpu c = .running f i)
    (awake : s.Awake c) (mine : a.cpu = c) (called : a.isCall = true) : Turn S s d (S.reap s c f clear) a := by
  rcases S.reap_cases s c f clear with ⟨k, -, reaped⟩ | same | ⟨-, slept⟩
  · rw [reaped]
    exact of_call called rfl
  · rw [same]
    exact of_call called rfl
  · exact of_sched at_c awake mine called (.inl (by simp [Proc.sleep])) slept

theorem of_step (taken : Step S s a s') (d : Nat) : Turn S s d s' a := by
  cases taken with
  | start c idle awake free =>
    by_cases same : d = c
    · subst same
      exact .start idle awake free (Move.settle_ptable ..) (by rw [settle_seat, Function.update_self])
    · refine .still _ (by rw [settle_seat, Function.update_of_ne same]) ?_ (by simp) (by simp) (by simp)
      simpa using Ne.symm same
  | dispatch c f at_c =>
    by_cases same : d = c
    · subst same
      exact .dispatch f at_c rfl (Function.update_self ..)
    · refine .still _ (Function.update_of_ne same ..) (by simp) ?_ (by simp) (by simp)
      simpa using Ne.symm same
  | resume c f at_c =>
    by_cases same : d = c
    · subst same
      exact .resume f at_c (Move.settle_ptable ..) (by rw [settle_seat, Function.update_self])
    · refine .still _ (by rw [settle_seat, Function.update_of_ne same]) (by simp) (by simp) ?_ (by simp)
      simpa using Ne.symm same
  | tick => exact .still _ rfl (by simp) (by simp) (by simp) (by simp)
  | charge => exact .still _ rfl (by simp) (by simp) (by simp) (by simp)
  | wakeTicks cpu charged free others at_0 =>
    by_cases zero : d = 0
    · subst zero
      rcases at_0 with ⟨same, away⟩ | ⟨f, i, before, after⟩
      · exact .still _ same (by simp) (by simp) (by simp) (fun _ _ => away)
      · exact .wakeTicks f i rfl before after
    · exact .still _ (others d zero) (by simp) (by simp) (by simp) (fun _ eq => absurd eq zero)
  | interrupt c f at_c ne yields =>
    by_cases same : d = c
    · subst same
      exact .interrupt f at_c ne yields (Function.update_self ..)
    · exact .still _ (Function.update_of_ne same ..) (by simp) (by simp) (by simp) (by simp)
  | wakeup => exact .still _ rfl (by simp) (by simp) (by simp) (by simp)
  | yield c f interrupted at_c awake free due =>
    by_cases same : d = c
    · subst same
      exact .yield f interrupted at_c awake free due (Function.update_self ..)
    · exact .still _ (Function.update_of_ne same ..) (by simp) (by simp) (by simp) (by simp)
  | call a f interrupted s' at_c awake killed called =>
    cases called with
    | sleep => exact of_sched at_c awake rfl rfl (.inl (by simp [Proc.sleep])) rfl
    | exit => exact of_sched at_c awake rfl rfl (.inr (by simp)) rfl
    | wait => exact of_reap at_c awake rfl rfl
    | waitx => exact of_reap at_c awake rfl rfl
    | fork => exact of_call rfl rfl
    | full => exact of_call rfl rfl
    | forkFails => exact of_call rfl rfl
    | forkDone => exact of_call rfl rfl
    | kill => exact of_call rfl rfl
    | killNone => exact of_call rfl rfl
    | setPriority => exact of_call rfl rfl
    | refuse => exact of_call rfl rfl
    | assign => exact of_call rfl rfl
    | fault => exact of_call rfl rfl

theorem frame_same (turn : Turn S s d s' a) (start : a ≠ .start d) (resume : a ≠ .resume d) :
    (s'.cpu d).frame = (s.cpu d).frame := by
  cases turn with
  | still a same => rw [same]
  | start => exact absurd rfl start
  | resume => exact absurd rfl resume
  | dispatch f before table seat => rw [seat, before]; rfl
  | wakeTicks f i zero before seat => rw [seat, before]; rfl
  | interrupt f before ne yields seat => rw [seat, before]; rfl
  | yield f i before awake free due seat => rw [seat, before]; rfl
  | leave a f i before awake mine called gone seat => rw [seat, before]; rfl

theorem started (turn : Turn S s d s' (.start d)) :
    s.cpu d = .idle ∧ s.lock = none ∧ s'.ptable = (S.start s.ticks s.ptable).1 ∧
      s'.cpu d = .seat (S.start s.ticks s.ptable).2 := by
  cases turn with
  | still a same start => exact absurd rfl start
  | leave a f i at_d awake mine called => cases called
  | start idle awake free table seat => exact ⟨idle, free, table, seat⟩

theorem dispatched (turn : Turn S s d s' (.dispatch d)) : ∃ f, s.cpu d = .picked f ∧ s'.cpu d = .running f false := by
  cases turn with
  | still a same start dispatch => exact absurd rfl dispatch
  | leave a f i at_d awake mine called => cases called
  | dispatch f at_d table seat => exact ⟨f, at_d, seat⟩

theorem resumed (turn : Turn S s d s' (.resume d)) :
    ∃ f, s.cpu d = .back f ∧ s'.ptable = (S.resume s.ticks f s.ptable).1 ∧
      s'.cpu d = .seat (S.resume s.ticks f s.ptable).2 := by
  cases turn with
  | still a same start dispatch resume => exact absurd rfl resume
  | leave a f i at_d awake mine called => cases called
  | resume f at_d table seat => exact ⟨f, at_d, table, seat⟩

theorem stays (turn : Turn S s d s' a) (off : ∀ f i, s.cpu d ≠ .running f i) (start : s.cpu d = .idle → a ≠ .start d)
    (dispatch : ∀ f, s.cpu d = .picked f → a ≠ .dispatch d) (resume : ∀ f, s.cpu d = .back f → a ≠ .resume d) :
    s'.cpu d = s.cpu d := by
  cases turn with
  | still a same => exact same
  | start idle => exact absurd rfl (start idle)
  | dispatch f at_d => exact absurd rfl (dispatch f at_d)
  | resume f at_d => exact absurd rfl (resume f at_d)
  | wakeTicks f i zero at_d => exact absurd at_d (off f i)
  | interrupt f at_d => exact absurd at_d (off f false)
  | yield f i at_d => exact absurd at_d (off f i)
  | leave a f i at_d => exact absurd at_d (off f i)

theorem idle_stays (turn : Turn S s d s' a) (at_d : s.cpu d = .idle) (start : a ≠ .start d) : s'.cpu d = .idle := by
  rw [← at_d]
  apply turn.stays
  all_goals
    rw [at_d]
    first | exact fun _ => start | nofun

theorem back_stays (turn : Turn S s d s' a) (at_d : s.cpu d = .back g) (resume : a ≠ .resume d) : s'.cpu d = .back g := by
  rw [← at_d]
  apply turn.stays
  all_goals
    rw [at_d]
    first | exact fun _ _ => resume | nofun

theorem frame_cases (turn : Turn S s d s' a) (at_d : (s'.cpu d).frame = some g) :
    (s.cpu d).frame = some g ∧ a ≠ .start d ∧ a ≠ .resume d ∨
      a = .start d ∧ s.lock = none ∧ (S.start s.ticks s.ptable).2 = some g ∨
      a = .resume d ∧ ∃ f, s.cpu d = .back f ∧ (S.resume s.ticks f s.ptable).2 = some g := by
  have seated : ∀ {x : Option S.Frame}, (Cpu.seat x).frame = some g → x = some g := by
    intro x at_x
    cases x with
    | none => cases at_x
    | some f => exact at_x
  by_cases start : a = .start d
  · subst start
    obtain ⟨-, free, -, seat⟩ := turn.started
    rw [seat] at at_d
    exact .inr (.inl ⟨rfl, free, seated at_d⟩)
  by_cases resume : a = .resume d
  · subst resume
    obtain ⟨f, before, -, seat⟩ := turn.resumed
    rw [seat] at at_d
    exact .inr (.inr ⟨rfl, f, before, seated at_d⟩)
  exact .inl ⟨(turn.frame_same start resume).symm.trans at_d, start, resume⟩

end Turn

/-- A tick that has been counted but not yet charged to the processes. -/
def Timer.lag : Timer → Nat
  | .counted => 1
  | _ => 0

inductive Clock (s s' : State S.Frame) : Action → Prop
  | tick (before : s.timer = .ready) (after : s'.timer = .counted) (ticks : s'.ticks = s.ticks + 1) : Clock s s' .tick
  | charge (before : s.timer = .counted) (after : s'.timer = .charged) (ticks : s'.ticks = s.ticks) :
    Clock s s' .charge
  | wakeTicks (before : s.timer = .charged) (after : s'.timer = .ready) (ticks : s'.ticks = s.ticks) :
    Clock s s' .wakeTicks
  | still (a : Action) (timer : s'.timer = s.timer) (ticks : s'.ticks = s.ticks) (tick : a ≠ .tick)
    (charge : a ≠ .charge) (wakeTicks : a ≠ .wakeTicks) : Clock s s' a

theorem Clock.of_step {s s' : State S.Frame} {a : Action} (taken : Step S s a s') : Clock s s' a := by
  have settled : ∀ c turn, (S.settle s c turn).timer = s.timer ∧ (S.settle s c turn).ticks = s.ticks := by
    intro c turn
    unfold settle
    cases turn.2 <;> exact ⟨rfl, rfl⟩
  have reaped : ∀ c f clear, (S.reap s c f clear).timer = s.timer ∧ (S.reap s c f clear).ticks = s.ticks := by
    intro c f clear
    rcases S.reap_cases s c f clear with ⟨k, -, eq⟩ | eq | ⟨-, eq⟩ <;> rw [eq] <;> exact ⟨rfl, rfl⟩
  cases taken with
  | start => exact .still _ (settled ..).1 (settled ..).2 (by simp) (by simp) (by simp)
  | resume => exact .still _ (settled ..).1 (settled ..).2 (by simp) (by simp) (by simp)
  | tick at_0 ready => exact .tick ready rfl rfl
  | charge counted => exact .charge counted rfl rfl
  | wakeTicks cpu charged => exact .wakeTicks charged rfl rfl
  | call a f interrupted s' at_c awake killed called =>
    cases called with
    | wait => exact .still _ (reaped ..).1 (reaped ..).2 (by simp) (by simp) (by simp)
    | waitx => exact .still _ (reaped ..).1 (reaped ..).2 (by simp) (by simp) (by simp)
    | _ => exact .still _ rfl rfl (by simp) (by simp) (by simp)
  | _ => exact .still _ rfl rfl (by simp) (by simp) (by simp)

theorem Clock.stands {s s' : State S.Frame} {a : Action} (clock : Clock s s' a) (tick : a ≠ .tick) (charge : a ≠ .charge)
    (wakeTicks : a ≠ .wakeTicks) : s'.timer = s.timer ∧ s'.ticks = s.ticks := by
  cases clock with
  | tick => exact absurd rfl tick
  | charge => exact absurd rfl charge
  | wakeTicks => exact absurd rfl wakeTicks
  | still a timer ticks => exact ⟨timer, ticks⟩

namespace Coherent

variable {s : State S.Frame} {c d : Nat} {f g : S.Frame}

/-- A CPU with a frame that does not hold the lock is executing the process. -/
theorem runs (held : Coherent s) (at_d : (s.cpu d).frame = some f) (away : s.lock ≠ some d) :
    (s.ptable (S.proc f)).state = .running := by
  have agrees := held.agrees d
  cases at_cpu : s.cpu d with
  | idle =>
    rw [at_cpu] at at_d
    cases at_d
  | picked f' =>
    rw [at_cpu] at agrees
    exact absurd agrees.1 away
  | running f' i =>
    rw [at_cpu] at at_d
    cases at_d
    exact held.running at_cpu
  | back f' =>
    rw [at_cpu] at agrees
    exact absurd agrees.1 away

/-- The scheduler of another CPU leaves the process at CPU `d` alone when it begins a pass ... -/
theorem spared_start (held : Coherent s) (at_d : (s.cpu d).frame = some f) (free : s.lock = none) :
    (S.start s.ticks s.ptable).1 (S.proc f) = s.ptable (S.proc f) := by
  refine S.start_spares _ _ _ fun runnable => ?_
  have running := held.runs at_d (by simp [free])
  rw [show (s.ptable (S.proc f)).state = .runnable from runnable] at running
  cases running

theorem spared_resume (held : Coherent s) (at_d : (s.cpu d).frame = some f) (at_c : s.cpu c = .back g) (ne : d ≠ c) :
    (S.resume s.ticks g s.ptable).1 (S.proc f) = s.ptable (S.proc f) := by
  obtain ⟨mine, switched⟩ := held.back at_c
  have running := held.runs at_d (by simp [mine, Ne.symm ne])
  refine S.resume_spares _ _ _ _ (fun eq => ?_) (fun runnable => ?_)
  · rw [eq] at running
    rw [running] at switched
    rcases switched with h | h | h <;> cases h
  · rw [show (s.ptable (S.proc f)).state = .runnable from runnable] at running
    cases running

end Coherent

def Seated (s : State S.Frame) : Prop :=
  ∀ k, (s.ptable k).state = .running → ∃ c f i, s.cpu c = .running f i ∧ S.proc f = k

section Seated

variable {s s' : State S.Frame} {a : Action} {c : Nat} {f : S.Frame} {i : Bool} {k : Slot}

theorem Turn.of_running (turn : Turn S s c s' a) (at_c : s.cpu c = .running f i) :
    (∃ j, s'.cpu c = .running f j) ∨ s'.cpu c = .back f := by
  cases turn with
  | still a same => exact .inl ⟨i, same.trans at_c⟩
  | start idle =>
    rw [at_c] at idle
    cases idle
  | dispatch g before =>
    rw [at_c] at before
    cases before
  | resume g before =>
    rw [at_c] at before
    cases before
  | wakeTicks g j zero before seat =>
    rw [at_c] at before
    cases before
    exact .inl ⟨_, seat⟩
  | interrupt g before ne yields seat =>
    rw [at_c] at before
    cases before
    exact .inl ⟨_, seat⟩
  | yield g j before awake free due seat =>
    rw [at_c] at before
    cases before
    exact .inr seat
  | leave a g j before awake mine called gone seat =>
    rw [at_c] at before
    cases before
    exact .inr seat

theorem Seated.gone (seated : Seated s) (held' : Coherent s') (taken : Step S s a s')
    (before : (s.ptable k).state = .running) :
    (∃ c f i, s'.cpu c = .running f i ∧ S.proc f = k) ∨
      (∃ c f, s'.cpu c = .back f ∧ S.proc f = k) ∧ (s'.ptable k).state ≠ .running := by
  obtain ⟨c, f, i, at_c, rfl⟩ := seated k before
  rcases (Turn.of_step taken c).of_running at_c with ⟨j, after⟩ | after
  · exact .inl ⟨c, f, j, after, rfl⟩
  · refine .inr ⟨⟨c, f, after, rfl⟩, fun running => ?_⟩
    have switched := (held'.back after).2
    rw [running] at switched
    rcases switched with h | h | h <;> cases h

theorem Seated.step (seated : Seated s) (held : Coherent s) (taken : Step S s a s') : Seated s' := by
  intro k running
  have held' := held.step taken
  have old : (s.ptable k).state = .running → ∃ c f i, s'.cpu c = .running f i ∧ S.proc f = k := fun before =>
    (seated.gone held' taken before).resolve_right fun gone => gone.2 running
  have turn := fun c => Turn.of_step taken c
  have move : Move S s k a (s'.ptable k) := Move.of_step held taken
  generalize at_k : s'.ptable k = p at move running
  cases move with
  | quiet a p plain old' kept woken =>
    rcases woken with same | ⟨-, awake⟩
    · exact old (same ▸ running)
    · rw [awake] at running
      cases running
  | switch a p plain old' clock kept before after =>
    rcases after with h | h <;> rw [h] at running <;> cases running
  | exit c p kept before after =>
    rw [after] at running
    cases running
  | start c free => exact old ((S.start_books _ _ k).state ▸ running)
  | resume c f at_c => exact old ((S.resume_books _ _ _ k).state ▸ running)
  | run c f at_c same before =>
    subst same
    cases turn c with
    | dispatch g at_d table seat =>
      rw [at_c] at at_d
      cases at_d
      exact ⟨c, f, false, seat, rfl⟩
    | still a same start dispatch => exact absurd rfl dispatch
    | leave a g j before awake mine called => cases called
  | charge free counted => exact old (by simpa using running)
  | found => cases running
  | abandoned => cases running
  | ready => cases running
  | reaped => cases running
  | reapedx => cases running

theorem Seated.boot : Seated S.boot := by
  intro k running
  by_cases eq : k = initproc
  · subst eq
    simp [Scheduler.boot] at running
  · simp [Scheduler.boot, eq] at running

end Seated

end Xv6.Sched
