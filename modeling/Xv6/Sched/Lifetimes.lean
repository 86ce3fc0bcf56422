import Xv6.Sched.Waitx

namespace Xv6.Sched

open Scheduler Transition

variable {S : Scheduler} {s s' : State S.Frame} {a : Action} {past : List (State S.Frame × Action)} {k : Slot}

/-! ### One CPU -/

/-- CPU 0 takes the timer interrupt only where it does not hold the lock. -/
def Interruptible (s : State S.Frame) : Prop :=
  s.timer ≠ .ready → ∀ f, s.cpu 0 ≠ .picked f ∧ s.cpu 0 ≠ .back f

theorem Interruptible.handles (held : Interruptible s) (taken : S.Under OneCpu s a s') (busy : s.timer ≠ .ready) :
    a = .charge ∨ a = .wakeTicks := by
  have one : a.cpu = 0 := taken.2
  have asleep : ¬ s.Awake 0 := fun awake => busy (awake rfl)
  cases step_cases taken.1 with
  | start c idle awake =>
    cases one
    exact absurd awake asleep
  | dispatch c f at_c =>
    cases one
    exact absurd at_c (held busy f).1
  | resume c f at_c =>
    cases one
    exact absurd at_c (held busy f).2
  | tick at_0 ready => exact absurd ready busy
  | charge => exact .inl rfl
  | wakeTicks => exact .inr rfl
  | interrupt c f at_c ne => exact absurd one ne
  | wakeup c address awake =>
    cases one
    exact absurd awake asleep
  | yield c f i at_c awake =>
    cases one
    exact absurd awake asleep
  | call a f i s' at_c awake =>
    rw [one] at awake
    exact absurd awake asleep

theorem Interruptible.step (held : Interruptible s) (taken : S.Under OneCpu s a s') : Interruptible s' := by
  intro busy
  have turn : Turn S s 0 s' a := Turn.of_step (step_cases taken.1) 0
  have clock : Clock s s' a := Clock.of_step (step_cases taken.1)
  have kept : s'.cpu 0 = s.cpu 0 → s.timer ≠ .ready → ∀ f, s'.cpu 0 ≠ .picked f ∧ s'.cpu 0 ≠ .back f := by
    intro same before
    rw [same]
    exact held before
  cases clock with
  | tick before after ticks =>
    cases step_cases taken.1 with
    | tick at_0 ready =>
      intro f
      rcases at_0 with h | ⟨g, h⟩ <;> simp [h]
    | call a f i s' at_c awake killed called => cases called
  | charge before after ticks =>
    cases step_cases taken.1 with
    | charge => exact held (by simp [before])
    | call a f i s' at_c awake killed called => cases called
  | wakeTicks before after ticks => exact absurd after busy
  | still a timer ticks tick charge wakeTicks =>
    rw [timer] at busy
    rcases held.handles taken busy with rfl | rfl
    · exact absurd rfl charge
    · exact absurd rfl wakeTicks

theorem Interruptible.boot : Interruptible S.boot := fun busy => absurd rfl busy

/-! ### Ticks of a lifetime -/

/-- The part of the history since the creation of the process in slot `k`. -/
def life (k : Slot) (past : List (State S.Frame × Action)) : List (State S.Frame × Action) :=
  past.takeWhile (fun entry => entry.1.creates entry.2 ≠ some k)

/-- The ticks of that time which occurred while the process was in one of the given states. -/
def ticksWhile (k : Slot) (states : ProcState → Bool) (past : List (State S.Frame × Action)) : Nat :=
  (life k past).countP (fun entry => entry.2 = .tick ∧ states (entry.1.ptable k).state)

def isRunning (state : ProcState) : Bool := state = .running
def isSleeping (state : ProcState) : Bool := state = .sleeping
def isWaiting (state : ProcState) : Bool := state = .embryo ∨ state = .runnable
def isLive (state : ProcState) : Bool := state.Live

variable {states : ProcState → Bool}

theorem ticksWhile_created (creates : s.creates a = some k) : ticksWhile k states ((s, a) :: past) = 0 := by
  simp [ticksWhile, life, creates]

theorem ticksWhile_tick :
    ticksWhile k states ((s, .tick) :: past) =
      ticksWhile k states past + if states (s.ptable k).state then 1 else 0 := by
  simp [ticksWhile, life, State.creates, List.countP_cons]

theorem ticksWhile_other (plain : a ≠ .tick) (old : s.creates a ≠ some k) :
    ticksWhile k states ((s, a) :: past) = ticksWhile k states past := by
  simp [ticksWhile, life, old, plain]

theorem ticksWhile_live (k : Slot) (past : List (State S.Frame × Action)) :
    ticksWhile k isLive past = ticksWhile k isRunning past + ticksWhile k isSleeping past + ticksWhile k isWaiting past := by
  unfold ticksWhile
  induction life k past with
  | nil => rfl
  | cons entry rest ih =>
    simp only [List.countP_cons, ih]
    by_cases tick : entry.2 = .tick
    · cases at_k : (entry.1.ptable k).state <;>
        simp [tick, isLive, isRunning, isSleeping, isWaiting, ProcState.Live] <;> omega
    · simp [tick]

/-- The counters of a process at a time `now` are the ticks that it has run, slept and lived. -/
structure Proc.Counts (p : Proc) (now : Word) (ran slept lived : Nat) : Prop where
  rtime : p.rtime = BitVec.ofNat 32 ran
  iotime : p.iotime = BitVec.ofNat 32 slept
  age : now - p.ctime = BitVec.ofNat 32 lived

/-- The process once the tick that has been counted is charged. -/
def State.due {Frame : Type} (s : State Frame) (k : Slot) : Proc :=
  if s.timer = .counted then (s.ptable k).updateRunsandOthers else s.ptable k

namespace Proc.Counts

variable {p q : Proc} {now : Word} {ran slept lived : Nat}

theorem same (counts : p.Counts now ran slept lived) (rtime : q.rtime = p.rtime) (iotime : q.iotime = p.iotime)
    (ctime : q.ctime = p.ctime) : q.Counts now ran slept lived :=
  ⟨rtime.trans counts.rtime, iotime.trans counts.iotime, by rw [ctime]; exact counts.age⟩

theorem tick (counts : p.Counts now ran slept lived) (live : p.state.Live) :
    p.updateRunsandOthers.Counts (now + 1) (ran + if isRunning p.state then 1 else 0)
      (slept + if isSleeping p.state then 1 else 0) (lived + if isLive p.state then 1 else 0) := by
  have age : now + 1 - p.ctime = BitVec.ofNat 32 (lived + 1) := by
    have old := counts.age
    rw [BitVec.ofNat_add, ← old]
    bv_omega
  have rtime := counts.rtime
  have iotime := counts.iotime
  unfold Proc.updateRunsandOthers
  cases at_p : p.state with
  | running => exact ⟨by simp [isRunning, rtime, BitVec.ofNat_add], by simpa [isSleeping] using iotime,
      by simpa [isLive, ProcState.Live] using age⟩
  | sleeping => exact ⟨by simpa [isRunning] using rtime, by simp [isSleeping, iotime, BitVec.ofNat_add],
      by simpa [isLive, ProcState.Live] using age⟩
  | embryo => exact ⟨by simpa [isRunning] using rtime, by simpa [isSleeping] using iotime,
      by simpa [isLive, ProcState.Live] using age⟩
  | runnable => exact ⟨by simpa [isRunning] using rtime, by simpa [isSleeping] using iotime,
      by simpa [isLive, ProcState.Live] using age⟩
  | unused => exact absurd at_p live.1
  | zombie => exact absurd at_p live.2

end Proc.Counts

/-- The invariant: every process has been charged exactly the ticks of its life. -/
structure Exact (past : List (State S.Frame × Action)) (s : State S.Frame) : Prop where
  coherent : Coherent s
  interruptible : Interruptible s
  live : ∀ k, (s.ptable k).state.Live → (s.due k).Counts s.ticks (ticksWhile k isRunning past)
    (ticksWhile k isSleeping past) (ticksWhile k isLive past)
  zombie : ∀ k, (s.ptable k).state = .zombie → (s.ptable k).Counts (s.ptable k).etime (ticksWhile k isRunning past)
    (ticksWhile k isSleeping past) (ticksWhile k isLive past)

namespace Exact

/-- Outside the timer interrupt a step creates a process with clear counters or leaves the counters alone. -/
theorem quiet (held : Exact past s) (taken : Step S s a s') (plain : a ≠ .tick) (charged : a ≠ .charge)
    (settled : s.timer ≠ .counted) (k : Slot) :
    ((s'.ptable k).state.Live → (s'.ptable k).Counts s.ticks (ticksWhile k isRunning ((s, a) :: past))
      (ticksWhile k isSleeping ((s, a) :: past)) (ticksWhile k isLive ((s, a) :: past))) ∧
    ((s'.ptable k).state = .zombie → (s'.ptable k).Counts (s'.ptable k).etime
      (ticksWhile k isRunning ((s, a) :: past)) (ticksWhile k isSleeping ((s, a) :: past))
      (ticksWhile k isLive ((s, a) :: past))) := by
  have due : s.due k = s.ptable k := if_neg settled
  have live := held.live k
  have zombie := held.zombie k
  rw [due] at live
  have move : Move S s k a (s'.ptable k) := Move.of_step held.coherent taken
  by_cases creates : s.creates a = some k
  · simp only [ticksWhile_created creates]
    generalize s'.ptable k = p at move
    cases move with
    | found c here before =>
      refine ⟨fun _ => ⟨rfl, rfl, ?_⟩, fun zombie => by cases zombie⟩
      simp [Proc.found]
    | quiet a p plain old => exact absurd creates old
    | switch a p plain old => exact absurd creates old
    | _ => cases creates
  · simp only [ticksWhile_other plain creates]
    generalize s'.ptable k = p at move
    cases move with
    | quiet a p plain old kept woken =>
      have same : ∀ {now ran slept lived}, (s.ptable k).Counts now ran slept lived → p.Counts now ran slept lived :=
        fun counts => counts.same (by rw [kept]) (by rw [kept]) (by rw [kept])
      rcases woken with state | ⟨asleep, awake⟩
      · refine ⟨fun h => same (live (state ▸ h)), fun h => ?_⟩
        rw [show p.etime = (s.ptable k).etime by rw [kept]]
        exact same (zombie (state ▸ h))
      · refine ⟨fun _ => same (live (by rw [asleep]; decide)), fun h => ?_⟩
        rw [awake] at h
        cases h
    | switch a p plain old clock kept before after =>
      refine ⟨fun _ => ?_, fun h => ?_⟩
      · exact (live (by rw [before]; decide)).same (by rw [kept]) (by rw [kept]) (by rw [kept])
      · rcases after with eq | eq <;> rw [eq] at h <;> cases h
    | exit c p kept before after =>
      refine ⟨fun h => absurd after h.2, fun _ => ?_⟩
      rw [show p.etime = s.ticks by rw [kept]]
      exact (live (by rw [before]; decide)).same (by rw [kept]) (by rw [kept]) (by rw [kept])
    | start c free =>
      have books := S.start_books s.ticks s.ptable k
      refine ⟨fun h => (live (books.state ▸ h)).same (by rw [books]) (by rw [books]) (by rw [books]), fun h => ?_⟩
      rw [show ((S.start s.ticks s.ptable).1 k).etime = (s.ptable k).etime by rw [books]]
      exact (zombie (books.state ▸ h)).same (by rw [books]) (by rw [books]) (by rw [books])
    | resume c f at_c =>
      have books := S.resume_books s.ticks f s.ptable k
      refine ⟨fun h => (live (books.state ▸ h)).same (by rw [books]) (by rw [books]) (by rw [books]), fun h => ?_⟩
      rw [show ((S.resume s.ticks f s.ptable).1 k).etime = (s.ptable k).etime by rw [books]]
      exact (zombie (books.state ▸ h)).same (by rw [books]) (by rw [books]) (by rw [books])
    | run c f at_c same before =>
      exact ⟨fun _ => (live (by rw [before]; decide)).same rfl rfl rfl, fun h => by cases h⟩
    | charge => exact absurd rfl charged
    | found c here => exact absurd here creates
    | ready c parent before =>
      exact ⟨fun _ => (live (by rw [before]; decide)).same rfl rfl rfl, fun h => by cases h⟩
    | abandoned => exact ⟨fun h => absurd rfl h.1, fun h => by cases h⟩
    | reaped => exact ⟨fun h => absurd rfl h.1, fun h => by cases h⟩
    | reapedx => exact ⟨fun h => absurd rfl h.1, fun h => by cases h⟩

theorem step (held : Exact past s) (taken : S.Under OneCpu s a s') : Exact ((s, a) :: past) s' := by
  have stepped := step_cases taken.1
  have coherent := held.coherent.step stepped
  have interruptible := held.interruptible.step taken
  have clock : Clock s s' a := Clock.of_step stepped
  cases clock with
  | tick before after ticks =>
    cases stepped with
    | call a f i s' at_c awake killed called => cases called
    | tick at_0 ready =>
      refine ⟨coherent, interruptible, fun k live => ?_, fun k zombie => ?_⟩
      · have counts := held.live k live
        have due : s.due k = s.ptable k := if_neg (by simp [before])
        rw [due] at counts
        simp only [ticksWhile_tick]
        exact counts.tick live
      · have state : (s.ptable k).state = .zombie := zombie
        simpa [ticksWhile_tick, state, isRunning, isSleeping, isLive, ProcState.Live] using held.zombie k state
  | charge before after ticks =>
    cases stepped with
    | call a f i s' at_c awake killed called => cases called
    | charge counted free =>
      have old : ∀ k states, ticksWhile k states ((s, .charge) :: past) = ticksWhile k states past :=
        fun k states => ticksWhile_other (by simp) (by simp [State.creates])
      refine ⟨coherent, interruptible, fun k live => ?_, fun k zombie => ?_⟩
      · have counts := held.live k (by simpa [Table.updateRunsandOthers] using live)
        simp only [State.due, before, if_true] at counts
        simpa [State.due, old, Table.updateRunsandOthers] using counts
      · have state : (s.ptable k).state = .zombie := by simpa [Table.updateRunsandOthers] using zombie
        have same : s.ptable.updateRunsandOthers k = s.ptable k := by
          simp [Table.updateRunsandOthers, Proc.updateRunsandOthers, state]
        simpa [same, old] using held.zombie k state
  | wakeTicks before after ticks =>
    have calm := held.quiet stepped (by simp) (by simp) (by simp [before])
    refine ⟨coherent, interruptible, fun k live => ?_, fun k zombie => (calm k).2 zombie⟩
    have due : s'.due k = s'.ptable k := if_neg (by simp [after])
    rw [due, ticks]
    exact (calm k).1 live
  | still a timer ticks tick charge wakeTicks =>
    have settled : s.timer ≠ .counted := by
      intro counted
      rcases held.interruptible.handles taken (by simp [counted]) with rfl | rfl
      · exact charge rfl
      · exact wakeTicks rfl
    have calm := held.quiet stepped tick charge settled
    refine ⟨coherent, interruptible, fun k live => ?_, fun k zombie => (calm k).2 zombie⟩
    have due : s'.due k = s'.ptable k := if_neg (by rwa [timer])
    rw [due, ticks]
    exact (calm k).1 live

theorem boot : Exact (S := S) [] S.boot where
  coherent := .boot
  interruptible := .boot
  live k live := by
    by_cases eq : k = initproc
    · subst eq
      exact ⟨by simp [State.due, Scheduler.boot, Proc.found, ticksWhile, life],
        by simp [State.due, Scheduler.boot, Proc.found, ticksWhile, life],
        by simp [State.due, Scheduler.boot, Proc.found, ticksWhile, life]⟩
    · simp [Scheduler.boot, eq, ProcState.Live] at live
  zombie k zombie := by
    by_cases eq : k = initproc
    · subst eq
      simp [Scheduler.boot] at zombie
    · simp [Scheduler.boot, eq] at zombie

end Exact

theorem toInt_ofNat {n : Nat} (small : n < 2 ^ 31) : (BitVec.ofNat 32 n).toInt = n := by
  have toNat : (BitVec.ofNat 32 n).toNat = n := by
    rw [BitVec.toNat_ofNat]
    exact Nat.mod_eq_of_lt (by omega)
  rw [BitVec.toInt_eq_toNat_of_lt (by omega), toNat]

/-- What `waitx` reports of a child on one CPU: the ticks it ran and the ticks it waited, as 32-bit numbers,
    and so exactly as long as the child lived for less than 2^31 ticks. -/
theorem waitx_exact (policy : Policy) {past : List (State policy.scheduler.Frame × Action)}
    {s : State policy.scheduler.Frame}
    (path : Path (policy.scheduler.Under OneCpu) policy.scheduler.boot past s) (c : Nat) (k : Slot)
    (reaped : policy.scheduler.reapsx s c = some k) :
    (s.ptable k).times =
        (BitVec.ofNat 32 (ticksWhile k isRunning past), BitVec.ofNat 32 (ticksWhile k isWaiting past)) ∧
      (ticksWhile k isLive past < 2 ^ 31 →
        (s.ptable k).times.1.toInt = ticksWhile k isRunning past ∧
          (s.ptable k).times.2.toInt = ticksWhile k isWaiting past) := by
  have exact : Exact past s := path.invariant .boot (fun _ held taken => held.step taken)
  have counts := exact.zombie k (reapsx_zombie reaped)
  have split := ticksWhile_live k past
  have wtime : (s.ptable k).times.2 = BitVec.ofNat 32 (ticksWhile k isWaiting past) := by
    have age := counts.age
    rw [split, BitVec.ofNat_add, BitVec.ofNat_add, ← counts.rtime, ← counts.iotime] at age
    simp only [Proc.times]
    bv_omega
  refine ⟨Prod.ext counts.rtime wtime, fun short => ⟨?_, ?_⟩⟩
  · rw [show (s.ptable k).times.1 = _ from counts.rtime]
    exact toInt_ofNat (by omega)
  · rw [wtime]
    exact toInt_ofNat (by omega)

def oneTickRun : List Action :=
  [.start 0, .dispatch 0, .fork 0, .forkDone 0, .waitx 0, .resume 0, .dispatch 0, .tick, .charge, .wakeTicks,
    .yield 0, .resume 0, .start 0, .dispatch 0, .exit 0, .resume 0, .start 0, .dispatch 0]

theorem waitx_exact_of_one_tick : ∃ past s,
    Path (Policy.rr.scheduler.Under OneCpu) Policy.rr.scheduler.boot past s ∧
      rr.reapsx s 0 = some firstChild ∧
      (s.ptable firstChild).times = (BitVec.ofNat 32 (ticksWhile firstChild isRunning past),
        BitVec.ofNat 32 (ticksWhile firstChild isWaiting past)) := by
  obtain ⟨past, s, path, reached⟩ := replay_reaches rr.step rr.boot oneTickRun
    (fun past s => rr.reapsx s 0 = some firstChild ∧ ∀ entry ∈ past, OneCpu entry.1 entry.2) (by decide +kernel)
  simp only [decide_eq_true_eq] at reached
  have one := path.restrict reached.2
  exact ⟨past, s, one, reached.1, (waitx_exact .rr one 0 firstChild reached.1).1⟩

/-- In the FCFS build the first child computes and init sleeps in `waitx`; the child has run `n` ticks. -/
structure Spins (s : State fcfs.Frame) (n : Nat) : Prop where
  cpu : s.cpu 0 = .running firstChild false
  lock : s.lock = none
  timer : s.timer = .ready
  tasks : s.task initproc = .free ∧ s.task firstChild = .free
  init : (s.ptable initproc).state = .sleeping ∧ (s.ptable initproc).chan = some (.proc initproc)
  child : (s.ptable firstChild).state = .running ∧ (s.ptable firstChild).parent = some initproc
  rtime : (s.ptable firstChild).rtime = BitVec.ofNat 32 n
  others : ∀ k, k ≠ initproc → k ≠ firstChild → (s.ptable k).state = .unused

namespace Spins

variable {s : State fcfs.Frame} {n : Nat} {past : List (State fcfs.Frame × Action)}

def spinRun : List Action :=
  [.start 0, .dispatch 0, .fork 0, .forkDone 0, .waitx 0, .resume 0, .start 0, .dispatch 0]

theorem begins : ∃ past s, Path (fcfs.Under OneCpu) fcfs.boot past s ∧ Spins s 0 := by
  obtain ⟨past, s, path, reached⟩ := replay_reaches fcfs.step fcfs.boot spinRun
    (fun past s => (∀ entry ∈ past, OneCpu entry.1 entry.2) ∧ s.cpu 0 = .running firstChild false ∧
      s.lock = none ∧ s.timer = .ready ∧ (s.task initproc = .free ∧ s.task firstChild = .free) ∧
      ((s.ptable initproc).state = .sleeping ∧ (s.ptable initproc).chan = some (.proc initproc)) ∧
      ((s.ptable firstChild).state = .running ∧ (s.ptable firstChild).parent = some initproc) ∧
      (s.ptable firstChild).rtime = 0 ∧ ∀ k, k ≠ initproc → k ≠ firstChild → (s.ptable k).state = .unused)
    (by decide +kernel)
  simp only [decide_eq_true_eq] at reached
  obtain ⟨one, cpu, lock, timer, tasks, init, child, rtime, others⟩ := reached
  exact ⟨past, s, path.restrict one, cpu, lock, timer, tasks, init, child, rtime, others⟩

theorem tick (spins : Spins s n) (path : Path (fcfs.Under OneCpu) fcfs.boot past s) :
    ∃ past' s', Path (fcfs.Under OneCpu) fcfs.boot past' s' ∧ Spins s' (n + 1) := by
  have counted : fcfs.step s .tick = some { s with ticks := s.ticks + 1, timer := .counted } := by
    simp [Scheduler.step, spins.cpu, spins.timer]
  have charged : fcfs.step { s with ticks := s.ticks + 1, timer := .counted } .charge =
      some { s with ticks := s.ticks + 1, timer := .charged, ptable := s.ptable.updateRunsandOthers } := by
    simp [Scheduler.step, spins.lock]
  have woken : fcfs.step { s with ticks := s.ticks + 1, timer := .charged, ptable := s.ptable.updateRunsandOthers }
      .wakeTicks = some { s with
        ticks := s.ticks + 1
        timer := .ready
        ptable := s.ptable.updateRunsandOthers.wakeup1 .ticks
        cpu := Function.update s.cpu 0 (.running firstChild false) } := by
    simp [Scheduler.step, spins.cpu, spins.lock, fcfs]
  refine ⟨_, _, ((path.snoc ⟨counted, rfl⟩).snoc ⟨charged, rfl⟩).snoc ⟨woken, rfl⟩, ?_⟩
  have asleep := spins.init
  have child := spins.child
  refine ⟨by simp, spins.lock, rfl, spins.tasks, ?_, ?_, ?_, fun k ne ne' => ?_⟩
  · simp [Table.wakeup1, Table.updateRunsandOthers, Proc.updateRunsandOthers, Proc.wakeup, asleep]
  · simp [Table.wakeup1, Table.updateRunsandOthers, Proc.updateRunsandOthers, Proc.wakeup, child]
  · simp [Table.wakeup1, Table.updateRunsandOthers, Proc.updateRunsandOthers, Proc.wakeup, child, spins.rtime,
      BitVec.ofNat_add]
  · simp [Table.wakeup1, Table.updateRunsandOthers, Proc.updateRunsandOthers, Proc.wakeup, spins.others k ne ne']

theorem ticks (n : Nat) : ∃ past s, Path (fcfs.Under OneCpu) fcfs.boot past s ∧ Spins s n := by
  induction n with
  | zero => exact begins
  | succ n ih =>
    obtain ⟨past, s, path, spins⟩ := ih
    exact spins.tick path

theorem ends (spins : Spins s n) (path : Path (fcfs.Under OneCpu) fcfs.boot past s) :
    ∃ past' s', Path (fcfs.Under OneCpu) fcfs.boot past' s' ∧ fcfs.reapsx s' 0 = some firstChild ∧
      (s'.ptable firstChild).rtime = BitVec.ofNat 32 n := by
  have init := spins.init
  have child := spins.child
  have ne : initproc ≠ firstChild := by decide
  let t := s.ptable.exit firstChild initproc s.ticks
  have exited : fcfs.step s (.exit 0) = some (fcfs.sched s 0 firstChild t) := by
    have called : fcfs.call s 0 firstChild (.exit 0) = some (fcfs.sched s 0 firstChild t) :=
      if_pos ⟨spins.lock, spins.tasks.2, ne.symm⟩
    simpa [Scheduler.step, Action.cpu, spins.cpu, State.Awake, spins.timer] using called
  have parent : s.ptable.wakeParent firstChild = s.ptable.wakeup1 (.proc initproc) := by
    simp [Table.wakeParent, child]
  have woken : (s.ptable.wakeup1 (.proc initproc) initproc).state = .runnable := by
    simp [Table.wakeup1, Proc.wakeup, init]
  have busy : s.ptable.wakeup1 (.proc initproc) firstChild = s.ptable firstChild := by
    simp [Table.wakeup1, Proc.wakeup, child]
  have at_child : (t firstChild).state = .zombie ∧ (t firstChild).parent = some initproc ∧
      (t firstChild).rtime = (s.ptable firstChild).rtime := by
    have kept := s.ptable.exit_same firstChild initproc s.ticks
    refine ⟨Table.exit_self .., ?_, by rw [show t firstChild = _ from kept]⟩
    simp [t, Table.exit, parent, Table.abandon, busy, child, Proc.exit, Proc.wakeup, ne]
  have at_init : (t initproc).state = .runnable := by
    simp [t, Table.exit, parent, Table.abandon, Proc.wakeup, woken, ne]
    split <;> simp [woken]
  have others : ∀ k, k ≠ initproc → k ≠ firstChild → (t k).state = .unused := by
    intro k ne ne'
    have awake := s.ptable.exit_woken initproc s.ticks ne'
    exact (awake.eq (by simp [spins.others k ne ne'])).trans (spins.others k ne ne')
  let s₁ := fcfs.sched s 0 firstChild t
  let u := t.modify firstChild (·.worked s.ticks)
  let s₂ := fcfs.settle s₁ 0 (u, none)
  have resumed : fcfs.step s₁ (.resume 0) = some s₂ := by
    simp [Scheduler.step, s₁, s₂, u, Scheduler.sched, fcfs]
  have runnable : ∀ k, u.Runnable k ↔ k = initproc := by
    intro k
    by_cases eq : k = firstChild
    · subst eq
      simp [u, Table.Runnable, Proc.worked, at_child, ne.symm]
    · by_cases eq' : k = initproc
      · subst eq'
        simp [u, Table.Runnable, at_init, ne]
      · simp [u, Table.Runnable, eq, eq', others k eq' eq]
  have next : FCFS.nextone u = some initproc := Selection.best_of_only runnable
  let v := u.modify initproc .ran
  let s₃ := fcfs.settle s₂ 0 (v, some initproc)
  have started : fcfs.step s₂ (.start 0) = some s₃ := by
    have begun : fcfs.start s₂.ticks s₂.ptable = (v, some initproc) := by
      show FCFS.start u = _
      simp [FCFS.start, next, v]
    simp [Scheduler.step, begun, s₃]
    simp [s₂, Scheduler.settle, State.Awake, s₁, Scheduler.sched, spins.timer]
  have dispatched : fcfs.step s₃ (.dispatch 0) = some (fcfs.swtch s₃ 0 initproc) := by
    simp [Scheduler.step, s₃, Scheduler.settle]
  let s₄ := fcfs.swtch s₃ 0 initproc
  have child₄ : s₄.ptable firstChild = (t firstChild).worked s.ticks := by
    simp [s₄, Scheduler.swtch, s₃, Scheduler.settle, v, u, fcfs, ne.symm]
  have init₄ : (s₄.ptable initproc).state = .running := by
    simp [s₄, Scheduler.swtch, fcfs, Proc.run]
  have zombie : s₄.ptable.zombieOf initproc = some firstChild := by
    refine Selection.firstFrom_eq_some.mpr ⟨⟨by simp, ?_⟩, fun q _ before => ?_⟩
    · rw [child₄]
      exact ⟨at_child.2.1, at_child.1⟩
    · have first : q = initproc := by
        have lt : q.val < 1 := before
        exact Fin.ext (by show q.val = 0; omega)
      rw [first, init₄]
      simp
  refine ⟨_, s₄, (((path.snoc ⟨exited, rfl⟩).snoc ⟨resumed, rfl⟩).snoc ⟨started, rfl⟩).snoc ⟨dispatched, rfl⟩, ?_, ?_⟩
  · have reaps : (fcfs.step s₄ (.waitx 0)).isSome := by
      simp [s₄, s₃, s₂, s₁, Scheduler.step, Action.cpu, Scheduler.swtch, State.Awake, Scheduler.settle, Scheduler.sched,
        spins.timer, Scheduler.call, spins.tasks, fcfs]
    have at_0 : s₄.cpu 0 = .running initproc false := by simp [s₄, Scheduler.swtch]
    unfold reapsx
    rw [at_0]
    exact (if_pos reaps).trans zombie
  · rw [child₄]
    exact at_child.2.2.trans spins.rtime

end Spins

/-- After 2^31 ticks `rtime` is negative, which no number of ticks is. -/
theorem waitx_overflow : ¬ ∀ (policy : Policy) past s,
    Path (policy.scheduler.Under OneCpu) policy.scheduler.boot past s → ∀ c k, policy.scheduler.reapsx s c = some k →
      (s.ptable k).times.1.toInt = ticksWhile k isRunning past ∧
        (s.ptable k).times.2.toInt = ticksWhile k isWaiting past := by
  intro claim
  obtain ⟨past, s, path, spins⟩ := Spins.ticks (2 ^ 31)
  obtain ⟨past', s', path', reaps, rtime⟩ := spins.ends path
  have count := (claim .fcfs past' s' path' 0 firstChild reaps).1
  rw [show (s'.ptable firstChild).times.1 = BitVec.ofNat 32 (2 ^ 31) from rtime,
    show (BitVec.ofNat 32 (2 ^ 31)).toInt = -2 ^ 31 by decide] at count
  omega

end Xv6.Sched
