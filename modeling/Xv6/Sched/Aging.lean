import Xv6.Sched.Sleepers

namespace Xv6.Sched

open Scheduler Transition

/-- `lastWorkingticks` lies in the last 2^31 ticks. -/
structure Proc.Recent (p : Proc) (ticks : Word) : Prop where
  past : p.lastWorkingticks.toNat ≤ ticks.toNat
  near : ticks.toNat - p.lastWorkingticks.toNat < 2 ^ 31

namespace Proc.Recent

variable {p q : Proc} {ticks : Word}

theorem now (same : p.lastWorkingticks = ticks) : p.Recent ticks := ⟨by rw [same], by rw [same]; simp⟩

theorem same (recent : p.Recent ticks) (same : q.lastWorkingticks = p.lastWorkingticks) : q.Recent ticks :=
  ⟨same ▸ recent.past, same ▸ recent.near⟩

theorem wait (recent : p.Recent ticks) :
    (ticks - p.lastWorkingticks).toNat = ticks.toNat - p.lastWorkingticks.toNat := by
  have past := recent.past
  bv_omega

theorem tick (recent : p.Recent ticks) (room : ticks.toNat + 1 < 2 ^ 32)
    (near : (ticks - p.lastWorkingticks).toNat + 1 < 2 ^ 31) : p.Recent (ticks + 1) := by
  have next : (ticks + 1).toNat = ticks.toNat + 1 := by bv_omega
  have past := recent.past
  rw [recent.wait] at near
  exact ⟨by omega, by omega⟩

end Proc.Recent

/-- The ticks that have been charged since the process in slot `k` last ran or slept. -/
def waited {S : Scheduler} (k : Slot) (past : List (State S.Frame × Action)) : Nat :=
  (past.takeWhile (fun entry => entry.1.ptable.Runnable k)).countP (fun entry => entry.2 = .charge)

section Waited

variable {S : Scheduler} {s : State S.Frame} {a : Action} {past : List (State S.Frame × Action)} {k : Slot}

theorem waited_runnable (runnable : s.ptable.Runnable k) :
    waited k ((s, a) :: past) = waited k past + if a = .charge then 1 else 0 := by
  simp [waited, runnable, List.countP_cons]

theorem waited_other (away : ¬ s.ptable.Runnable k) : waited k ((s, a) :: past) = 0 := by
  simp [waited, away]

end Waited

namespace MLFQ

variable {s s' : State mlfq.Frame} {a : Action} {past : List (State mlfq.Frame × Action)} {k : Slot}

/-- No scheduler goes on after its process went to sleep while a counted tick is still to be charged, and the clock
    neither wraps nor runs 2^31 ticks past the `lastWorkingticks` of a process. -/
structure Settled (s : State mlfq.Frame) (a : Action) : Prop where
  noted : Noted s a
  range : a = .tick → s.ticks.toNat + 1 < 2 ^ 32 ∧
    ∀ k, (s.ptable k).state ≠ .unused → (s.ticks - (s.ptable k).lastWorkingticks).toNat + 1 < 2 ^ 31

/-- The invariant of aging: `lastWorkingticks` does not lie in the future, and a process has waited as long as it
    lies back. -/
structure Timed (past : List (State mlfq.Frame × Action)) (s : State mlfq.Frame) : Prop where
  resting : Resting s
  recent : ∀ k, (s.ptable k).state ≠ .unused → (s.ptable k).Recent s.ticks
  waits : ∀ k, s.ptable.Runnable k → (s.ptable k).queue ≠ 0 → ¬ Framed s k →
    s.ticks.toNat - (s.ptable k).lastWorkingticks.toNat ≤ waited k past + s.timer.lag

namespace Timed

theorem recent_later (held : Timed past s) (taken : mlfq.Under Settled s a s') (used : (s.ptable k).state ≠ .unused)
    {p : Proc} (same : p.lastWorkingticks = (s.ptable k).lastWorkingticks) : p.Recent s'.ticks := by
  have recent := held.recent k used
  have clock : Clock s s' a := Clock.of_step (step_cases taken.1)
  cases clock with
  | tick before after ticks =>
    obtain ⟨room, near⟩ := taken.2.range rfl
    rw [ticks]
    exact (recent.tick room (near k used)).same same
  | charge before after ticks => exact ticks ▸ recent.same same
  | wakeTicks before after ticks => exact ticks ▸ recent.same same
  | still a timer ticks => exact ticks ▸ recent.same same

/-- A tick that is counted makes up for one that is not yet charged, as numbers. -/
theorem lag_toNat (taken : mlfq.Under Settled s a s') (plain : a ≠ .charge) :
    s'.ticks.toNat + s.timer.lag = s.ticks.toNat + s'.timer.lag := by
  have clock : Clock s s' a := Clock.of_step (step_cases taken.1)
  cases clock with
  | tick before after ticks =>
    have room := (taken.2.range rfl).1
    have next : (s.ticks + 1).toNat = s.ticks.toNat + 1 := by bv_omega
    rw [ticks, before, after, next]
    rfl
  | charge => exact absurd rfl plain
  | wakeTicks before after ticks =>
    rw [ticks, before, after]
    rfl
  | still a timer ticks => rw [ticks, timer]

theorem recent_step (held : Timed past s) (taken : mlfq.Under Settled s a s') (used : (s'.ptable k).state ≠ .unused) :
    (s'.ptable k).Recent s'.ticks := by
  have stepped : Step mlfq s a s' := step_cases taken.1
  have move : Move mlfq s k a (s'.ptable k) := Move.of_step held.resting.coherent stepped
  have ticks : a ≠ .tick → s'.ticks = s.ticks := by
    intro plain
    have clock : Clock s s' a := Clock.of_step stepped
    cases clock with
    | tick => exact absurd rfl plain
    | charge before after ticks => exact ticks
    | wakeTicks before after ticks => exact ticks
    | still a timer ticks => exact ticks
  generalize s'.ptable k = p at move used
  cases move with
  | quiet a p plain old kept woken =>
    refine held.recent_later taken (fun unused => used ?_) (by rw [kept])
    exact (woken.eq (by rw [unused]; decide)).trans unused
  | switch a p plain old clock kept before after =>
    exact held.recent_later taken (by rw [before]; decide) (by rw [kept])
  | exit c p kept before after => exact held.recent_later taken (by rw [before]; decide) (by rw [kept])
  | start c free =>
    rcases start_cases s.ticks s.ptable k with ⟨-, -, same⟩ | ⟨-, -, now⟩
    · refine held.recent_later taken (fun unused => used ?_) same
      exact (mlfq.start_books s.ticks s.ptable k).state.trans unused
    · exact .now (now.trans (ticks (by simp)).symm)
  | resume c f at_c =>
    rcases resume_last s.ticks f s.ptable k with same | now
    · refine held.recent_later taken (fun unused => used ?_) same
      exact (mlfq.resume_books s.ticks f s.ptable k).state.trans unused
    · exact .now (now.trans (ticks (by simp)).symm)
  | run c f at_c same before => exact .now (ticks (by simp)).symm
  | charge free counted =>
    have recent := held.recent k (by simpa using used)
    have due := held.resting.asleep k
    rw [ticks (by simp)]
    unfold Proc.updateRunsandOthers
    cases at_k : (s.ptable k).state with
    | sleeping =>
      have lies := (due at_k).resolve_left (held.resting.not_pending free)
      rw [counted] at lies
      have lies : s.ticks - (s.ptable k).lastWorkingticks = 1 := lies
      refine .now ?_
      show (s.ptable k).lastWorkingticks + 1 = s.ticks
      bv_omega
    | running => exact recent.same rfl
    | _ => exact recent
  | found c here before => exact .now (ticks (by simp)).symm
  | ready c parent before => exact held.recent_later taken (by rw [before]; decide) rfl
  | abandoned => exact absurd rfl used
  | reaped => exact absurd rfl used
  | reapedx => exact absurd rfl used

/-- A process that waits on has waited for the tick that the clock has gained. -/
theorem waits_on (held : Timed past s) (taken : mlfq.Under Settled s a s') (was : s.ptable.Runnable k)
    (queued : (s'.ptable k).queue ≠ 0) (away : ¬ Framed s k) (still : s'.ptable.Runnable k) :
    s'.ticks.toNat - (s'.ptable k).lastWorkingticks.toNat ≤ waited k ((s, a) :: past) + s'.timer.lag := by
  have stepped : Step mlfq s a s' := step_cases taken.1
  have move : Move mlfq s k a (s'.ptable k) := Move.of_step held.resting.coherent stepped
  have before : (s.ptable k).state = .runnable := was
  have later : a ≠ .charge → (s'.ptable k).lastWorkingticks = (s.ptable k).lastWorkingticks →
      (s'.ptable k).queue = (s.ptable k).queue →
      s'.ticks.toNat - (s'.ptable k).lastWorkingticks.toNat ≤ waited k ((s, a) :: past) + s'.timer.lag := by
    intro plain last queue
    have old := held.waits k was (queue ▸ queued) away
    have lag := lag_toNat taken plain
    rw [last, waited_runnable was, if_neg plain]
    omega
  have now : a ≠ .charge → (s'.ptable k).lastWorkingticks = s.ticks →
      s'.ticks.toNat - (s'.ptable k).lastWorkingticks.toNat ≤ waited k ((s, a) :: past) + s'.timer.lag := by
    intro plain last
    have lag := lag_toNat taken plain
    rw [last]
    have less : s'.timer.lag ≤ waited k ((s, a) :: past) + s'.timer.lag := Nat.le_add_left _ _
    omega
  have state : (s'.ptable k).state = .runnable := still
  generalize s'.ptable k = p at move later now queued state
  cases move with
  | quiet a p plain old kept woken => exact later plain (by rw [kept]) (by rw [kept])
  | start c free =>
    rcases start_cases s.ticks s.ptable k with ⟨-, queue, last⟩ | ⟨-, -, last⟩
    · exact later (by simp) last queue
    · exact now (by simp) last
  | resume c f at_c =>
    have other : k ≠ f.p := fun mine => away ⟨c, f, by rw [at_c]; rfl, mine.symm⟩
    have same : (mlfq.resume s.ticks f s.ptable).1 k = s.ptable k := resume_other _ other
    exact later (by simp) (congrArg Proc.lastWorkingticks same) (congrArg Proc.queue same)
  | run c f at_c same => exact absurd ⟨c, f, by rw [at_c]; rfl, same⟩ away
  | charge free counted =>
    obtain ⟨ticks, lag, lag'⟩ := charge_later stepped
    have same : (s.ptable k).updateRunsandOthers = s.ptable k := by simp [Proc.updateRunsandOthers, before]
    rw [same] at queued ⊢
    have old := held.waits k was queued away
    rw [waited_runnable was, if_pos rfl, ticks, lag']
    omega
  | ready c parent embryo =>
    rw [before] at embryo
    cases embryo
  | switch a p plain old clock kept running =>
    rw [before] at running
    cases running
  | exit c p kept running =>
    rw [before] at running
    cases running
  | found => cases state
  | abandoned => cases state
  | reaped => cases state
  | reapedx => cases state

theorem step (held : Timed past s) (taken : mlfq.Under Settled s a s') : Timed ((s, a) :: past) s' := by
  have stepped : Step mlfq s a s' := step_cases taken.1
  refine ⟨held.resting.step stepped taken.2.noted, fun k => held.recent_step taken, fun k still queued away => ?_⟩
  by_cases was : s.ptable.Runnable k
  · by_cases framed : Framed s k
    · obtain ⟨plain, last⟩ := let_go stepped framed away
      have lag := lag_toNat taken plain
      rw [last]
      omega
    · exact held.waits_on taken was queued framed still
  · have used : (s'.ptable k).state ≠ .unused := by
      rw [show (s'.ptable k).state = .runnable from still]
      decide
    have lies := held.resting.wakes_up stepped was (fun embryo => queued (held.resting.hatches stepped embryo)) away still
    have wait := (held.recent_step taken used).wait
    have small : (BitVec.ofNat 32 s'.timer.lag).toNat = s'.timer.lag := by cases s'.timer <;> rfl
    rw [lies, small] at wait
    rw [waited_other was]
    omega

theorem boot : Timed [] mlfq.boot where
  resting := .boot
  recent k _ := by
    by_cases eq : k = initproc
    · subst eq
      exact .now (by simp [Scheduler.boot, Proc.found])
    · exact .now (by simp [Scheduler.boot, eq])
  waits k _ queued _ := by
    by_cases eq : k = initproc
    · subst eq
      exact absurd (by simp [Scheduler.boot, Proc.found]) queued
    · exact absurd (by simp [Scheduler.boot, eq]) queued

end Timed

end MLFQ

/-- In the MLFQ build on any number of CPUs, as long as no scheduler lets go of a sleeper between `ticks++` and
    `updateRunsandOthers` and the clock stays in range: no RUNNABLE process is ahead of the clock, aging promotes only
    processes that have waited longer than their queue allows, and `getprocstable` reports no negative waiting time. -/
theorem mlfq_aging {past : List (State mlfq.Frame × Action)} {s : State mlfq.Frame}
    (path : Path (mlfq.Under MLFQ.Settled) mlfq.boot past s) :
    (∀ k, s.ptable.Runnable k → (s.ptable k).lastWorkingticks ≤ s.ticks) ∧
    (∀ c s', mlfq.Takes s (.start c) s' → ∀ k, (s'.ptable k).queue ≠ (s.ptable k).queue →
      (qMaxTime (s.ptable k).queue.toNat).toNat < waited k past + s.timer.lag) ∧
    ∀ info ∈ s.ptable.getprocstable s.ticks, 0 ≤ info.wtime.toInt := by
  have timed : MLFQ.Timed past s := path.invariant .boot (fun _ held taken => held.step taken)
  refine ⟨fun k runnable => ?_, fun c s' taken k moved => ?_, fun info member => ?_⟩
  · have used : (s.ptable k).state ≠ .unused := by
      rw [show (s.ptable k).state = .runnable from runnable]
      decide
    exact (timed.recent k used).past
  · cases step_cases taken with
    | call a f i s' at_c awake killed called => cases called
    | start c idle awake free =>
      rw [Move.settle_ptable] at moved
      rcases MLFQ.start_cases s.ticks s.ptable k with ⟨-, same, -⟩ | ⟨⟨runnable, positive, exceeds⟩, -, -⟩
      · exact absurd same moved
      · have away := timed.resting.not_framed free runnable
        have queued : (s.ptable k).queue ≠ 0 := by
          intro zero
          rw [zero] at positive
          exact absurd positive (by decide)
        have used : (s.ptable k).state ≠ .unused := by
          rw [runnable]
          decide
        have waits := timed.waits k runnable queued away
        have wait := (timed.recent k used).wait
        have exceeds' : (qMaxTime (s.ptable k).queue.toNat).toNat < (s.ticks - (s.ptable k).lastWorkingticks).toNat := exceeds
        omega
  · obtain ⟨k, listed, rfl⟩ := List.mem_map.mp member
    have used : (s.ptable k).state ≠ .unused := by simpa using (List.mem_filter.mp listed).2
    have recent := timed.recent k used
    have near := recent.near
    show 0 ≤ (s.ticks - (s.ptable k).lastWorkingticks).toInt
    have wait := recent.wait
    rw [BitVec.toInt_eq_toNat_of_lt (by omega)]
    omega

def MLFQ.returning (s : State mlfq.Frame) : Action → Option Frame
  | .resume c =>
    match s.cpu c with
    | .back f => some f
    | _ => none
  | _ => none

theorem MLFQ.noted_iff (s : State mlfq.Frame) (a : Action) :
    (∀ f ∈ MLFQ.returning s a, (s.ptable f.p).state = .sleeping → s.timer ≠ .counted) ↔ MLFQ.Noted s a := by
  constructor
  · intro noted c f eq at_c
    subst eq
    apply noted
    simp only [MLFQ.returning, at_c, Option.mem_some_iff]
  · intro noted f member
    cases a with
    | resume c =>
      cases at_c : s.cpu c <;> simp only [MLFQ.returning, at_c, Option.mem_def, reduceCtorEq] at member
      cases member
      exact noted c _ rfl at_c
    | _ => cases member

instance (s : State mlfq.Frame) (a : Action) : Decidable (MLFQ.Noted s a) := decidable_of_iff _ (MLFQ.noted_iff s a)

instance (s : State mlfq.Frame) (a : Action) : Decidable (MLFQ.Settled s a) :=
  decidable_of_iff (MLFQ.Noted s a ∧ (a = .tick → s.ticks.toNat + 1 < 2 ^ 32 ∧
    ∀ k, (s.ptable k).state ≠ .unused → (s.ticks - (s.ptable k).lastWorkingticks).toNat + 1 < 2 ^ 31))
    ⟨fun h => ⟨h.1, h.2⟩, fun h => ⟨h.1, h.2⟩⟩

def settledRun : List Action := [.start 0, .dispatch 0, .tick, .charge, .wakeTicks, .yield 0, .resume 0]

theorem mlfq_aging_of_one_slice : ∃ past s, Path (mlfq.Under MLFQ.Settled) mlfq.boot past s ∧
    s.ptable.Runnable initproc ∧ (s.ptable initproc).lastWorkingticks ≤ s.ticks := by
  obtain ⟨past, s, path, reached⟩ := replay_reaches mlfq.step mlfq.boot settledRun
    (fun past s => (∀ entry ∈ past, MLFQ.Settled entry.1 entry.2) ∧ s.ptable.Runnable initproc) (by decide +kernel)
  simp only [decide_eq_true_eq] at reached
  have settled : Path (mlfq.Under MLFQ.Settled) mlfq.boot past s := path.restrict reached.1
  exact ⟨past, s, settled, reached.2, (mlfq_aging settled).1 initproc reached.2⟩

/-- Init goes to sleep on CPU 1 between `ticks++` and `updateRunsandOthers` of CPU 0: the scheduler notes the new
    `ticks` and the charge then adds one more. -/
def lateSleepRun : List Action :=
  [.start 1, .dispatch 1, .tick, .sleep 1 (.other 5), .resume 1, .charge, .wakeTicks, .wakeup 0 5]

theorem mlfq_ahead_of_clock : ¬ ∀ past s, Path mlfq.Takes mlfq.boot past s →
    (∀ k, s.ptable.Runnable k → (s.ptable k).lastWorkingticks ≤ s.ticks) ∧
    (∀ c s', mlfq.Takes s (.start c) s' → ∀ k, (s'.ptable k).queue ≠ (s.ptable k).queue →
      (qMaxTime (s.ptable k).queue.toNat).toNat < waited k past + s.timer.lag) ∧
    ∀ info ∈ s.ptable.getprocstable s.ticks, 0 ≤ info.wtime.toInt := by
  intro claim
  obtain ⟨past, s, path, reached⟩ := replay_reaches mlfq.step mlfq.boot lateSleepRun
    (fun _ s => s.ptable.Runnable initproc ∧ s.ticks < (s.ptable initproc).lastWorkingticks) (by decide +kernel)
  simp only [decide_eq_true_eq] at reached
  exact absurd ((claim past s path).1 initproc reached.1) (BitVec.not_le.mpr reached.2)

end Xv6.Sched
