import Xv6.Sched.Moves

namespace Xv6.Sched

open Scheduler Transition

/-- The process in a slot has been created and has not exited. -/
def ProcState.Live (state : ProcState) : Prop := state ≠ .unused ∧ state ≠ .zombie

/-- The ticks charged to a process fit into the time from its creation to `now`, `lag` ticks apart. -/
structure Proc.Fits (p : Proc) (now : Word) (lag : Nat) : Prop where
  young : (now - p.ctime).toNat < 2 ^ 31
  charged : p.rtime.toNat + p.iotime.toNat + lag ≤ (now - p.ctime).toNat

namespace Proc.Fits

variable {p q : Proc} {now : Word} {lag : Nat}

theorem same (fits : p.Fits now lag) (ctime : q.ctime = p.ctime) (rtime : q.rtime = p.rtime)
    (iotime : q.iotime = p.iotime) : q.Fits now lag :=
  ⟨ctime ▸ fits.young, by rw [ctime, rtime, iotime]; exact fits.charged⟩

theorem of_kept (fits : p.Fits now lag) (kept : p.Kept q) : q.Fits now lag := by
  rw [kept]
  exact ⟨fits.young, fits.charged⟩

theorem of_booked (fits : p.Fits now lag) (booked : p.Booked q) : q.Fits now lag := by
  rw [booked]
  exact ⟨fits.young, fits.charged⟩

theorem tick (fits : p.Fits now 0) (room : (now - p.ctime).toNat + 1 < 2 ^ 31) : p.Fits (now + 1) 1 := by
  have next : (now + 1 - p.ctime).toNat = (now - p.ctime).toNat + 1 := by bv_omega
  have charged := fits.charged
  exact ⟨by omega, by omega⟩

theorem updateRunsandOthers (fits : p.Fits now 1) : p.updateRunsandOthers.Fits now 0 := by
  have young := fits.young
  have charged := fits.charged
  unfold Proc.updateRunsandOthers
  cases p.state with
  | running =>
    have next : (p.rtime + 1).toNat = p.rtime.toNat + 1 := by bv_omega
    exact ⟨young, by simp only [next]; omega⟩
  | sleeping =>
    have next : (p.iotime + 1).toNat = p.iotime.toNat + 1 := by bv_omega
    exact ⟨young, by simp only [next]; omega⟩
  | _ =>
    have rest : p.rtime.toNat + p.iotime.toNat + 0 ≤ (now - p.ctime).toNat := by omega
    exact ⟨young, rest⟩

theorem times_nonneg (fits : p.Fits p.etime 0) :
    (p.rtime + p.iotime).toInt ≤ (p.etime - p.ctime).toInt ∧ 0 ≤ p.times.2.toInt := by
  have young := fits.young
  have charged := fits.charged
  have spent : (p.rtime + p.iotime).toNat = p.rtime.toNat + p.iotime.toNat := by bv_omega
  have wait : p.times.2.toNat = (p.etime - p.ctime).toNat - (p.rtime.toNat + p.iotime.toNat) := by
    have eq : p.times.2 = (p.etime - p.ctime) - (p.rtime + p.iotime) := by
      simp only [times]
      bv_omega
    rw [eq]
    bv_omega
  rw [BitVec.toInt_eq_toNat_of_lt (by omega), BitVec.toInt_eq_toNat_of_lt (by omega),
    BitVec.toInt_eq_toNat_of_lt (by omega)]
  omega

end Proc.Fits

variable {S : Scheduler}

/-- No `allocproc` reads `ticks` between `ticks++` and `updateRunsandOthers`, and the clock does not run
    2^31 ticks past the creation of a process that still lives. -/
def Timely {Frame : Type} (s : State Frame) : Action → Prop
  | .fork _ => s.timer ≠ .counted
  | .tick => ∀ k, (s.ptable k).state.Live → (s.ticks - (s.ptable k).ctime).toNat + 1 < 2 ^ 31
  | _ => True

instance (state : ProcState) : Decidable state.Live := inferInstanceAs (Decidable (_ ∧ _))

instance {Frame : Type} (s : State Frame) (a : Action) : Decidable (Timely s a) := by
  cases a <;> unfold Timely <;> infer_instance

/-- The invariant behind `waitx`. -/
structure Accounted (s : State S.Frame) : Prop where
  coherent : Coherent s
  live : ∀ k, (s.ptable k).state.Live → (s.ptable k).Fits s.ticks s.timer.lag
  zombie : ∀ k, (s.ptable k).state = .zombie → (s.ptable k).Fits (s.ptable k).etime 0

namespace Accounted

variable {s s' : State S.Frame} {a : Action}

theorem later {k : Slot} {p : Proc} (held : Accounted s) (taken : S.Under Timely s a s') (plain : a ≠ .charge)
    (live : (s.ptable k).state.Live) (same : (s.ptable k).Fits s.ticks s.timer.lag → p.Fits s.ticks s.timer.lag)
    (ctime : p.ctime = (s.ptable k).ctime) : p.Fits s'.ticks s'.timer.lag := by
  have fits := same (held.live k live)
  have clock : Clock s s' a := Clock.of_step (step_cases taken.1)
  cases clock with
  | tick before after ticks =>
    rw [before] at fits
    rw [after, ticks]
    exact fits.tick (by rw [ctime]; exact taken.2 k live)
  | charge => exact absurd rfl plain
  | wakeTicks before after ticks =>
    rw [before] at fits
    rw [after, ticks]
    exact fits
  | still a timer ticks => rwa [timer, ticks]

theorem step (held : Accounted s) (taken : S.Under Timely s a s') : Accounted s' := by
  have stepped := step_cases taken.1
  have alive : ∀ {p q : Proc}, p.Woken q → q.state.Live → p.state.Live := by
    intro p q woken live
    rcases woken with same | ⟨asleep, -⟩
    · exact same ▸ live
    · rw [asleep]
      exact ⟨by decide, by decide⟩
  refine ⟨held.coherent.step stepped, fun k live => ?_, fun k zombie => ?_⟩
  · have move : Move S s k a (s'.ptable k) := Move.of_step held.coherent stepped
    generalize s'.ptable k = p at move live
    cases move with
    | quiet a p plain old kept woken =>
      exact held.later taken plain (alive woken live) (·.of_kept kept) (by rw [kept])
    | switch a p plain old clock kept before after =>
      exact held.later taken plain (by rw [before]; decide) (·.of_kept kept) (by rw [kept])
    | exit c p kept before after => exact absurd after live.2
    | start c free =>
      have books := S.start_books s.ticks s.ptable k
      exact held.later taken (by simp) (books.state ▸ live) (·.of_booked books) (by rw [books])
    | resume c f at_c =>
      have books := S.resume_books s.ticks f s.ptable k
      exact held.later taken (by simp) (books.state ▸ live) (·.of_booked books) (by rw [books])
    | run c f at_c same before =>
      exact held.later taken (by simp) (by rw [before]; decide) (·.same rfl rfl rfl) rfl
    | charge free counted =>
      have fits := held.live k (by simpa using live)
      rw [counted] at fits
      have clock : Clock s s' .charge := Clock.of_step stepped
      cases clock with
      | charge before after ticks =>
        rw [after, ticks]
        exact fits.updateRunsandOthers
      | still a timer ticks tick charge => exact absurd rfl charge
    | found c here before =>
      have clock : Clock s s' (.fork c) := Clock.of_step stepped
      cases clock with
      | still a timer ticks =>
        have settled : s.timer.lag = 0 := by
          have pending : s.timer ≠ .counted := taken.2
          cases at_t : s.timer with
          | counted => exact absurd at_t pending
          | _ => rfl
        rw [timer, ticks, settled]
        exact ⟨by simp [Proc.found], by simp [Proc.found]⟩
    | abandoned c before => exact absurd rfl live.1
    | ready c parent before =>
      exact held.later taken (by simp) (by rw [before]; decide) (·.same rfl rfl rfl) rfl
    | reaped c before => exact absurd rfl live.1
    | reapedx c before => exact absurd rfl live.1
  · have move : Move S s k a (s'.ptable k) := Move.of_step held.coherent stepped
    generalize s'.ptable k = p at move zombie
    cases move with
    | quiet a p plain old kept woken =>
      have before : (s.ptable k).state = .zombie := by
        rcases woken with same | ⟨-, awake⟩
        · exact same ▸ zombie
        · rw [awake] at zombie
          cases zombie
      rw [show p.etime = (s.ptable k).etime by rw [kept]]
      exact (held.zombie k before).of_kept kept
    | switch a p plain old clock kept before after =>
      rcases after with h | h <;> rw [h] at zombie <;> cases zombie
    | exit c p kept before after =>
      have fits := held.live k (by rw [before]; decide)
      have charged := fits.charged
      rw [show p.etime = s.ticks by rw [kept]]
      have exited : ({ s.ptable k with etime := s.ticks } : Proc).Fits s.ticks 0 := ⟨fits.young, by simp only; omega⟩
      exact exited.of_kept kept
    | start c free =>
      have books := S.start_books s.ticks s.ptable k
      rw [books.state] at zombie
      rw [show ((S.start s.ticks s.ptable).1 k).etime = (s.ptable k).etime by rw [books]]
      exact (held.zombie k zombie).of_booked books
    | resume c f at_c =>
      have books := S.resume_books s.ticks f s.ptable k
      rw [books.state] at zombie
      rw [show ((S.resume s.ticks f s.ptable).1 k).etime = (s.ptable k).etime by rw [books]]
      exact (held.zombie k zombie).of_booked books
    | charge free counted =>
      have before : (s.ptable k).state = .zombie := by simpa using zombie
      have same : (s.ptable k).updateRunsandOthers = s.ptable k := by simp [Proc.updateRunsandOthers, before]
      rw [same]
      exact held.zombie k before
    | run => cases zombie
    | found => cases zombie
    | abandoned => cases zombie
    | ready => cases zombie
    | reaped => cases zombie
    | reapedx => cases zombie

theorem boot : Accounted S.boot where
  coherent := .boot
  live k live := by
    by_cases eq : k = initproc
    · subst eq
      exact ⟨by simp [Scheduler.boot, Proc.found], by simp [Scheduler.boot, Proc.found, Timer.lag]⟩
    · simp [Scheduler.boot, eq, ProcState.Live] at live
  zombie k zombie := by
    by_cases eq : k = initproc
    · subst eq
      simp [Scheduler.boot] at zombie
    · simp [Scheduler.boot, eq] at zombie

end Accounted

theorem reapsx_zombie {s : State S.Frame} {c : Nat} {k : Slot} (reaps : S.reapsx s c = some k) :
    (s.ptable k).state = .zombie := by
  unfold reapsx at reaps
  cases at_c : s.cpu c with
  | running f i =>
    simp only [at_c, Option.ite_none_right_eq_some] at reaps
    exact (zombieOf_state reaps.2).2
  | _ => simp [at_c] at reaps

/-- As long as no `allocproc` comes between `ticks++` and `updateRunsandOthers`, `waitx` never reports a
    negative waiting time, in every build and on any number of CPUs. -/
theorem waitx_times_nonneg (policy : Policy) {past : List (State policy.scheduler.Frame × Action)}
    {s : State policy.scheduler.Frame} (path : Path (policy.scheduler.Under Timely) policy.scheduler.boot past s) (c : Nat)
    (k : Slot) (reaped : policy.scheduler.reapsx s c = some k) :
    ((s.ptable k).rtime + (s.ptable k).iotime).toInt ≤ ((s.ptable k).etime - (s.ptable k).ctime).toInt ∧
      0 ≤ (s.ptable k).times.2.toInt :=
  ((path.always Accounted.boot Accounted.step).zombie k (reapsx_zombie reaped)).times_nonneg

/-- Slot 1, which the first `fork` finds. -/
def firstChild : Slot := ⟨1, by decide⟩

def secondChild : Slot := ⟨2, by decide⟩

/-- A child is created and dispatched on CPU 1 while CPU 0 is between `ticks++` and
    `updateRunsandOthers`, which then charges it a tick from before its creation. -/
def lateChargeRun : List Action :=
  [.start 1, .dispatch 1, .tick, .fork 1, .forkDone 1, .waitx 1, .resume 1, .dispatch 1, .charge, .wakeTicks,
    .exit 1, .resume 1, .start 1, .dispatch 1]

theorem waitx_negative_wtime : ¬ ∀ (policy : Policy) past s, Path policy.scheduler.Takes policy.scheduler.boot past s →
    ∀ c k, policy.scheduler.reapsx s c = some k →
      ((s.ptable k).rtime + (s.ptable k).iotime).toInt ≤ ((s.ptable k).etime - (s.ptable k).ctime).toInt ∧
        0 ≤ (s.ptable k).times.2.toInt := by
  intro claim
  obtain ⟨past, s, path, reached⟩ := replay_reaches rr.step rr.boot lateChargeRun
    (fun _ s => rr.reapsx s 1 = some firstChild ∧ (s.ptable firstChild).times.2 = -1) (by decide +kernel)
  simp only [decide_eq_true_eq] at reached
  have nonneg := (claim .rr past s path 1 firstChild reached.1).2
  rw [reached.2] at nonneg
  exact absurd nonneg (by decide)

/-- The same child, created after the tick has been charged. -/
def timelyRun : List Action :=
  [.start 1, .dispatch 1, .tick, .charge, .wakeTicks, .fork 1, .forkDone 1, .waitx 1, .resume 1, .dispatch 1,
    .exit 1, .resume 1, .start 1, .dispatch 1]

theorem waitx_times_nonneg_of_timely_run : ∃ past s,
    Path (Policy.rr.scheduler.Under Timely) Policy.rr.scheduler.boot past s ∧
      rr.reapsx s 1 = some firstChild ∧ 0 ≤ (s.ptable firstChild).times.2.toInt := by
  obtain ⟨past, s, path, reached⟩ := replay_reaches rr.step rr.boot timelyRun
    (fun past s => rr.reapsx s 1 = some firstChild ∧ ∀ entry ∈ past, Timely entry.1 entry.2) (by decide +kernel)
  simp only [decide_eq_true_eq] at reached
  have timely := path.restrict reached.2
  exact ⟨past, s, timely, reached.1, (waitx_times_nonneg .rr timely 1 firstChild reached.1).2⟩

end Xv6.Sched
