import Xv6.Sched.Slices

namespace Xv6.Sched

open Scheduler Transition

/-- With one CPU the others never leave the idle loop. -/
def Lone {S : Scheduler} (s : State S.Frame) : Prop := ∀ c, c ≠ 0 → s.cpu c = .idle

theorem Lone.step {S : Scheduler} {s s' : State S.Frame} {a : Action} (held : Lone s) (taken : S.Under OneCpu s a s') :
    Lone s' := by
  intro c ne
  have one : a.cpu = 0 := taken.2
  have turn : Turn S s c s' a := Turn.of_step (step_cases taken.1) c
  refine turn.idle_stays (held c ne) fun start => ne ?_
  rw [start] at one
  exact one

namespace MLFQ

variable {s s' : State mlfq.Frame} {a : Action} {past : List (State mlfq.Frame × Action)} {k : Slot} {f g : Frame}

/-- `ticks - p->lastWorkingticks` -/
def wait (s : State mlfq.Frame) (k : Slot) : Nat := (s.ticks - (s.ptable k).lastWorkingticks).toNat

/-- `q_max_time[p->queue]` -/
def patience (t : Table) (k : Slot) : Nat := (qMaxTime (t k).queue.toNat).toNat

theorem patience_le {t : Table} (bounds : (t k).InBounds) : patience t k ≤ 20 := by
  have queue := bounds.queue
  unfold patience
  generalize (t k).queue.toNat = q at queue
  have cases : q = 0 ∨ q = 1 ∨ q = 2 ∨ q = 3 ∨ q = 4 := by omega
  rcases cases with rfl | rfl | rfl | rfl | rfl <;> simp [qMaxTime]

theorem wait_le (taken : Step mlfq s a s') (last : (s'.ptable k).lastWorkingticks = (s.ptable k).lastWorkingticks) :
    wait s' k ≤ wait s k + if a = .tick then 1 else 0 := by
  have clock : Clock s s' a := Clock.of_step taken
  have ticks : s'.ticks = s.ticks + if a = .tick then 1 else 0 := by
    cases clock with
    | tick before after ticks => rw [ticks, if_pos rfl]
    | charge before after ticks => simp [ticks]
    | wakeTicks before after ticks => simp [ticks]
    | still a timer ticks tick => simp [ticks, tick]
  unfold wait
  rw [last, ticks]
  split <;> bv_omega

/-- The invariants of one CPU: its time slice, the idle loop of the others, and the sleepers. -/
structure OneFrame (s : State mlfq.Frame) : Prop where
  sliced : Sliced s
  lone : Lone s
  resting : Resting s

theorem Sliced.noted (held : Sliced s) (one : a.cpu = 0) : Noted s a := by
  intro c f eq at_c _ counted
  subst eq
  rw [show c = 0 from one] at at_c
  rw [held.lag_eq_zero (.inr at_c)] at counted
  cases counted

namespace OneFrame

theorem step (held : OneFrame s) (taken : mlfq.Under OneCpu s a s') : OneFrame s' :=
  ⟨held.sliced.step taken, held.lone.step taken, held.resting.step (step_cases taken.1) (held.sliced.noted taken.2)⟩

theorem boot : OneFrame mlfq.boot := ⟨.boot, fun _ _ => rfl, .boot⟩

theorem not_framed (held : OneFrame s) (other : ∀ f : Frame, (s.cpu 0).frame = some f → f.p ≠ k) : ¬ Framed s k := by
  intro ⟨c, f, at_c, same⟩
  by_cases zero : c = 0
  · subst zero
    exact other f at_c same
  · rw [held.lone c zero] at at_c
    cases at_c

/-- A tick that has been counted is made up for when it is charged: with a process at the front, the ticks of its slice
    and the one due grow with the clock. -/
theorem slice_later (held : OneFrame s) (taken : mlfq.Under OneCpu s a s') (at_0 : (s.cpu 0).frame = some f)
    (start : a ≠ .start 0) (resume : a ≠ .resume 0) :
    curr s'.ptable f + s'.timer.lag = curr s.ptable f + s.timer.lag + if a = .tick then 1 else 0 := by
  have stepped : Step mlfq s a s' := step_cases taken.1
  have same : a ≠ .charge → curr s'.ptable f = curr s.ptable f := fun plain =>
    congrArg BitVec.toNat (held_curr held.sliced.queued.coherent stepped at_0 start resume plain)
  have clock : Clock s s' a := Clock.of_step stepped
  cases clock with
  | tick before after ticks =>
    rw [same (by simp), before, after, if_pos rfl]
    rfl
  | charge before after ticks =>
    obtain ⟨-, -, next⟩ := held.sliced.charged stepped at_0
    rw [next, before, after, if_neg (by simp)]
    rfl
  | wakeTicks before after ticks =>
    rw [same (by simp), before, after, if_neg (by simp)]
    rfl
  | still a timer ticks tick charge wakeTicks => rw [same charge, timer, if_neg tick, Nat.add_zero]

theorem waiting (held : OneFrame s) (taken : mlfq.Under OneCpu s a s') (was : s.ptable.Runnable k)
    (other : ∀ f : Frame, (s.cpu 0).frame = some f → f.p ≠ k) (start : a ≠ .start 0) :
    (s'.ptable k).lastWorkingticks = (s.ptable k).lastWorkingticks ∧ (s'.ptable k).queue = (s.ptable k).queue ∧
      (s'.ptable k).ctime = (s.ptable k).ctime := by
  have move : Move mlfq s k a (s'.ptable k) := Move.of_step held.resting.coherent (step_cases taken.1)
  have one : a.cpu = 0 := taken.2
  have before : (s.ptable k).state = .runnable := was
  generalize s'.ptable k = p at move
  cases move with
  | quiet a p plain old kept woken => exact ⟨by rw [kept], by rw [kept], by rw [kept]⟩
  | charge free counted => simp [Proc.updateRunsandOthers, before]
  | start c free => exact absurd (congrArg Action.start one) start
  | resume c f at_c =>
    have zero : c = 0 := one
    subst zero
    have ne : k ≠ f.p := fun mine => other f (by rw [at_c]; rfl) mine.symm
    rw [show (mlfq.resume s.ticks f s.ptable).1 k = s.ptable k from resume_other _ ne]
    exact ⟨rfl, rfl, rfl⟩
  | run c f at_c mine =>
    have zero : c = 0 := one
    subst zero
    exact absurd mine (other f (by rw [at_c]; rfl))
  | ready c parent embryo =>
    rw [before] at embryo
    cases embryo
  | switch a p plain old clock kept running =>
    rw [before] at running
    cases running
  | exit c p kept running =>
    rw [before] at running
    cases running
  | found c here unused =>
    rw [before] at unused
    cases unused
  | abandoned c embryo =>
    rw [before] at embryo
    cases embryo
  | reaped c zombie =>
    rw [before] at zombie
    cases zombie
  | reapedx c zombie =>
    rw [before] at zombie
    cases zombie

/-- A process that has just been woken has waited at most for the tick that is due. -/
theorem fresh (held : OneFrame s) (taken : mlfq.Under OneCpu s a s') (was : ¬ s.ptable.Runnable k)
    (grown : (s.ptable k).state ≠ .embryo) (other : ∀ f : Frame, (s'.cpu 0).frame = some f → f.p ≠ k)
    (runnable : s'.ptable.Runnable k) : wait s' k = s'.timer.lag := by
  have away := (held.step taken).not_framed other
  have lies := held.resting.wakes_up (step_cases taken.1) was grown away runnable
  unfold wait
  rw [lies]
  cases s'.timer <;> rfl

end OneFrame

/-- The invariant of the lower queues: while a process is at the front, no other has waited longer than its queue allows
    and the ticks of the slice. -/
structure Served (s : State mlfq.Frame) : Prop where
  one : OneFrame s
  waits : ∀ f : Frame, (s.cpu 0).frame = some f → ∀ k, k ≠ f.p → s.ptable.Runnable k → (s.ptable k).queue ≠ 0 →
    wait s k ≤ patience s.ptable k + curr s.ptable f + s.timer.lag

theorem start_waits {ticks : Word} {t : Table} (bounds : (t k).InBounds) (runnable : t.Runnable k)
    (queued : ((start ticks t).1 k).queue ≠ 0) :
    (ticks - ((start ticks t).1 k).lastWorkingticks).toNat ≤ patience (start ticks t).1 k := by
  rcases start_cases ticks t k with ⟨early, queue, last⟩ | ⟨-, -, last⟩
  · unfold patience
    rw [queue] at queued ⊢
    rw [last]
    by_contra exceeds
    have small := bounds.queue
    have positive : 0 < (t k).queue.toInt := by
      rw [BitVec.toInt_eq_toNat_of_lt (by omega)]
      have : (t k).queue.toNat ≠ 0 := fun zero => queued (BitVec.eq_of_toNat_eq zero)
      omega
    exact early ⟨runnable, positive, not_le.mp exceeds⟩
  · rw [last, BitVec.sub_self]
    exact Nat.zero_le _

namespace Served

theorem goes_on (held : Served s) (taken : mlfq.Under OneCpu s a s') (at_0 : (s.cpu 0).frame = some f)
    (at_0' : (s'.cpu 0).frame = some f) (start : a ≠ .start 0) (resume : a ≠ .resume 0) (ne : k ≠ f.p)
    (runnable : s'.ptable.Runnable k) (queued : (s'.ptable k).queue ≠ 0) :
    wait s' k ≤ patience s'.ptable k + curr s'.ptable f + s'.timer.lag := by
  have slice := held.one.slice_later taken at_0 start resume
  have other : ∀ {x : State mlfq.Frame}, (x.cpu 0).frame = some f → ∀ g : Frame, (x.cpu 0).frame = some g → g.p ≠ k := by
    intro x at_x g at_g
    cases at_x.symm.trans at_g
    exact ne.symm
  by_cases was : s.ptable.Runnable k
  · obtain ⟨last, queue, -⟩ := held.one.waiting taken was (other at_0) start
    have old := held.waits f at_0 k ne was (by rwa [← queue])
    have later := wait_le (step_cases taken.1) last
    unfold patience at old ⊢
    rw [queue]
    omega
  · have grown : (s.ptable k).state ≠ .embryo := fun embryo =>
      queued (held.one.resting.hatches (step_cases taken.1) embryo)
    rw [held.one.fresh taken was grown (other at_0') runnable]
    exact Nat.le_add_left _ _

theorem start_step (held : Served s) (taken : mlfq.Under OneCpu s (.start 0) s') (runnable : s'.ptable.Runnable k)
    (queued : (s'.ptable k).queue ≠ 0) : wait s' k ≤ patience s'.ptable k := by
  have stepped : Step mlfq s (.start 0) s' := step_cases taken.1
  have turn : Turn mlfq s 0 s' (.start 0) := Turn.of_step stepped 0
  obtain ⟨-, -, table, -⟩ := turn.started
  have clock : Clock s s' (.start 0) := Clock.of_step stepped
  have ticks := (clock.stands (by simp) (by simp) (by simp)).2
  have was : s.ptable.Runnable k := (mlfq.start_books s.ticks s.ptable k).state.symm.trans (table ▸ runnable)
  unfold wait
  rw [table, ticks]
  exact start_waits (held.one.sliced.queued.bounds k) was (table ▸ queued)

theorem resume_step (held : Served s) (taken : mlfq.Under OneCpu s (.resume 0) s') (at_0' : (s'.cpu 0).frame = some f)
    (ne : k ≠ f.p) (runnable : s'.ptable.Runnable k) (queued : (s'.ptable k).queue ≠ 0) :
    wait s' k ≤ patience s'.ptable k + curr s'.ptable f + s'.timer.lag := by
  have stepped : Step mlfq s (.resume 0) s' := step_cases taken.1
  obtain ⟨g, back, ⟨table, seat, -⟩ | ⟨-, seat, -⟩⟩ := resumed stepped
  · rw [seat] at at_0'
    cases at_0'
    have clock : Clock s s' (.resume 0) := Clock.of_step stepped
    obtain ⟨timer, ticks⟩ := clock.stands (by simp) (by simp) (by simp)
    have old := held.waits f (by rw [back]; rfl) k ne (table ▸ runnable) (table ▸ queued)
    unfold wait at old ⊢
    rw [table, ticks, timer]
    exact old
  · rw [seat] at at_0'
    cases at_0'

theorem step (held : Served s) (taken : mlfq.Under OneCpu s a s') : Served s' := by
  have turn : Turn mlfq s 0 s' a := Turn.of_step (step_cases taken.1) 0
  refine ⟨held.one.step taken, fun f at_0' k ne runnable queued => ?_⟩
  rcases turn.frame_cases at_0' with ⟨at_0, start, resume⟩ | ⟨rfl, -⟩ | ⟨rfl, -⟩
  · exact held.goes_on taken at_0 at_0' start resume ne runnable queued
  · exact (held.start_step taken runnable queued).trans (Nat.le_add_right_of_le (Nat.le_add_right _ _))
  · exact held.resume_step taken at_0' ne runnable queued

theorem boot : Served mlfq.boot := ⟨.boot, fun _ at_0 => by cases at_0⟩

end Served

end MLFQ

/-- Bounded waiting in the lower queues of the MLFQ build on one CPU: at every dispatch every other RUNNABLE process of
    queue 1 to 4 has waited at most as long as its queue allows and the longest time slice. -/
theorem mlfq_lower_queues {past : List (State mlfq.Frame × Action)} {s : State mlfq.Frame}
    (path : Path (mlfq.Under OneCpu) mlfq.boot past s) {p : Slot}
    (dispatched : mlfq.dispatched s (.dispatch 0) = some p) {k : Slot} (ne : k ≠ p)
    (runnable : (s.ptable k).state = .runnable) {q : Nat} (queue : (s.ptable k).queue.toInt = q) (low : 1 ≤ q) :
    0 ≤ (s.ticks - (s.ptable k).lastWorkingticks).toInt ∧
      (s.ticks - (s.ptable k).lastWorkingticks).toInt ≤ (qMaxTime q).toInt + (maxTickOfQ 4).toInt := by
  have served : MLFQ.Served s := path.always .boot (fun held taken => held.step taken)
  obtain ⟨f, at_0, rfl⟩ : ∃ f : MLFQ.Frame, s.cpu 0 = .picked f ∧ f.p = p := picked_of_dispatched dispatched
  have bounds := served.one.sliced.queued.bounds k
  have small := bounds.queue
  have patience := MLFQ.patience_le bounds
  rw [BitVec.toInt_eq_toNat_of_lt (by omega)] at queue
  have queue : (s.ptable k).queue.toNat = q := by omega
  have queued : (s.ptable k).queue ≠ 0 := by
    intro zero
    rw [zero] at queue
    have : q = 0 := queue.symm
    omega
  have waits := served.waits f (by rw [at_0]; rfl) k ne runnable queued
  have slice := served.one.sliced.slice
  rw [at_0] at slice
  have less : MLFQ.curr s.ptable f < MLFQ.allowed f := slice
  have allowed := MLFQ.allowed_le f
  rw [served.one.sliced.lag_eq_zero (.inl at_0)] at waits
  have lag : Timer.ready.lag = 0 := rfl
  unfold MLFQ.wait at waits
  unfold MLFQ.patience at waits patience
  rw [queue] at waits patience
  rw [BitVec.toInt_eq_toNat_of_lt (by omega), BitVec.toInt_eq_toNat_of_lt (by omega),
    show (maxTickOfQ 4).toInt = 16 from rfl]
  omega

/-- Init has used up its time slice and its child is chosen before it. -/
def demotedRun : List Action :=
  [.start 0, .dispatch 0, .fork 0, .forkDone 0, .tick, .charge, .wakeTicks, .yield 0, .resume 0, .start 0]

theorem mlfq_lower_queues_of_init : ∃ past s, Path (mlfq.Under OneCpu) mlfq.boot past s ∧
    mlfq.dispatched s (.dispatch 0) = some firstChild ∧ (s.ptable initproc).state = .runnable ∧
      (s.ptable initproc).queue.toInt = 1 ∧ 0 ≤ (s.ticks - (s.ptable initproc).lastWorkingticks).toInt ∧
      (s.ticks - (s.ptable initproc).lastWorkingticks).toInt ≤ (qMaxTime 1).toInt + (maxTickOfQ 4).toInt := by
  obtain ⟨past, s, path, reached⟩ := replay_reaches mlfq.step mlfq.boot demotedRun
    (fun past s => (∀ entry ∈ past, OneCpu entry.1 entry.2) ∧ mlfq.dispatched s (.dispatch 0) = some firstChild ∧
      (s.ptable initproc).state = .runnable ∧ (s.ptable initproc).queue.toInt = 1) (by decide +kernel)
  simp only [decide_eq_true_eq] at reached
  obtain ⟨one, dispatched, runnable, queue⟩ := reached
  have run : Path (mlfq.Under OneCpu) mlfq.boot past s := path.restrict one
  exact ⟨past, s, run, dispatched, runnable, queue,
    mlfq_lower_queues run dispatched (by decide) runnable (q := 1) queue le_rfl⟩

end Xv6.Sched
