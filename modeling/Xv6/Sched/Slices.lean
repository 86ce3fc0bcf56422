import Mathlib.Data.List.GetD
import Xv6.Sched.Sleepers

namespace Xv6.Sched

open Scheduler Transition

theorem held_curr {S : Scheduler} {s s' : State S.Frame} {a : Action} {d : Nat} {f : S.Frame} (held : Coherent s)
    (taken : Step S s a s') (at_d : (s.cpu d).frame = some f) (start : a ≠ .start d) (resume : a ≠ .resume d)
    (plain : a ≠ .charge) :
    (s'.ptable (S.proc f)).currQTicks = (s.ptable (S.proc f)).currQTicks := by
  have move : Move S s (S.proc f) a (s'.ptable (S.proc f)) := Move.of_step held taken
  obtain ⟨used, -, dead⟩ := (held.agrees d).state_ne at_d
  generalize s'.ptable (S.proc f) = p at move
  cases move with
  | quiet a p plain old kept woken => rw [kept]
  | switch a p plain old clock kept before after => rw [kept]
  | exit c p kept before after => rw [kept]
  | start c free => rw [held.spared_start at_d free]
  | resume c g at_c =>
    have ne : d ≠ c := fun eq => resume (by rw [eq])
    rw [held.spared_resume at_d at_c ne]
  | run => rfl
  | charge => exact absurd rfl plain
  | found c here before => exact absurd before used
  | abandoned => rfl
  | ready => rfl
  | reaped => rfl
  | reapedx c before =>
    cases taken with
    | call a g i s' at_c awake killed called =>
      cases called with
      | waitx c' free => exact absurd before (dead free)

namespace MLFQ

variable {s s' : State mlfq.Frame} {a : Action} {past new : List (State mlfq.Frame × Action)} {k : Slot} {f : Frame}

/-- The ticks charged to the process of a frame since it was chosen. -/
def curr (t : Table) (f : Frame) : Nat := (t f.p).currQTicks.toNat

/-- `max_tick_of_q[i]` -/
def allowed (f : Frame) : Nat := (maxTickOfQ f.i).toNat

/-- How far the time slice of a frame can have got, by the place of the CPU. -/
def Slice (t : Table) (timer : Timer) : Cpu Frame → Prop
  | .idle => True
  | .picked f => curr t f < allowed f
  | .running f interrupted => curr t f + timer.lag ≤ allowed f ∧
    (interrupted = false → timer ≠ .charged → curr t f < allowed f) ∧ (interrupted = true → timer = .ready)
  | .back f => curr t f ≤ allowed f

theorem Slice.bound {t : Table} {timer : Timer} {c : Cpu mlfq.Frame} (slice : Slice t timer c) (at_c : c.frame = some f) :
    curr t f ≤ allowed f := by
  cases c with
  | idle => cases at_c
  | picked g =>
    cases at_c
    have less : curr t f < allowed f := slice
    exact less.le
  | running g i =>
    cases at_c
    exact (Nat.le_add_right _ _).trans slice.1
  | back g =>
    cases at_c
    exact slice

/-- The invariant of the time slices on one CPU. -/
structure Sliced (s : State mlfq.Frame) : Prop where
  queued : Queued s
  interruptible : Interruptible s
  slice : Slice s.ptable s.timer (s.cpu 0)

theorem allowed_pos (small : f.i < 5) : 0 < allowed f := by
  obtain ⟨i, p⟩ := f
  have cases : i = 0 ∨ i = 1 ∨ i = 2 ∨ i = 3 ∨ i = 4 := by
    have : i < 5 := small
    omega
  rcases cases with rfl | rfl | rfl | rfl | rfl <;> simp [allowed, maxTickOfQ]

theorem allowed_le (f : Frame) : allowed f ≤ 16 := by
  obtain ⟨i, p⟩ := f
  by_cases small : i < 5
  · have cases : i = 0 ∨ i = 1 ∨ i = 2 ∨ i = 3 ∨ i = 4 := by omega
    rcases cases with rfl | rfl | rfl | rfl | rfl <;> simp [allowed, maxTickOfQ]
  · have none : maxTickOfQ i = 0 := List.getD_eq_default _ _ (by simpa using small)
    simp [allowed, none]

/-- A time slice within its bounds is used up when it has reached the allowed number of ticks. -/
theorem spent_iff {t : Table} (within : curr t f ≤ allowed f) : Spent f.i (t f.p) ↔ curr t f = allowed f := by
  have small := allowed_le f
  unfold Spent
  unfold curr allowed at *
  rw [BitVec.toInt_eq_toNat_of_lt (by omega), BitVec.toInt_eq_toNat_of_lt (by omega)]
  omega

theorem start_curr {t : Table} {ticks : Word} (picked : (start ticks t).2 = some f) :
    curr (start ticks t).1 f = 0 := by
  rw [curr, (start_eq_some picked).1, Table.modify_self]
  rfl

namespace Sliced

theorem lag_eq_zero (held : Sliced s) (at_0 : s.cpu 0 = .picked f ∨ s.cpu 0 = .back f) : s.timer = .ready := by
  by_contra busy
  have away := held.interruptible busy f
  rcases at_0 with h | h
  · exact away.1 h
  · exact away.2 h

theorem charged (held : Sliced s) (taken : Step mlfq s .charge s') (at_0 : (s.cpu 0).frame = some f) :
    (s.ptable f.p).state = .running ∧ curr s.ptable f + 1 ≤ allowed f ∧ curr s'.ptable f = curr s.ptable f + 1 := by
  have counted : s.timer = .counted := by
    have clock : Clock s s' .charge := Clock.of_step taken
    cases clock with
    | charge before => exact before
    | still a timer ticks tick charge => exact absurd rfl charge
  have away := held.interruptible (by rw [counted]; decide) f
  have slice := held.slice
  cases at_c : s.cpu 0 with
  | running g i =>
    rw [at_c] at at_0 slice
    cases at_0
    have running := held.queued.coherent.running at_c
    have room := slice.1
    rw [counted] at room
    have room' : curr s.ptable f + 1 ≤ allowed f := room
    refine ⟨running, room', ?_⟩
    cases taken with
    | call a g i s' at_c awake killed called => cases called
    | charge counted free =>
      have small := allowed_le f
      have running' : (s.ptable f.p).state = .running := running
      unfold curr at room' ⊢
      have same : (s.ptable.updateRunsandOthers f.p).currQTicks = (s.ptable f.p).currQTicks + 1 := by
        simp [Table.updateRunsandOthers, Proc.updateRunsandOthers, running']
      rw [same]
      bv_omega
  | idle =>
    rw [at_c] at at_0
    cases at_0
  | picked g =>
    rw [at_c] at at_0
    cases at_0
    exact absurd at_c away.1
  | back g =>
    rw [at_c] at at_0
    cases at_0
    exact absurd at_c away.2

theorem slice_step (held : Sliced s) (taken : mlfq.Under OneCpu s a s') : Slice s'.ptable s'.timer (s'.cpu 0) := by
  have stepped : Step mlfq s a s' := step_cases taken.1
  have turn : Turn mlfq s 0 s' a := Turn.of_step stepped 0
  have clock : Clock s s' a := Clock.of_step stepped
  have slice := held.slice
  have kept : ∀ {g : Frame}, (s.cpu 0).frame = some g → a ≠ .start 0 → a ≠ .resume 0 → a ≠ .charge →
      curr s'.ptable g = curr s.ptable g := fun at_0 start resume plain =>
    congrArg BitVec.toNat (held_curr held.queued.coherent stepped at_0 start resume plain)
  have seated : ∀ {x : Option Frame}, (∀ g, x = some g → curr s'.ptable g < allowed g) →
      Slice s'.ptable s'.timer (.seat x) := by
    intro x fresh
    cases x with
    | none => trivial
    | some g => exact fresh g rfl
  cases turn with
  | still a same start dispatch resume wakes =>
    rw [same]
    cases at_0 : s.cpu 0 with
    | idle => trivial
    | picked g => exact absurd (dispatches held.queued.coherent taken at_0) dispatch
    | back g => exact absurd (resumes held.queued.coherent taken at_0) resume
    | running g i =>
      have frame : (s.cpu 0).frame = some g := by rw [at_0]; rfl
      rw [at_0] at slice
      obtain ⟨room, fresh, quiet⟩ := slice
      cases clock with
      | tick before after ticks =>
        have less : curr s.ptable g < allowed g := by
          cases i with
          | false => exact fresh rfl (by rw [before]; decide)
          | true =>
            cases stepped with
            | tick at_c ready => simp [at_0] at at_c
            | call a f i s' at_c awake killed called => cases called
        have same := kept frame (by simp) (by simp) (by simp)
        refine ⟨?_, fun _ _ => by rw [same]; exact less, fun yes => ?_⟩
        · rw [same, after]
          exact less
        · cases stepped with
          | tick at_c ready => simp [at_0, yes] at at_c
          | call a f i s' at_c awake killed called => cases called
      | charge before after ticks =>
        obtain ⟨-, bound, next⟩ := held.charged stepped frame
        refine ⟨?_, fun _ settled => absurd after settled, fun yes => ?_⟩
        · rw [next, after]
          exact bound
        · rw [quiet yes] at before
          cases before
      | wakeTicks before after ticks => exact absurd at_0 (wakes rfl rfl g i)
      | still a timer ticks tick charge wakeTicks =>
        have same := kept frame start resume charge
        refine ⟨?_, fun no settled => ?_, fun yes => ?_⟩
        · rw [same, timer]
          exact room
        · rw [timer] at settled
          rw [same]
          exact fresh no settled
        · rw [timer]
          exact quiet yes
  | start idle awake free table seat =>
    rw [seat]
    refine seated fun g picked => ?_
    have chosen : (MLFQ.start s.ticks s.ptable).2 = some g := picked
    have small := (start_frame chosen).2
    have zero : curr s'.ptable g = 0 := by
      rw [table]
      exact start_curr chosen
    rw [zero]
    exact allowed_pos small
  | resume g at_0 table seat =>
    rw [seat]
    refine seated fun h picked => ?_
    rw [at_0] at slice
    have within : curr s.ptable g ≤ allowed g := slice
    obtain ⟨rfl, same, unspent, -⟩ := resume_eq_some (show (MLFQ.resume s.ticks g s.ptable).2 = some h from picked)
    have less : curr s.ptable h ≠ allowed h := fun full => unspent ((spent_iff within).mpr full)
    have table' : s'.ptable = s.ptable := table.trans same
    rw [table']
    omega
  | dispatch g at_0 table seat =>
    rw [at_0] at slice
    have less : curr s.ptable g < allowed g := slice
    have same := kept (by rw [at_0]; rfl) (by simp) (by simp) (by simp)
    have ready := held.lag_eq_zero (.inl at_0)
    rw [seat]
    cases clock with
    | still a timer ticks =>
      refine ⟨?_, fun _ _ => by rw [same]; exact less, fun no => by cases no⟩
      rw [same, timer, ready]
      exact less.le
  | wakeTicks g i zero at_0 seat =>
    rw [at_0] at slice
    have same := kept (by rw [at_0]; rfl) (by simp) (by simp) (by simp)
    rw [seat]
    cases clock with
    | wakeTicks before after ticks =>
      refine ⟨?_, fun no => (by cases no), fun _ => after⟩
      rw [same, after]
      exact (Nat.le_add_right _ _).trans slice.1
    | still a timer ticks tick charge wakeTicks => exact absurd rfl wakeTicks
  | interrupt g at_0 ne => exact absurd rfl ne
  | yield g i at_0 awake free due seat =>
    rw [at_0] at slice
    have same := kept (by rw [at_0]; rfl) (by simp) (by simp) (by simp)
    rw [seat]
    show curr s'.ptable g ≤ allowed g
    rw [same]
    exact (Nat.le_add_right _ _).trans slice.1
  | leave a g i at_0 awake mine called gone seat =>
    rw [at_0] at slice
    have same := kept (by rw [at_0]; rfl) (fun eq => by subst eq; cases called) (fun eq => by subst eq; cases called)
      (fun eq => by subst eq; cases called)
    rw [seat]
    show curr s'.ptable g ≤ allowed g
    rw [same]
    exact (Nat.le_add_right _ _).trans slice.1

theorem step (held : Sliced s) (taken : mlfq.Under OneCpu s a s') : Sliced s' :=
  ⟨held.queued.step (step_cases taken.1), held.interruptible.step taken, held.slice_step taken⟩

theorem boot : Sliced mlfq.boot := ⟨⟨.boot, boot_inBounds, fun _ _ at_c => by cases at_c⟩, .boot, trivial⟩

end Sliced

theorem sliced (path : Path (mlfq.Under OneCpu) mlfq.boot past s) : Sliced s :=
  path.always .boot (fun held taken => held.step taken)

end MLFQ

end Xv6.Sched
