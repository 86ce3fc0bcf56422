import Xv6.Sched.Bounds
import Xv6.Sched.Dispatches

namespace Xv6.Sched

open Scheduler Transition

namespace MLFQ

variable {s s' : State mlfq.Frame} {a : Action} {k : Slot} {t : Table} {ticks : Word} {f : Frame}

def Late (p : Proc) (ticks : Word) : Prop :=
  p.state = .runnable ∧ 0 < p.queue.toInt ∧ qMaxTime p.queue.toNat < ticks - p.lastWorkingticks

theorem aged_cases (p : Proc) (ticks : Word) :
    ¬ Late p ticks ∧ aged p ticks = p ∨
      Late p ticks ∧ aged p ticks = { p with queue := p.queue - 1, lastWorkingticks := ticks } := by
  by_cases late : Late p ticks
  · exact .inr ⟨late, if_pos late⟩
  · exact .inl ⟨late, if_neg late⟩

theorem start_aged (ticks : Word) (t : Table) (k : Slot) :
    ((start ticks t).1 k).queue = (aged (t k) ticks).queue ∧
      ((start ticks t).1 k).lastWorkingticks = (aged (t k) ticks).lastWorkingticks := by
  unfold start
  cases select (age t ticks) with
  | none => exact ⟨rfl, rfl⟩
  | some f =>
    by_cases eq : k = f.p
    · subst eq
      simp only [Table.modify_self]
      exact ⟨rfl, rfl⟩
    · simp only [Table.modify_of_ne _ _ eq]
      exact ⟨rfl, rfl⟩

/-- The scheduler moves a late process up a queue and leaves `queue` and `lastWorkingticks` of the others alone. -/
theorem start_cases (ticks : Word) (t : Table) (k : Slot) :
    ¬ Late (t k) ticks ∧ ((start ticks t).1 k).queue = (t k).queue ∧
        ((start ticks t).1 k).lastWorkingticks = (t k).lastWorkingticks ∨
      Late (t k) ticks ∧ ((start ticks t).1 k).queue = (t k).queue - 1 ∧
        ((start ticks t).1 k).lastWorkingticks = ticks := by
  obtain ⟨queue, last⟩ := start_aged ticks t k
  rw [queue, last]
  rcases aged_cases (t k) ticks with ⟨early, old⟩ | ⟨late, new⟩
  · rw [old]
    exact .inl ⟨early, rfl, rfl⟩
  · rw [new]
    exact .inr ⟨late, rfl, rfl⟩

theorem resume_cases (ticks : Word) (f : Frame) (t : Table) :
    resume ticks f t = (t, some f) ∧ ¬ Spent f.i (t f.p) ∧ t.Runnable f.p ∨
      resume ticks f t = (t.modify f.p (leave f.i ticks), none) ∧ (Spent f.i (t f.p) ∨ ¬ t.Runnable f.p) := by
  unfold resume
  by_cases again : ¬ Spent f.i (t f.p) ∧ t.Runnable f.p
  · exact .inl ⟨if_pos again, again⟩
  · refine .inr ⟨if_neg again, ?_⟩
    by_cases spent : Spent f.i (t f.p)
    · exact .inl spent
    · exact .inr fun runnable => again ⟨spent, runnable⟩

theorem resume_last (ticks : Word) (f : Frame) (t : Table) (k : Slot) :
    ((resume ticks f t).1 k).lastWorkingticks = (t k).lastWorkingticks ∨
      ((resume ticks f t).1 k).lastWorkingticks = ticks := by
  rcases resume_cases ticks f t with ⟨again, -⟩ | ⟨left, -⟩
  · rw [again]
    exact .inl rfl
  · rw [left]
    by_cases eq : k = f.p
    · subst eq
      exact .inr (congrArg Proc.lastWorkingticks (t.modify_self f.p (leave f.i ticks)))
    · exact .inl (congrArg Proc.lastWorkingticks (t.modify_of_ne (leave f.i ticks) eq))

/-- A scheduler that goes on does so with the same process or lets go of it. -/
theorem resumed {c : Nat} (taken : Step mlfq s (.resume c) s') : ∃ f : Frame, s.cpu c = .back f ∧
    (s'.ptable = s.ptable ∧ s'.cpu c = .picked f ∧ ¬ Spent f.i (s.ptable f.p) ∧ s.ptable.Runnable f.p ∨
      s'.ptable = s.ptable.modify f.p (leave f.i s.ticks) ∧ s'.cpu c = .idle ∧
        (Spent f.i (s.ptable f.p) ∨ ¬ s.ptable.Runnable f.p)) := by
  have turn : Turn mlfq s c s' (.resume c) := Turn.of_step taken c
  obtain ⟨f, at_c, table, seat⟩ := turn.resumed
  refine ⟨f, at_c, ?_⟩
  rcases resume_cases s.ticks f s.ptable with ⟨again, more⟩ | ⟨left, done⟩
  · rw [show mlfq.resume s.ticks f s.ptable = (s.ptable, some f) from again] at table seat
    exact .inl ⟨table, seat, more⟩
  · rw [show mlfq.resume s.ticks f s.ptable = (s.ptable.modify f.p (leave f.i s.ticks), none) from left] at table seat
    exact .inr ⟨table, seat, done⟩

theorem leave_last {ticks : Word} {t : Table} : (t.modify f.p (leave f.i ticks) f.p).lastWorkingticks = ticks := by
  rw [Table.modify_self]
  rfl

def Framed (s : State mlfq.Frame) (k : Slot) : Prop := ∃ c, ∃ f : Frame, (s.cpu c).frame = some f ∧ f.p = k

/-- The scheduler of some CPU has not yet written down that the process went to sleep. -/
def Pending (s : State mlfq.Frame) (k : Slot) : Prop := ∃ c, ∃ f : Frame, s.cpu c = .back f ∧ f.p = k

/-- No scheduler goes on after its process went to sleep while a counted tick is still to be charged. -/
def Noted (s : State mlfq.Frame) (a : Action) : Prop :=
  ∀ c, ∀ f : Frame, a = .resume c → s.cpu c = .back f → (s.ptable f.p).state = .sleeping → s.timer ≠ .counted

/-- How `lastWorkingticks` moves along with the clock while a process sleeps. -/
structure Resting (s : State mlfq.Frame) : Prop where
  coherent : Coherent s
  seated : Seated s
  asleep : ∀ k, (s.ptable k).state = .sleeping → Pending s k ∨
    s.ticks - (s.ptable k).lastWorkingticks = BitVec.ofNat 32 s.timer.lag
  embryo : ∀ k, (s.ptable k).state = .embryo → (s.ptable k).queue = 0

theorem lag_later (taken : Step mlfq s a s') (plain : a ≠ .charge) :
    s'.ticks + BitVec.ofNat 32 s.timer.lag = s.ticks + BitVec.ofNat 32 s'.timer.lag := by
  have clock : Clock s s' a := Clock.of_step taken
  cases clock with
  | tick before after ticks =>
    rw [ticks, before, after]
    simp [Timer.lag]
  | charge => exact absurd rfl plain
  | wakeTicks before after ticks =>
    rw [ticks, before, after]
    rfl
  | still a timer ticks => rw [ticks, timer]

theorem charge_later (taken : Step mlfq s .charge s') : s'.ticks = s.ticks ∧ s.timer.lag = 1 ∧ s'.timer.lag = 0 := by
  have clock : Clock s s' .charge := Clock.of_step taken
  cases clock with
  | charge before after ticks => exact ⟨ticks, by rw [before]; rfl, by rw [after]; rfl⟩
  | still a timer ticks tick charge => exact absurd rfl charge

/-- A CPU lets go of a process only when its scheduler goes on, which notes the time. -/
theorem let_go (taken : Step mlfq s a s') (framed : Framed s k) (gone : ¬ Framed s' k) :
    a ≠ .charge ∧ (s'.ptable k).lastWorkingticks = s.ticks := by
  obtain ⟨c, f, at_c, rfl⟩ := framed
  have turn : Turn mlfq s c s' a := Turn.of_step taken c
  by_cases resume : a = .resume c
  · subst resume
    obtain ⟨g, before, ⟨-, seat, -⟩ | ⟨table, -⟩⟩ := resumed taken
    · rw [before] at at_c
      cases at_c
      exact absurd ⟨c, f, by rw [seat]; rfl, rfl⟩ gone
    · rw [before] at at_c
      cases at_c
      rw [table]
      exact ⟨by simp, leave_last⟩
  · have start : a ≠ .start c := by
      intro eq
      subst eq
      rw [turn.started.1] at at_c
      cases at_c
    exact absurd ⟨c, f, (turn.frame_same start resume).trans at_c, rfl⟩ gone

namespace Resting

theorem not_pending (held : Resting s) (free : s.lock = none) : ¬ Pending s k := by
  intro ⟨c, f, at_c, _⟩
  have mine := (held.coherent.back at_c).1
  rw [free] at mine
  cases mine

theorem not_framed (held : Resting s) (free : s.lock = none) (runnable : s.ptable.Runnable k) : ¬ Framed s k := by
  intro ⟨c, f, at_c, same⟩
  have running := held.coherent.runs at_c (by simp [free])
  rw [show mlfq.proc f = k from same, show (s.ptable k).state = .runnable from runnable] at running
  cases running

theorem stops (held : Resting s) (taken : Step mlfq s a s') (before : (s.ptable k).state = .running)
    (after : (s'.ptable k).state ≠ .running) : Pending s' k := by
  have held' := held.coherent.step taken
  rcases held.seated.gone held' taken before with ⟨c, f, i, at_c, rfl⟩ | ⟨⟨c, f, at_c, same⟩, -⟩
  · exact absurd (held'.running at_c) after
  · exact ⟨c, f, at_c, same⟩

theorem asleep_written (taken : Step mlfq s a s') (noted : Noted s a) (slept : (s.ptable k).state = .sleeping)
    (pending : Pending s k) :
    Pending s' k ∨ s'.ticks - (s'.ptable k).lastWorkingticks = BitVec.ofNat 32 s'.timer.lag := by
  obtain ⟨c, f, at_c, rfl⟩ := pending
  by_cases resume : a = .resume c
  · subst resume
    have settled := noted c f rfl at_c slept
    have clock : Clock s s' (.resume c) := Clock.of_step taken
    obtain ⟨timer, ticks⟩ := clock.stands (by simp) (by simp) (by simp)
    have lag : s.timer.lag = 0 := by
      cases at_t : s.timer with
      | counted => exact absurd at_t settled
      | _ => rfl
    obtain ⟨g, before, ⟨-, -, -, runnable⟩ | ⟨table, -⟩⟩ := resumed taken
    · rw [at_c] at before
      cases before
      rw [show (s.ptable f.p).state = .runnable from runnable] at slept
      cases slept
    · rw [at_c] at before
      cases before
      rw [table, leave_last, timer, ticks, lag]
      exact .inr (BitVec.sub_self _)
  · have turn : Turn mlfq s c s' a := Turn.of_step taken c
    exact .inl ⟨c, f, turn.back_stays at_c resume, rfl⟩

theorem asleep_step (held : Resting s) (taken : Step mlfq s a s') (noted : Noted s a)
    (asleep : (s'.ptable k).state = .sleeping) :
    Pending s' k ∨ s'.ticks - (s'.ptable k).lastWorkingticks = BitVec.ofNat 32 s'.timer.lag := by
  have move : Move mlfq s k a (s'.ptable k) := Move.of_step held.coherent taken
  by_cases slept : (s.ptable k).state = .sleeping
  · by_cases pending : Pending s k
    · exact asleep_written taken noted slept pending
    · have lies := (held.asleep k slept).resolve_left pending
      have later : a ≠ .charge → (s'.ptable k).lastWorkingticks = (s.ptable k).lastWorkingticks →
          s'.ticks - (s'.ptable k).lastWorkingticks = BitVec.ofNat 32 s'.timer.lag := by
        intro plain same
        have lag := lag_later taken plain
        rw [same]
        bv_omega
      generalize s'.ptable k = p at move asleep later
      cases move with
      | quiet a p plain old kept woken => exact .inr (later plain (by rw [kept]))
      | start c free =>
        have away : ¬ s.ptable.Runnable k := by
          rw [Table.Runnable, slept]
          decide
        exact .inr (later (by simp) (by rw [mlfq.start_spares s.ticks s.ptable k away]))
      | resume c f at_c =>
        have other : k ≠ f.p := fun mine => pending ⟨c, f, at_c, mine.symm⟩
        exact .inr (later (by simp) (congrArg Proc.lastWorkingticks (resume_other _ other)))
      | charge free counted =>
        obtain ⟨ticks, before, after⟩ := charge_later taken
        rw [before] at lies
        rw [ticks, after]
        simp only [Proc.updateRunsandOthers, slept]
        refine .inr ?_
        bv_omega
      | switch a p plain old clock kept before =>
        rw [slept] at before
        cases before
      | exit c p kept before =>
        rw [slept] at before
        cases before
      | run => cases asleep
      | found => cases asleep
      | abandoned => cases asleep
      | ready => cases asleep
      | reaped => cases asleep
      | reapedx => cases asleep
  · generalize at_k : s'.ptable k = p at move asleep
    cases move with
    | quiet a p plain old kept woken =>
      rcases woken with same | ⟨was, -⟩
      · exact absurd (same.symm.trans asleep) slept
      · exact absurd was slept
    | switch a p plain old clock kept before after =>
      exact .inl (held.stops taken before (by rw [at_k, asleep]; decide))
    | exit c p kept before after =>
      rw [after] at asleep
      cases asleep
    | start c free => exact absurd ((mlfq.start_books s.ticks s.ptable k).state.symm.trans asleep) slept
    | resume c f at_c => exact absurd ((mlfq.resume_books s.ticks f s.ptable k).state.symm.trans asleep) slept
    | charge free counted => exact absurd (by simpa using asleep) slept
    | run => cases asleep
    | found => cases asleep
    | abandoned => cases asleep
    | ready => cases asleep
    | reaped => cases asleep
    | reapedx => cases asleep

theorem embryo_step (held : Resting s) (taken : Step mlfq s a s') (embryo : (s'.ptable k).state = .embryo) :
    (s'.ptable k).queue = 0 := by
  have move : Move mlfq s k a (s'.ptable k) := Move.of_step held.coherent taken
  generalize s'.ptable k = p at move embryo
  cases move with
  | quiet a p plain old kept woken =>
    have before : (s.ptable k).state = .embryo := by
      rcases woken with same | ⟨-, awake⟩
      · exact same.symm.trans embryo
      · rw [awake] at embryo
        cases embryo
    rw [show p.queue = (s.ptable k).queue by rw [kept]]
    exact held.embryo k before
  | switch a p plain old clock kept before after => rcases after with h | h <;> rw [h] at embryo <;> cases embryo
  | exit c p kept before after =>
    rw [after] at embryo
    cases embryo
  | start c free =>
    have before := (mlfq.start_books s.ticks s.ptable k).state.symm.trans embryo
    have away : ¬ s.ptable.Runnable k := by
      rw [Table.Runnable, before]
      decide
    rw [mlfq.start_spares s.ticks s.ptable k away]
    exact held.embryo k before
  | resume c f at_c =>
    have before := (mlfq.resume_books s.ticks f s.ptable k).state.symm.trans embryo
    have other : k ≠ f.p := by
      intro mine
      have switched : (s.ptable f.p).state.Switched := (held.coherent.back at_c).2
      rw [← mine, before] at switched
      rcases switched with h | h | h <;> cases h
    rw [show (mlfq.resume s.ticks f s.ptable).1 k = s.ptable k from resume_other _ other]
    exact held.embryo k before
  | charge free counted =>
    have before : (s.ptable k).state = .embryo := by simpa using embryo
    simp only [Proc.updateRunsandOthers, before]
    exact held.embryo k before
  | found => rfl
  | run => cases embryo
  | abandoned => cases embryo
  | ready => cases embryo
  | reaped => cases embryo
  | reapedx => cases embryo

/-- A process under construction is still in the first queue when it is complete. -/
theorem hatches (held : Resting s) (taken : Step mlfq s a s') (embryo : (s.ptable k).state = .embryo) :
    (s'.ptable k).queue = 0 := by
  have move : Move mlfq s k a (s'.ptable k) := Move.of_step held.coherent taken
  have queue := held.embryo k embryo
  generalize s'.ptable k = p at move
  cases move with
  | quiet a p plain old kept woken => rw [show p.queue = (s.ptable k).queue by rw [kept], queue]
  | switch a p plain old clock kept before =>
    rw [embryo] at before
    cases before
  | exit c p kept before =>
    rw [embryo] at before
    cases before
  | start c free =>
    have away : ¬ s.ptable.Runnable k := by
      rw [Table.Runnable, embryo]
      decide
    rw [mlfq.start_spares s.ticks s.ptable k away, queue]
  | resume c f at_c =>
    have other : k ≠ f.p := by
      intro mine
      have switched : (s.ptable f.p).state.Switched := (held.coherent.back at_c).2
      rw [← mine, embryo] at switched
      rcases switched with h | h | h <;> cases h
    rw [show (mlfq.resume s.ticks f s.ptable).1 k = s.ptable k from resume_other _ other, queue]
  | charge free counted => simp [Proc.updateRunsandOthers, embryo, queue]
  | run => exact queue
  | found => rfl
  | abandoned => exact queue
  | ready => exact queue
  | reaped => exact queue
  | reapedx => exact queue

/-- A process that has just been woken lies back at most for the tick that is still to be charged. -/
theorem wakes_up (held : Resting s) (taken : Step mlfq s a s') (was : ¬ s.ptable.Runnable k)
    (grown : (s.ptable k).state ≠ .embryo) (away : ¬ Framed s' k) (awake : s'.ptable.Runnable k) :
    s'.ticks - (s'.ptable k).lastWorkingticks = BitVec.ofNat 32 s'.timer.lag := by
  have move : Move mlfq s k a (s'.ptable k) := Move.of_step held.coherent taken
  have state : (s'.ptable k).state = .runnable := awake
  generalize at_k : s'.ptable k = p at move state
  cases move with
  | quiet a p plain old kept woken =>
    have slept := (woken.resolve_left fun same => was (same.symm.trans state)).1
    have lag := lag_later taken plain
    have last : p.lastWorkingticks = (s.ptable k).lastWorkingticks := by rw [kept]
    rcases held.asleep k slept with ⟨c, f, at_c, same⟩ | lies
    · have turn : Turn mlfq s c s' a := Turn.of_step taken c
      by_cases resume : a = .resume c
      · subst resume
        obtain ⟨g, -, table, -⟩ := turn.resumed
        have books := (mlfq.resume_books s.ticks g s.ptable k).state
        rw [← congrFun table k, at_k, state, slept] at books
        cases books
      · exact absurd ⟨c, f, by rw [turn.back_stays at_c resume]; rfl, same⟩ away
    · rw [last]
      bv_omega
  | switch a p plain old clock kept before after =>
    obtain ⟨c, f, at_c, same⟩ := held.stops taken before (by rw [at_k, state]; decide)
    exact absurd ⟨c, f, by rw [at_c]; rfl, same⟩ away
  | exit c p kept before after =>
    rw [after] at state
    cases state
  | start c free => exact absurd ((mlfq.start_books s.ticks s.ptable k).state.symm.trans state) was
  | resume c f at_c => exact absurd ((mlfq.resume_books s.ticks f s.ptable k).state.symm.trans state) was
  | charge free counted => exact absurd ((s.ptable k).updateRunsandOthers_state.symm.trans state) was
  | ready c parent before => exact absurd before grown
  | run => cases state
  | found => cases state
  | abandoned => cases state
  | reaped => cases state
  | reapedx => cases state

theorem step (held : Resting s) (taken : Step mlfq s a s') (noted : Noted s a) : Resting s' where
  coherent := held.coherent.step taken
  seated := held.seated.step held.coherent taken
  asleep _ asleep := held.asleep_step taken noted asleep
  embryo _ embryo := held.embryo_step taken embryo

theorem boot : Resting mlfq.boot where
  coherent := .boot
  seated := .boot
  asleep k asleep := by
    by_cases eq : k = initproc
    · subst eq
      simp [Scheduler.boot] at asleep
    · simp [Scheduler.boot, eq] at asleep
  embryo k embryo := by
    by_cases eq : k = initproc
    · subst eq
      simp [Scheduler.boot] at embryo
    · simp [Scheduler.boot, eq] at embryo

end Resting

end MLFQ

end Xv6.Sched
