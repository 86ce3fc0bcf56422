import Xv6.Sched.Moves

namespace Xv6.Sched

open Scheduler Transition

/-- `q_ticks`, `q_max_time` and `queues` are indexed within their bounds, and every tick charged to the
    process is charged to one queue. -/
structure Proc.InBounds (p : Proc) : Prop where
  queue : p.queue.toNat ≤ 4
  total : p.rtime = p.qTicks 0 + p.qTicks 1 + p.qTicks 2 + p.qTicks 3 + p.qTicks 4

namespace Proc.InBounds

variable {p q : Proc}

theorem of_kept (held : p.InBounds) (kept : p.Kept q) : q.InBounds := by
  rw [kept]
  exact ⟨held.queue, held.total⟩

theorem of_booked (held : p.InBounds) (booked : p.Booked q) (queue : q.queue.toNat ≤ 4) : q.InBounds := by
  refine ⟨queue, ?_⟩
  rw [booked]
  exact held.total

theorem updateRunsandOthers (held : p.InBounds) : p.updateRunsandOthers.InBounds := by
  unfold Proc.updateRunsandOthers
  cases at_p : p.state with
  | running =>
    refine ⟨held.queue, ?_⟩
    have total := held.total
    have queue := held.queue
    generalize p.queue.toNat = q at *
    have cases : q = 0 ∨ q = 1 ∨ q = 2 ∨ q = 3 ∨ q = 4 := by omega
    simp only [total]
    rcases cases with rfl | rfl | rfl | rfl | rfl <;> simp <;> ac_rfl
  | sleeping => exact ⟨held.queue, held.total⟩
  | _ => exact held

end Proc.InBounds

/-- The scheduler leaves `queue` alone. -/
structure Scheduler.Single (S : Scheduler) : Prop where
  start : ∀ ticks t k, ((S.start ticks t).1 k).queue = (t k).queue
  resume : ∀ ticks f t k, ((S.resume ticks f t).1 k).queue = (t k).queue

theorem modify_queue (t : Table) (p : Slot) (change : Proc → Proc) (same : ∀ p : Proc, (change p).queue = p.queue)
    (k : Slot) : (t.modify p change k).queue = (t k).queue := by
  by_cases eq : k = p
  · subst eq
    rw [Table.modify_self, same]
  · rw [Table.modify_of_ne _ _ eq]

theorem RR.go_queue (start : Nat) (t : Table) (k : Slot) : ((RR.go start t).1 k).queue = (t k).queue := by
  unfold RR.go
  cases Selection.firstFrom start t.Runnable with
  | none => rfl
  | some p => exact modify_queue t p .ran (fun _ => rfl) k

theorem rr_single : rr.Single where
  start _ t k := RR.go_queue 0 t k
  resume ticks p t k := (RR.go_queue _ _ k).trans (modify_queue t p (·.worked ticks) (fun _ => rfl) k)

theorem fcfs_single : fcfs.Single where
  start _ t k := by
    show ((FCFS.start t).1 k).queue = (t k).queue
    unfold FCFS.start
    cases FCFS.nextone t with
    | none => rfl
    | some p => exact modify_queue t p .ran (fun _ => rfl) k
  resume ticks p t k := modify_queue t p (·.worked ticks) (fun _ => rfl) k

theorem PBS.go_queue (minone : Slot) (start : Nat) (t : Table) (k : Slot) :
    ((PBS.go minone start t).1 k).queue = (t k).queue := by
  unfold PBS.go
  cases Selection.firstFrom start (PBS.Wanted minone t) with
  | none => rfl
  | some p => exact modify_queue t p .ran (fun _ => rfl) k

theorem pbs_single : pbs.Single where
  start _ t k := by
    show ((PBS.start t).1 k).queue = (t k).queue
    unfold PBS.start
    cases PBS.minone t with
    | none => rfl
    | some m => exact PBS.go_queue m 0 t k
  resume ticks f t k := by
    show ((PBS.resume ticks f t).1 k).queue = (t k).queue
    have worked : (t.modify f.p (·.worked ticks) k).queue = (t k).queue :=
      modify_queue t f.p (·.worked ticks) (fun _ => rfl) k
    unfold PBS.resume
    by_cases better : PBS.flag f.minone (t.modify f.p (·.worked ticks))
    · simpa only [better, if_true] using worked
    · simpa only [better, if_false] using (PBS.go_queue _ _ _ k).trans worked

section Invariant

variable {S : Scheduler} {s s' : State S.Frame} {a : Action} {k : Slot}

theorem Move.inBounds {p : Proc} (move : Move S s k a p) (held : (s.ptable k).InBounds)
    (start : ∀ c, a = .start c → p = (S.start s.ticks s.ptable).1 k → p.InBounds)
    (resume : ∀ c f, a = .resume c → s.cpu c = .back f → p = (S.resume s.ticks f s.ptable).1 k → p.InBounds) :
    p.InBounds := by
  cases move with
  | quiet a p plain old kept woken => exact held.of_kept kept
  | switch a p plain old clock kept before after => exact held.of_kept kept
  | exit c p kept before after =>
    have exited : ({ s.ptable k with etime := s.ticks } : Proc).InBounds := ⟨held.queue, held.total⟩
    exact exited.of_kept kept
  | start c free => exact start c rfl rfl
  | resume c f at_c => exact resume c f rfl at_c rfl
  | run c f at_c same before => exact ⟨held.queue, held.total⟩
  | charge free counted => exact held.updateRunsandOthers
  | found c here before => exact ⟨by simp [Proc.found], by simp [Proc.found]⟩
  | abandoned c before => exact ⟨held.queue, held.total⟩
  | ready c parent before => exact ⟨held.queue, held.total⟩
  | reaped c before => exact ⟨held.queue, held.total⟩
  | reapedx c before => exact ⟨held.queue, by simp [Proc.reapedx]⟩

/-- What the scheduler of CPU `d` has switched to stays in its queue until that scheduler goes on. -/
theorem held_queue {d : Nat} {f : S.Frame} (held : Coherent s) (taken : Step S s a s')
    (at_d : (s.cpu d).frame = some f) (start : a ≠ .start d) (resume : a ≠ .resume d) :
    (s'.ptable (S.proc f)).queue = (s.ptable (S.proc f)).queue := by
  have move : Move S s (S.proc f) a (s'.ptable (S.proc f)) := Move.of_step held taken
  obtain ⟨used, -, -⟩ := (held.agrees d).state_ne at_d
  generalize s'.ptable (S.proc f) = p at move
  cases move with
  | quiet a p plain old kept woken => rw [kept]
  | switch a p plain old clock kept before after => rw [kept]
  | exit c p kept before after => rw [kept]
  | start c free => rw [held.spared_start at_d free]
  | resume c g at_c =>
    have ne : d ≠ c := fun eq => resume (by rw [eq])
    rw [held.spared_resume at_d at_c ne]
  | run => rfl
  | charge =>
    unfold Proc.updateRunsandOthers
    cases (s.ptable (S.proc f)).state <;> rfl
  | found c here before => exact absurd before used
  | abandoned => rfl
  | ready => rfl
  | reaped => rfl
  | reapedx => rfl

theorem boot_inBounds (k : Slot) : (S.boot.ptable k).InBounds := by
  by_cases eq : k = initproc
  · subst eq
    simp [boot, Proc.found]
    exact ⟨by decide, by decide⟩
  · simp [boot, eq]
    exact ⟨by decide, by decide⟩

theorem Scheduler.Single.inBounds {past : List (State S.Frame × Action)} (single : S.Single)
    (path : Path S.Takes S.boot past s) (k : Slot) : (s.ptable k).InBounds := by
  have both := path.always (I := fun s => Coherent s ∧ ∀ k, (s.ptable k).InBounds) ⟨.boot, boot_inBounds⟩
    (fun {x a y} held taken => by
      have step := step_cases taken
      refine ⟨held.1.step step, fun k => ?_⟩
      refine (Move.of_step held.1 step).inBounds (held.2 k) (fun c _ eq => ?_) (fun c f _ _ eq => ?_)
      · rw [eq]
        exact (held.2 k).of_booked (S.start_books _ _ k) (by rw [single.start]; exact (held.2 k).queue)
      · rw [eq]
        exact (held.2 k).of_booked (S.resume_books _ _ _ k) (by rw [single.resume]; exact (held.2 k).queue))
  exact both.2 k

end Invariant

namespace MLFQ

/-- A process that a scheduler has chosen from queue `i` stays in queue `i` until that scheduler lets go. -/
structure Queued (s : State mlfq.Frame) : Prop where
  coherent : Coherent s
  bounds : ∀ k, (s.ptable k).InBounds
  frames : ∀ c (f : Frame), (s.cpu c).frame = some f → (s.ptable f.p).queue.toNat = f.i ∧ f.i < 5

theorem aged_inBounds {p : Proc} (held : p.InBounds) (ticks : Word) : (aged p ticks).InBounds := by
  refine held.of_booked (aged_books p ticks) ?_
  have queue := held.queue
  unfold aged
  split
  · next aging =>
    have positive := aging.2.1
    have : (p.queue - 1).toNat = p.queue.toNat - 1 := by
      simp only [BitVec.toInt_eq_toNat_cond] at positive
      bv_omega
    simp only [this]
    omega
  · exact queue

theorem chosen_inBounds {p : Proc} (held : p.InBounds) : (chosen p).InBounds := ⟨held.queue, held.total⟩

theorem leave_inBounds {p : Proc} {i : Nat} (held : p.InBounds) (same : p.queue.toNat = i) (ticks : Word) :
    (leave i ticks p).InBounds := by
  refine held.of_booked (leave_books i ticks p) ?_
  have queue := held.queue
  unfold leave
  by_cases spent : Spent i p ∧ i ≠ 4
  · have step : (p.queue + 1).toNat = p.queue.toNat + 1 := by bv_omega
    simp only [spent, ne_eq, not_false_eq_true, and_self, if_true, step]
    have := spent.2
    omega
  · simpa only [spent, if_false] using queue

theorem start_inBounds {t : Table} (held : ∀ k, (t k).InBounds) (ticks : Word) (k : Slot) :
    ((start ticks t).1 k).InBounds := by
  have old : ∀ k, (age t ticks k).InBounds := fun k => aged_inBounds (held k) ticks
  unfold start
  cases select (age t ticks) with
  | none => exact old k
  | some f =>
    by_cases eq : k = f.p
    · subst eq
      simpa only [Table.modify_self] using chosen_inBounds (old f.p)
    · simpa only [Table.modify_of_ne _ _ eq] using old k

theorem resume_inBounds {t : Table} (held : ∀ k, (t k).InBounds) {f : Frame} (same : (t f.p).queue.toNat = f.i)
    (ticks : Word) (k : Slot) : ((resume ticks f t).1 k).InBounds := by
  unfold resume
  by_cases again : ¬ Spent f.i (t f.p) ∧ t.Runnable f.p
  · rw [if_pos again]
    exact held k
  · rw [if_neg again]
    by_cases eq : k = f.p
    · subst eq
      simpa only [Table.modify_self] using leave_inBounds (held f.p) same ticks
    · simpa only [Table.modify_of_ne _ _ eq] using held k

theorem start_frame {t : Table} {ticks : Word} {f : Frame} (picked : (start ticks t).2 = some f) :
    ((start ticks t).1 f.p).queue.toNat = f.i ∧ f.i < 5 := by
  obtain ⟨table, found⟩ := start_eq_some picked
  obtain ⟨queued, small⟩ := select_eq_some found
  refine ⟨?_, small⟩
  rw [table, Table.modify_self]
  exact (queues_eq_some queued).2

theorem Queued.step {s s' : State mlfq.Frame} {a : Action} (held : Queued s) (taken : Step mlfq s a s') : Queued s' where
  coherent := held.coherent.step taken
  bounds k := by
    refine (Move.of_step held.coherent taken).inBounds (held.bounds k) (fun c _ eq => ?_) (fun c f _ at_c eq => ?_)
    · rw [eq]
      exact start_inBounds held.bounds s.ticks k
    · rw [eq]
      exact resume_inBounds held.bounds (held.frames c f (by rw [at_c]; rfl)).1 s.ticks k
  frames d f at_d := by
    rcases (Turn.of_step taken d).frame_cases at_d with ⟨old, start, resume⟩ | ⟨rfl, free, new⟩ | ⟨rfl, g, back, new⟩
    · have same : (s'.ptable f.p).queue = (s.ptable f.p).queue := held_queue held.coherent taken old start resume
      rw [same]
      exact held.frames d f old
    · cases taken with
      | start c idle awake free =>
        rw [Move.settle_ptable]
        exact start_frame new
      | call a f interrupted s' at_c awake killed called => cases called
    · obtain ⟨rfl, same, -⟩ := resume_eq_some new
      cases taken with
      | resume c f at_c =>
        rw [back] at at_c
        cases at_c
        rw [Move.settle_ptable]
        rw [show (mlfq.resume s.ticks f s.ptable).1 = s.ptable from same]
        exact held.frames d f (by rw [back]; rfl)
      | call a f interrupted s' at_c awake killed called => cases called

theorem queued {past : List (State mlfq.Frame × Action)} {s : State mlfq.Frame}
    (path : Path mlfq.Takes mlfq.boot past s) : Queued s :=
  path.always ⟨.boot, boot_inBounds, fun _ _ at_c => by cases at_c⟩ (fun held taken => held.step (step_cases taken))

end MLFQ

theorem inBounds (policy : Policy) {past : List (State policy.scheduler.Frame × Action)}
    {s : State policy.scheduler.Frame} (path : Path policy.scheduler.Takes policy.scheduler.boot past s) (k : Slot) :
    (s.ptable k).InBounds := by
  cases policy with
  | rr => exact rr_single.inBounds path k
  | fcfs => exact fcfs_single.inBounds path k
  | pbs => exact pbs_single.inBounds path k
  | mlfq => exact (MLFQ.queued path).bounds k

/-- The MLFQ fields of every process stay in bounds in every build on any number of CPUs, `rtime` is the
    sum of `q_ticks`, and a process is only ever demoted from the queue it was chosen from. -/
theorem mlfq_bookkeeping :
    (∀ (policy : Policy) past s, Path policy.scheduler.Takes policy.scheduler.boot past s → ∀ k,
      (0 ≤ (s.ptable k).queue.toInt ∧ (s.ptable k).queue.toInt ≤ 4) ∧
        (s.ptable k).rtime = (s.ptable k).qTicks 0 + (s.ptable k).qTicks 1 + (s.ptable k).qTicks 2 +
          (s.ptable k).qTicks 3 + (s.ptable k).qTicks 4) ∧
    ∀ past s, Path mlfq.Takes mlfq.boot past s → ∀ c (f : MLFQ.Frame), s.cpu c = .back f →
      (s.ptable f.p).queue.toInt = f.i ∧
        (MLFQ.Spent f.i (s.ptable f.p) → f.i ≠ 4 →
          ((mlfq.resume s.ticks f s.ptable).1 f.p).queue.toInt = f.i + 1) := by
  have toInt : ∀ w : Word, w.toNat ≤ 5 → w.toInt = w.toNat := by
    intro w small
    rw [BitVec.toInt_eq_toNat_of_lt]
    omega
  refine ⟨fun policy past s path k => ?_, fun past s path c f at_c => ?_⟩
  · have bounds := inBounds policy path k
    have queue := bounds.queue
    rw [toInt _ (by omega)]
    exact ⟨by omega, bounds.total⟩
  · obtain ⟨queue, small⟩ := (MLFQ.queued path).frames c f (by rw [at_c]; rfl)
    refine ⟨by rw [toInt _ (by omega), queue], fun spent last => ?_⟩
    have left : (mlfq.resume s.ticks f s.ptable).1 f.p = MLFQ.leave f.i s.ticks (s.ptable f.p) := by
      show (MLFQ.resume s.ticks f s.ptable).1 f.p = _
      rw [MLFQ.resume, if_neg (by simp [spent])]
      simp
    have demoted : ((s.ptable f.p).queue + 1).toNat = f.i + 1 := by bv_omega
    rw [left]
    simp only [MLFQ.leave, spent, last, ne_eq, not_false_eq_true, and_self, if_true]
    rw [toInt _ (by omega), demoted]
    rfl

/-- Init computes for one tick, which is all that queue 0 allows. -/
def oneSliceRun : List Action := [.start 0, .dispatch 0, .tick, .charge, .wakeTicks, .yield 0]

theorem mlfq_bookkeeping_of_one_slice : ∃ past s, Path mlfq.Takes mlfq.boot past s ∧
    (s.ptable initproc).queue.toInt ≤ 4 ∧
      ((mlfq.resume s.ticks ⟨0, initproc⟩ s.ptable).1 initproc).queue.toInt = 1 := by
  obtain ⟨past, s, path, reached⟩ := replay_reaches mlfq.step mlfq.boot oneSliceRun
    (fun _ s => s.cpu 0 = .back (⟨0, initproc⟩ : MLFQ.Frame) ∧ MLFQ.Spent 0 (s.ptable initproc)) (by decide +kernel)
  simp only [decide_eq_true_eq] at reached
  have bounds := (mlfq_bookkeeping.1 .mlfq past s path initproc).1
  have demoted := (mlfq_bookkeeping.2 past s path 0 ⟨0, initproc⟩ reached.1).2 reached.2 (by decide)
  exact ⟨past, s, path, bounds.2, demoted⟩

end Xv6.Sched
