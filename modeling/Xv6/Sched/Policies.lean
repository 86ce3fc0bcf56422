import Xv6.Sched.Table

open Selection

namespace Xv6.Sched

/-- The state agrees in everything but the scheduler's own bookkeeping. -/
def Proc.Booked (p p' : Proc) : Prop :=
  p' = { p with
    queue := p'.queue
    currQTicks := p'.currQTicks
    nRun := p'.nRun
    lastWorkingticks := p'.lastWorkingticks }

/-- The body of `scheduler` for one policy, cut at `swtch`. A `Frame` holds the locals that live across
    `swtch`, the process switched to among them. `start` goes from `acquire` to the first `swtch`,
    `resume` from the return of one `swtch` to the next; without a frame the lock is released. -/
structure Scheduler where
  Frame : Type
  proc : Frame → Slot
  start : Word → Table → Table × Option Frame
  resume : Word → Frame → Table → Table × Option Frame
  /-- `trap` compiles the `yield` of the timer interrupt out under FCFS. -/
  timerYields : Bool
  start_books : ∀ (ticks : Word) (t : Table) (k : Slot), (t k).Booked ((start ticks t).1 k)
  resume_books : ∀ (ticks : Word) (f : Frame) (t : Table) (k : Slot), (t k).Booked ((resume ticks f t).1 k)
  start_spares : ∀ (ticks : Word) (t : Table) (k : Slot), ¬ t.Runnable k → (start ticks t).1 k = t k
  resume_spares : ∀ (ticks : Word) (f : Frame) (t : Table) (k : Slot), k ≠ proc f → ¬ t.Runnable k →
    (resume ticks f t).1 k = t k
  start_picks : ∀ ticks t f, (start ticks t).2 = some f → ((start ticks t).1 (proc f)).state = .runnable
  resume_picks : ∀ ticks f t g, (resume ticks f t).2 = some g → ((resume ticks f t).1 (proc g)).state = .runnable

namespace Proc

@[simp] theorem Booked.refl (p : Proc) : p.Booked p := rfl

theorem Booked.trans {p q r : Proc} (first : p.Booked q) (second : q.Booked r) : p.Booked r := by
  unfold Booked at *
  rw [second, first]

theorem Booked.state {p q : Proc} (booked : p.Booked q) : q.state = p.state := by rw [booked]

/-- `p->n_run++` -/
def ran (p : Proc) : Proc := { p with nRun := p.nRun + 1 }

/-- `p->lastWorkingticks = ticks` -/
def worked (p : Proc) (ticks : Word) : Proc := { p with lastWorkingticks := ticks }

theorem ran_books (p : Proc) : p.Booked p.ran := rfl

theorem worked_books (ticks : Word) (p : Proc) : p.Booked (p.worked ticks) := rfl

@[simp] theorem ran_state (p : Proc) : p.ran.state = p.state := rfl
@[simp] theorem worked_state (p : Proc) (ticks : Word) : (p.worked ticks).state = p.state := rfl
@[simp] theorem ran_priority (p : Proc) : p.ran.priority = p.priority := rfl
@[simp] theorem worked_priority (p : Proc) (ticks : Word) : (p.worked ticks).priority = p.priority := rfl

end Proc

namespace Table

variable (t : Table)

theorem modify_books {change : Proc → Proc} (books : ∀ p : Proc, p.Booked (change p)) (p k : Slot) :
    (t k).Booked (t.modify p change k) := by
  by_cases same : k = p
  · subst same
    simpa using books (t k)
  · simp [same]

theorem modify_spares {p k : Slot} (change : Proc → Proc) (chosen : t.Runnable p) (away : ¬ t.Runnable k) :
    t.modify p change k = t k := by
  refine t.modify_of_ne change fun eq => away ?_
  rwa [eq]

theorem runnable_modify {p q : Slot} {change : Proc → Proc} (same : (change (t p)).state = (t p).state) :
    (t.modify p change).Runnable q ↔ t.Runnable q := by
  by_cases eq : q = p
  · subst eq
    simp [Runnable, same]
  · simp [Runnable, eq]

end Table

/-! ### Round robin -/

namespace RR

/-- The loop goes on at index `start`. -/
def go (start : Nat) (t : Table) : Table × Option Slot :=
  match firstFrom start t.Runnable with
  | some p => (t.modify p .ran, some p)
  | none => (t, none)

def resume (ticks : Word) (p : Slot) (t : Table) : Table × Option Slot :=
  go (p.val + 1) (t.modify p (·.worked ticks))

theorem go_books (start : Nat) (t : Table) (k : Slot) : (t k).Booked ((go start t).1 k) := by
  unfold go
  cases firstFrom start t.Runnable with
  | none => exact .refl _
  | some p => exact t.modify_books Proc.ran_books p k

theorem go_eq_some {start : Nat} {t : Table} {p : Slot} (picked : (go start t).2 = some p) :
    (go start t).1 = t.modify p .ran ∧ firstFrom start t.Runnable = some p := by
  unfold go at *
  cases found : firstFrom start t.Runnable with
  | none =>
    rw [found] at picked
    cases picked
  | some q =>
    rw [found] at picked
    cases picked
    exact ⟨rfl, rfl⟩

theorem go_picks {start : Nat} {t : Table} {p : Slot} (picked : (go start t).2 = some p) :
    ((go start t).1 p).state = .runnable := by
  obtain ⟨table, found⟩ := go_eq_some picked
  rw [table, t.modify_self]
  exact (firstFrom_eq_some.mp found).1.2

theorem go_spares (start : Nat) {t : Table} {k : Slot} (away : ¬ t.Runnable k) : (go start t).1 k = t k := by
  unfold go
  cases found : firstFrom start t.Runnable with
  | none => rfl
  | some p => exact t.modify_spares .ran (firstFrom_eq_some.mp found).1.2 away

theorem resume_spares (ticks : Word) {p k : Slot} {t : Table} (ne : k ≠ p) (away : ¬ t.Runnable k) :
    (resume ticks p t).1 k = t k := by
  have away' : ¬ (t.modify p (·.worked ticks)).Runnable k := fun h => away ((t.runnable_modify rfl).mp h)
  exact (go_spares _ away').trans (t.modify_of_ne _ ne)

end RR

def rr : Scheduler where
  Frame := Slot
  proc := id
  start _ t := RR.go 0 t
  resume := RR.resume
  timerYields := true
  start_books _ t k := RR.go_books 0 t k
  resume_books ticks p t k := (t.modify_books (Proc.worked_books ticks) p k).trans (RR.go_books _ _ k)
  start_spares _ _ _ away := RR.go_spares 0 away
  resume_spares ticks _ _ _ ne away := RR.resume_spares ticks ne away
  start_picks _ _ _ picked := RR.go_picks picked
  resume_picks _ _ _ _ picked := RR.go_picks picked

/-! ### First come, first served -/

namespace FCFS

/-- `nextone` after the loop. -/
def nextone (t : Table) : Option Slot := best t.Runnable (fun p => (t p).ctime.toInt) (List.finRange NPROC)

def start (t : Table) : Table × Option Slot :=
  match nextone t with
  | some p => (t.modify p .ran, some p)
  | none => (t, none)

theorem start_books (t : Table) (k : Slot) : (t k).Booked ((start t).1 k) := by
  unfold start
  cases nextone t with
  | none => exact .refl _
  | some p => exact t.modify_books Proc.ran_books p k

theorem start_eq_some {t : Table} {p : Slot} (picked : (start t).2 = some p) :
    (start t).1 = t.modify p .ran ∧ nextone t = some p := by
  unfold start at *
  cases found : nextone t with
  | none =>
    rw [found] at picked
    cases picked
  | some q =>
    rw [found] at picked
    cases picked
    exact ⟨rfl, rfl⟩

theorem start_picks {t : Table} {p : Slot} (picked : (start t).2 = some p) : ((start t).1 p).state = .runnable := by
  obtain ⟨table, found⟩ := start_eq_some picked
  rw [table, t.modify_self]
  exact (mem_of_best found).kept

theorem start_spares {t : Table} {k : Slot} (away : ¬ t.Runnable k) : (start t).1 k = t k := by
  unfold start
  cases found : nextone t with
  | none => rfl
  | some p => exact t.modify_spares .ran (mem_of_best found).kept away

end FCFS

def fcfs : Scheduler where
  Frame := Slot
  proc := id
  start _ t := FCFS.start t
  resume ticks p t := (t.modify p (·.worked ticks), none)
  timerYields := false
  start_books _ t k := FCFS.start_books t k
  resume_books ticks p t k := t.modify_books (Proc.worked_books ticks) p k
  start_spares _ _ _ away := FCFS.start_spares away
  resume_spares ticks _ t _ ne _ := t.modify_of_ne (·.worked ticks) ne
  start_picks _ _ _ picked := FCFS.start_picks picked
  resume_picks _ _ _ _ picked := by cases picked

/-! ### Priorities -/

namespace PBS

/-- `minone` after the first loop. -/
def minone (t : Table) : Option Slot := best t.Runnable (fun p => (t p).priority.toInt) (List.finRange NPROC)

/-- The locals across `swtch`: `minone` and the loop variable `p`. -/
structure Frame where
  minone : Slot
  p : Slot
  deriving DecidableEq

/-- What the second loop runs: a process of the priority that `minone` has now. -/
def Wanted (minone : Slot) (t : Table) (p : Slot) : Prop := t.Runnable p ∧ (t p).priority = (t minone).priority

instance (minone : Slot) (t : Table) : DecidablePred (Wanted minone t) :=
  fun p => inferInstanceAs (Decidable (t.Runnable p ∧ (t p).priority = (t minone).priority))

/-- The second loop goes on at index `start`. -/
def go (minone : Slot) (start : Nat) (t : Table) : Table × Option Frame :=
  match firstFrom start (Wanted minone t) with
  | some p => (t.modify p .ran, some ⟨minone, p⟩)
  | none => (t, none)

/-- The `flag` computed after each `swtch`. -/
def flag (minone : Slot) (t : Table) : Prop :=
  ∃ p, t.Runnable p ∧ (t p).priority.toInt < (t minone).priority.toInt

instance (minone : Slot) (t : Table) : Decidable (flag minone t) :=
  inferInstanceAs (Decidable (∃ p, t.Runnable p ∧ (t p).priority.toInt < (t minone).priority.toInt))

def start (t : Table) : Table × Option Frame :=
  match minone t with
  | some m => go m 0 t
  | none => (t, none)

def resume (ticks : Word) (f : Frame) (t : Table) : Table × Option Frame :=
  if flag f.minone (t.modify f.p (·.worked ticks)) then (t.modify f.p (·.worked ticks), none)
  else go f.minone (f.p.val + 1) (t.modify f.p (·.worked ticks))

theorem go_books (minone : Slot) (start : Nat) (t : Table) (k : Slot) :
    (t k).Booked ((go minone start t).1 k) := by
  unfold go
  cases firstFrom start (Wanted minone t) with
  | none => exact .refl _
  | some p => exact t.modify_books Proc.ran_books p k

theorem go_eq_some {minone : Slot} {start : Nat} {t : Table} {f : Frame} (picked : (go minone start t).2 = some f) :
    f.minone = minone ∧ (go minone start t).1 = t.modify f.p .ran ∧
      firstFrom start (Wanted minone t) = some f.p := by
  unfold go at *
  cases found : firstFrom start (Wanted minone t) with
  | none =>
    rw [found] at picked
    cases picked
  | some q =>
    rw [found] at picked
    cases picked
    exact ⟨rfl, rfl, rfl⟩

theorem go_picks {minone : Slot} {start : Nat} {t : Table} {f : Frame} (picked : (go minone start t).2 = some f) :
    ((go minone start t).1 f.p).state = .runnable := by
  obtain ⟨-, table, found⟩ := go_eq_some picked
  rw [table, t.modify_self]
  exact (firstFrom_eq_some.mp found).1.2.1

theorem start_books (t : Table) (k : Slot) : (t k).Booked ((start t).1 k) := by
  unfold start
  cases minone t with
  | none => exact .refl _
  | some m => exact go_books m 0 t k

theorem start_eq_some {t : Table} {f : Frame} (picked : (start t).2 = some f) :
    minone t = some f.minone ∧ start t = go f.minone 0 t := by
  unfold start at *
  cases found : minone t with
  | none =>
    rw [found] at picked
    cases picked
  | some m =>
    rw [found] at picked
    obtain ⟨rfl, -, -⟩ := go_eq_some picked
    exact ⟨rfl, rfl⟩

theorem resume_books (ticks : Word) (f : Frame) (t : Table) (k : Slot) : (t k).Booked ((resume ticks f t).1 k) := by
  have worked := t.modify_books (Proc.worked_books ticks) f.p k
  unfold resume
  by_cases better : flag f.minone (t.modify f.p (·.worked ticks))
  · simpa only [better, if_true] using worked
  · simpa only [better, if_false] using worked.trans (go_books _ _ _ k)

theorem resume_eq_some {ticks : Word} {f g : Frame} {t : Table} (picked : (resume ticks f t).2 = some g) :
    ¬ flag f.minone (t.modify f.p (·.worked ticks)) ∧
      resume ticks f t = go f.minone (f.p.val + 1) (t.modify f.p (·.worked ticks)) := by
  unfold resume at *
  by_cases better : flag f.minone (t.modify f.p (·.worked ticks))
  · simp [better] at picked
  · exact ⟨better, by simp only [better, if_false]⟩

theorem go_spares (minone : Slot) (start : Nat) {t : Table} {k : Slot} (away : ¬ t.Runnable k) :
    (go minone start t).1 k = t k := by
  unfold go
  cases found : firstFrom start (Wanted minone t) with
  | none => rfl
  | some p => exact t.modify_spares .ran (firstFrom_eq_some.mp found).1.2.1 away

theorem start_spares {t : Table} {k : Slot} (away : ¬ t.Runnable k) : (start t).1 k = t k := by
  unfold start
  cases minone t with
  | none => rfl
  | some m => exact go_spares m 0 away

theorem resume_spares (ticks : Word) {f : Frame} {t : Table} {k : Slot} (ne : k ≠ f.p) (away : ¬ t.Runnable k) :
    (resume ticks f t).1 k = t k := by
  have away' : ¬ (t.modify f.p (·.worked ticks)).Runnable k := fun h => away ((t.runnable_modify rfl).mp h)
  have same := t.modify_of_ne (·.worked ticks) ne
  unfold resume
  by_cases better : flag f.minone (t.modify f.p (·.worked ticks))
  · simpa only [better, if_true] using same
  · simpa only [better, if_false] using (go_spares _ _ away').trans same

end PBS

def pbs : Scheduler where
  Frame := PBS.Frame
  proc := PBS.Frame.p
  start _ t := PBS.start t
  resume := PBS.resume
  timerYields := true
  start_books _ t k := PBS.start_books t k
  resume_books := PBS.resume_books
  start_spares _ _ _ away := PBS.start_spares away
  resume_spares ticks _ _ _ ne away := PBS.resume_spares ticks ne away
  start_picks _ t f picked := by
    have same := (PBS.start_eq_some picked).2
    rw [same] at picked ⊢
    exact PBS.go_picks picked
  resume_picks ticks f t g picked := by
    have same := (PBS.resume_eq_some picked).2
    rw [same] at picked ⊢
    exact PBS.go_picks picked

/-! ### Multi-level feedback queues -/

namespace MLFQ

/-- Aging moves a process that has waited too long to the queue above. -/
def aged (p : Proc) (ticks : Word) : Proc :=
  if p.state = .runnable ∧ 0 < p.queue.toInt ∧ qMaxTime p.queue.toNat < ticks - p.lastWorkingticks then
    { p with queue := p.queue - 1, lastWorkingticks := ticks }
  else p

def age (t : Table) (ticks : Word) : Table := fun k => aged (t k) ticks

/-- `queues[i]` after the second loop: the earliest created of a queue, in the last queue the one that
    has waited longest. -/
def queues (t : Table) (i : Nat) : Option Slot :=
  best (fun p => t.Runnable p ∧ (t p).queue.toNat = i)
    (fun p => if i = 4 then (t p).lastWorkingticks.toInt else (t p).ctime.toInt) (List.finRange NPROC)

/-- The locals across `swtch`: `i` and `queues[i]`. -/
structure Frame where
  i : Nat
  p : Slot
  deriving DecidableEq

def select (t : Table) : Option Frame :=
  [0, 1, 2, 3, 4].findSome? (fun i => (queues t i).map (Frame.mk i))

def chosen (p : Proc) : Proc := { p with currQTicks := 0, nRun := p.nRun + 1 }

/-- The time slice of queue `i` is used up. -/
def Spent (i : Nat) (p : Proc) : Prop := (maxTickOfQ i).toInt ≤ p.currQTicks.toInt

instance (i : Nat) (p : Proc) : Decidable (Spent i p) :=
  inferInstanceAs (Decidable ((maxTickOfQ i).toInt ≤ p.currQTicks.toInt))

/-- After the loop: demotion of a process that has used up its time slice. -/
def leave (i : Nat) (ticks : Word) (p : Proc) : Proc :=
  { p with
    queue := if Spent i p ∧ i ≠ 4 then p.queue + 1 else p.queue
    lastWorkingticks := ticks }

def start (ticks : Word) (t : Table) : Table × Option Frame :=
  match select (age t ticks) with
  | some f => ((age t ticks).modify f.p chosen, some f)
  | none => (age t ticks, none)

def resume (ticks : Word) (f : Frame) (t : Table) : Table × Option Frame :=
  if ¬ Spent f.i (t f.p) ∧ t.Runnable f.p then (t, some f)
  else (t.modify f.p (leave f.i ticks), none)

theorem aged_books (p : Proc) (ticks : Word) : p.Booked (aged p ticks) := by
  unfold aged
  split
  · rfl
  · exact .refl p

theorem chosen_books (p : Proc) : p.Booked (chosen p) := rfl

theorem leave_books (i : Nat) (ticks : Word) (p : Proc) : p.Booked (leave i ticks p) := rfl

theorem queues_eq_some {t : Table} {i : Nat} {p : Slot} (found : queues t i = some p) :
    t.Runnable p ∧ (t p).queue.toNat = i := (mem_of_best found).kept

theorem select_eq_some {t : Table} {f : Frame} (found : select t = some f) :
    queues t f.i = some f.p ∧ f.i < 5 := by
  obtain ⟨i, member, chosen⟩ := List.exists_of_findSome?_eq_some found
  obtain ⟨p, queued, rfl⟩ := Option.map_eq_some_iff.mp chosen
  refine ⟨queued, ?_⟩
  change i < 5
  simp only [List.mem_cons, List.not_mem_nil, or_false] at member
  omega

theorem start_books (ticks : Word) (t : Table) (k : Slot) : (t k).Booked ((start ticks t).1 k) := by
  have aging : (t k).Booked (age t ticks k) := aged_books (t k) ticks
  unfold start
  cases select (age t ticks) with
  | none => exact aging
  | some f => exact aging.trans ((age t ticks).modify_books chosen_books f.p k)

theorem start_eq_some {ticks : Word} {t : Table} {f : Frame} (picked : (start ticks t).2 = some f) :
    (start ticks t).1 = (age t ticks).modify f.p chosen ∧ select (age t ticks) = some f := by
  unfold start at *
  cases found : select (age t ticks) with
  | none =>
    rw [found] at picked
    cases picked
  | some g =>
    rw [found] at picked
    cases picked
    exact ⟨rfl, rfl⟩

theorem resume_books (ticks : Word) (f : Frame) (t : Table) (k : Slot) : (t k).Booked ((resume ticks f t).1 k) := by
  unfold resume
  by_cases again : ¬ Spent f.i (t f.p) ∧ t.Runnable f.p
  · rw [if_pos again]
    exact .refl _
  · rw [if_neg again]
    exact t.modify_books (leave_books f.i ticks) f.p k

theorem resume_eq_some {ticks : Word} {f g : Frame} {t : Table} (picked : (resume ticks f t).2 = some g) :
    g = f ∧ (resume ticks f t).1 = t ∧ ¬ Spent f.i (t f.p) ∧ t.Runnable f.p := by
  unfold resume at *
  by_cases again : ¬ Spent f.i (t f.p) ∧ t.Runnable f.p
  · rw [if_pos again] at picked ⊢
    cases picked
    exact ⟨rfl, rfl, again⟩
  · rw [if_neg again] at picked
    cases picked

theorem start_spares (ticks : Word) {t : Table} {k : Slot} (away : ¬ t.Runnable k) : (start ticks t).1 k = t k := by
  have same : age t ticks k = t k := if_neg fun aging => away aging.1
  unfold start
  cases found : select (age t ticks) with
  | none => exact same
  | some f =>
    have chosen := (queues_eq_some (select_eq_some found).1).1
    refine ((age t ticks).modify_spares _ chosen fun runnable => away ?_).trans same
    rwa [Table.Runnable, same] at runnable

theorem resume_other (ticks : Word) {f : Frame} {t : Table} {k : Slot} (ne : k ≠ f.p) : (resume ticks f t).1 k = t k := by
  unfold resume
  by_cases again : ¬ Spent f.i (t f.p) ∧ t.Runnable f.p
  · rw [if_pos again]
  · rw [if_neg again]
    exact t.modify_of_ne _ ne

end MLFQ

def mlfq : Scheduler where
  Frame := MLFQ.Frame
  proc := MLFQ.Frame.p
  start := MLFQ.start
  resume := MLFQ.resume
  timerYields := true
  start_books := MLFQ.start_books
  resume_books := MLFQ.resume_books
  start_spares ticks _ _ away := MLFQ.start_spares ticks away
  resume_spares ticks _ _ _ ne _ := MLFQ.resume_other ticks ne
  start_picks ticks t f picked := by
    obtain ⟨table, found⟩ := MLFQ.start_eq_some picked
    rw [table, Table.modify_self]
    exact (MLFQ.queues_eq_some (MLFQ.select_eq_some found).1).1
  resume_picks ticks f t g picked := by
    obtain ⟨rfl, table, -, runnable⟩ := MLFQ.resume_eq_some picked
    rwa [table]

instance : DecidableEq rr.Frame := inferInstanceAs (DecidableEq Slot)
instance : DecidableEq fcfs.Frame := inferInstanceAs (DecidableEq Slot)
instance : DecidableEq pbs.Frame := inferInstanceAs (DecidableEq PBS.Frame)
instance : DecidableEq mlfq.Frame := inferInstanceAs (DecidableEq MLFQ.Frame)

inductive Policy where
  | rr | fcfs | pbs | mlfq
  deriving DecidableEq

/-- The build chosen by `SCHEDULER` in the Makefile. -/
def Policy.scheduler : Policy → Scheduler
  | .rr => Sched.rr
  | .fcfs => Sched.fcfs
  | .pbs => Sched.pbs
  | .mlfq => Sched.mlfq

end Xv6.Sched
