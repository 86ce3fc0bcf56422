import Xv6.Sched.Fates

namespace Xv6.Sched

open Scheduler Transition Selection

namespace Table

def Names (t : Table) (pid : Word) : Prop := ∃ k, (t k).state ≠ .unused ∧ (t k).pid = pid

instance (t : Table) (pid : Word) : Decidable (t.Names pid) :=
  inferInstanceAs (Decidable (∃ k, (t k).state ≠ .unused ∧ (t k).pid = pid))

/-- What `kill` returns. -/
def killReturns (t : Table) (pid : Word) : Word := if (t.withPid pid).isSome then 0 else -1

/-- The slot that `set_priority` goes on to change. It returns -1 if there is none, and otherwise the
    priority that it finds there. -/
def setPriorityFinds (t : Table) (priority pid : Word) : Option Slot :=
  if priority.toInt ≤ -1 ∨ 100 < priority.toInt then none else t.withPid pid

theorem withPid_pid {t : Table} {pid : Word} {k : Slot} (found : t.withPid pid = some k) : (t k).pid = pid :=
  (firstFrom_eq_some.mp found).1.2

theorem withPid_of_finds {t : Table} {priority pid : Word} {k : Slot} (found : t.setPriorityFinds priority pid = some k) :
    t.withPid pid = some k := by
  unfold setPriorityFinds at found
  split at found
  · cases found
  · exact found

end Table

variable {S : Scheduler} {s s' : State S.Frame} {a : Action} {past : List (State S.Frame × Action)} {k : Slot}

/-- The pid that a failed `fork` has left in slot `k` since the last process was created there. -/
def leftBehind (S : Scheduler) : List (State S.Frame × Action) → Slot → Option Word
  | [], _ => none
  | (s, a) :: past, k =>
    if s.creates a = some k then none
    else
      match a with
      | .forkFails c => if S.forking s c = some k then some (s.ptable k).pid else leftBehind S past k
      | _ => leftBehind S past k

/-- The pid is not one that an UNUSED slot has kept, 0 or what a failed `fork` left there. Once `nextpid` has wrapped
    it may be, as long as a process in a lower slot has it. -/
def Addressed (S : Scheduler) (past : List (State S.Frame × Action)) (s : State S.Frame) (pid : Word) : Prop :=
  ∀ k, (s.ptable k).state = .unused → pid = (leftBehind S past k).getD 0 →
    ∃ j, j < k ∧ (s.ptable j).state ≠ .unused ∧ (s.ptable j).pid = pid

/-- `kill` and `set_priority` are called with such pids only, and no `fork` fails after its child has been killed. -/
def Identified (S : Scheduler) (past : List (State S.Frame × Action)) (s : State S.Frame) : Action → Prop
  | .kill _ pid => Addressed S past s pid
  | .setPriority _ priority pid => 0 ≤ priority.toInt → priority.toInt ≤ 100 → Addressed S past s pid
  | .forkFails c => ∀ k, S.forking s c = some k → (s.ptable k).killed = false
  | _ => True

instance (past : List (State S.Frame × Action)) (s : State S.Frame) (pid : Word) : Decidable (Addressed S past s pid) :=
  inferInstanceAs (Decidable (∀ k, (s.ptable k).state = .unused → pid = (leftBehind S past k).getD 0 →
    ∃ j, j < k ∧ (s.ptable j).state ≠ .unused ∧ (s.ptable j).pid = pid))

def identified (S : Scheduler) (past : List (State S.Frame × Action)) (s : State S.Frame) : Action → Bool
  | .kill _ pid => decide (Addressed S past s pid)
  | .setPriority _ priority pid => decide (0 ≤ priority.toInt → priority.toInt ≤ 100 → Addressed S past s pid)
  | .forkFails c => decide (∀ k, S.forking s c = some k → (s.ptable k).killed = false)
  | _ => true

theorem identified_iff : identified S past s a = true ↔ Identified S past s a := by
  cases a <;> simp only [identified, Identified, decide_eq_true_eq]

instance (past : List (State S.Frame × Action)) (s : State S.Frame) (a : Action) : Decidable (Identified S past s a) :=
  decidable_of_iff _ identified_iff

/-- A pid is taken for the process that has it: `kill` and `set_priority` succeed only then, and a new process
    starts killed only if `kill` was called with its own pid while it was under construction. -/
structure Denotes (S : Scheduler) (past : List (State S.Frame × Action)) (s : State S.Frame) (a : Action)
    (s' : State S.Frame) : Prop where
  kill : ∀ c pid, a = .kill c pid →
    (s.ptable.killReturns pid = 0 → s.ptable.Names pid) ∧ (¬ s.ptable.Names pid → s'.ptable = s.ptable)
  setPriority : ∀ c priority pid, a = .setPriority c priority pid → 0 ≤ priority.toInt → priority.toInt ≤ 100 →
    (s.ptable.setPriorityFinds priority pid ≠ none → s.ptable.Names pid) ∧ (¬ s.ptable.Names pid → s' = s)
  fork : ∀ c np, a = .forkDone c → S.forking s c = some np → (s'.ptable np).killed = true →
    ∃ entry ∈ past, (entry.1.ptable np).state = .embryo ∧ (entry.1.ptable np).pid = (s.ptable np).pid ∧
      ∃ d, entry.2 = .kill d (s.ptable np).pid

/-- A free slot is never marked as killed, a slot under construction only by a `kill` with its pid, and a free slot
    keeps no pid but what failed forks have left. -/
structure Clean (past : List (State S.Frame × Action)) (s : State S.Frame) : Prop where
  coherent : Coherent s
  unused : ∀ k, (s.ptable k).state = .unused → (s.ptable k).killed = false
  embryo : ∀ k, (s.ptable k).state = .embryo → (s.ptable k).killed = true →
    ∃ entry ∈ past, (entry.1.ptable k).state = .embryo ∧ (entry.1.ptable k).pid = (s.ptable k).pid ∧
      ∃ d, entry.2 = .kill d (s.ptable k).pid
  kept : ∀ k, (s.ptable k).state = .unused → (s.ptable k).pid = (leftBehind S past k).getD 0
  taken : ∀ k, (s.ptable k).state ≠ .unused → leftBehind S past k = none

theorem leftBehind_created (creates : s.creates a = some k) : leftBehind S ((s, a) :: past) k = none := by
  simp [leftBehind, creates]

theorem leftBehind_failed {c : Nat} (fails : S.forking s c = some k) :
    leftBehind S ((s, .forkFails c) :: past) k = some (s.ptable k).pid := by
  simp [leftBehind, fails, State.creates]

theorem leftBehind_other (old : s.creates a ≠ some k) (goes_on : ∀ c, a = .forkFails c → S.forking s c ≠ some k) :
    leftBehind S ((s, a) :: past) k = leftBehind S past k := by
  cases a with
  | forkFails c => simp [leftBehind, goes_on c rfl, State.creates]
  | _ => simp [leftBehind, old]

namespace Proc

theorem Same.unused {p p' : Proc} (same : p.Same p') (unused : p'.state = .unused) : p.state = .unused := by
  rcases same.state with old | ⟨awake, -⟩
  · exact old.symm.trans unused
  · rw [awake] at unused
    cases unused

theorem Same.embryo {p p' : Proc} (same : p.Same p') (embryo : p'.state = .embryo) : p.state = .embryo := by
  rcases same.state with old | ⟨awake, -⟩
  · exact old.symm.trans embryo
  · rw [awake] at embryo
    cases embryo

theorem kill_state {p : Proc} (asleep : p.state ≠ .sleeping) : p.kill.state = p.state := by simp [Proc.kill, asleep]

theorem kill_unused {p : Proc} (unused : p.kill.state = .unused) : p.state = .unused := by
  by_cases asleep : p.state = .sleeping
  · simp [Proc.kill, asleep] at unused
  · rwa [kill_state asleep] at unused

theorem kill_embryo {p : Proc} (embryo : p.kill.state = .embryo) : p.state = .embryo := by
  by_cases asleep : p.state = .sleeping
  · simp [Proc.kill, asleep] at embryo
  · rwa [kill_state asleep] at embryo

end Proc

namespace Clean

theorem unused_step {p : Proc} (held : Clean past s) (identified : Identified S past s a) (fate : Fate S s k a p)
    (distinct : ∀ c pid, a = .kill c pid → s.ptable.withPid pid = some k → (s.ptable k).state ≠ .unused)
    (unused : p.state = .unused) : p.killed = false := by
  cases fate with
  | quiet a p same => exact same.killed.trans (held.unused k (same.unused unused))
  | left c e other exits mortal =>
    have same := s.ptable.left_same e initproc k
    exact same.killed.trans (held.unused k (same.unused unused))
  | abandoned c forking before => exact identified k forking
  | reaped a q returned before clear clears =>
    rcases clears with rfl | rfl <;> rfl
  | kill c pid here => exact absurd (Proc.kill_unused unused) (distinct c pid rfl here)
  | fault c before =>
    rw [show (s.ptable k).fault.state = (s.ptable k).state from rfl, before] at unused
    cases unused
  | run => cases unused
  | sleep => cases unused
  | exit => cases unused
  | found => cases unused
  | ready => cases unused

theorem embryo_step {p : Proc} (held : Clean past s) (fate : Fate S s k a p) (embryo : p.state = .embryo)
    (killed : p.killed = true) :
    ∃ entry ∈ (s, a) :: past, (entry.1.ptable k).state = .embryo ∧ (entry.1.ptable k).pid = p.pid ∧
      ∃ d, entry.2 = .kill d p.pid := by
  have earlier : (s.ptable k).state = .embryo → (s.ptable k).killed = true → p.pid = (s.ptable k).pid →
      ∃ entry ∈ (s, a) :: past, (entry.1.ptable k).state = .embryo ∧ (entry.1.ptable k).pid = p.pid ∧
        ∃ d, entry.2 = .kill d p.pid := by
    intro before killed same
    obtain ⟨entry, member, named⟩ := held.embryo k before killed
    rw [same]
    exact ⟨entry, .tail _ member, named⟩
  cases fate with
  | quiet a p same => exact earlier (same.embryo embryo) (same.killed.symm.trans killed) same.pid
  | left c e other exits mortal =>
    have same := s.ptable.left_same e initproc k
    exact earlier (same.embryo embryo) (same.killed.symm.trans killed) same.pid
  | found c here before =>
    rw [show ((s.ptable k).found s.nextpid s.ticks).killed = (s.ptable k).killed from rfl, held.unused k before] at killed
    cases killed
  | kill c pid here =>
    have same : (s.ptable k).kill.pid = pid := Table.withPid_pid here
    exact ⟨_, .head _, Proc.kill_embryo embryo, rfl, c, by rw [same]⟩
  | fault c before =>
    rw [show (s.ptable k).fault.state = (s.ptable k).state from rfl, before] at embryo
    cases embryo
  | reaped a q returned before clear clears => rcases clears with rfl | rfl <;> cases embryo
  | run => cases embryo
  | sleep => cases embryo
  | exit => cases embryo
  | abandoned => cases embryo
  | ready => cases embryo

theorem found (held : Clean past s) {pid : Word} (addressed : Addressed S past s pid)
    (found : s.ptable.withPid pid = some k) : (s.ptable k).state ≠ .unused := by
  intro unused
  have pid_eq := Table.withPid_pid found
  obtain ⟨j, before, used, same⟩ := addressed k unused (pid_eq.symm.trans (held.kept k unused))
  exact (firstFrom_eq_some.mp found).2 j (Nat.zero_le _) before same

theorem stays_unused {p : Proc} (old : s.creates a ≠ some k) (fate : Fate S s k a p) (before : (s.ptable k).state = .unused) :
    p.state = .unused := by
  have still : p.state = (s.ptable k).state ∨ p.state = .runnable ∧ ((s.ptable k).state = .sleeping ∨
      (s.ptable k).state = .running) → p.state = .unused := by
    intro change
    rcases change with eq | ⟨-, awake | awake⟩
    · exact eq.trans before
    · rw [before] at awake
      cases awake
    · rw [before] at awake
      cases awake
  cases fate with
  | quiet a p same => exact still same.state
  | left c e other exits mortal => exact still (s.ptable.left_same e initproc k).state
  | found c here => exact absurd here old
  | abandoned => rfl
  | kill c pid here => exact (Proc.kill_state (by rw [before]; decide)).trans before
  | fault c running =>
    rw [before] at running
    cases running
  | reaped a q returned zombie =>
    rw [before] at zombie
    cases zombie
  | run c runnable =>
    rw [before] at runnable
    cases runnable
  | sleep a chan running =>
    rw [before] at running
    cases running
  | exit c exits running =>
    rw [before] at running
    cases running
  | ready c parent embryo =>
    rw [before] at embryo
    cases embryo

theorem kept_step {p : Proc} (held : Clean past s) (fate : Fate S s k a p) (goes_on : ∀ c, a = .forkFails c → S.forking s c ≠ some k)
    (unused : p.state = .unused) : p.pid = (leftBehind S past k).getD 0 := by
  cases fate with
  | quiet a p same => exact same.pid.trans (held.kept k (same.unused unused))
  | left c e other exits mortal =>
    have same := s.ptable.left_same e initproc k
    exact same.pid.trans (held.kept k (same.unused unused))
  | abandoned c forking before => exact absurd forking (goes_on c rfl)
  | reaped a q returned before clear clears =>
    rw [held.taken k (by rw [before]; decide)]
    rcases clears with rfl | rfl <;> rfl
  | kill c pid here => exact held.kept k (Proc.kill_unused unused)
  | fault c before =>
    rw [show (s.ptable k).fault.state = (s.ptable k).state from rfl, before] at unused
    cases unused
  | run => cases unused
  | sleep => cases unused
  | exit => cases unused
  | found => cases unused
  | ready => cases unused

theorem created {s' : State S.Frame} (taken : S.Takes s a s') (creates : s.creates a = some k) :
    (s'.ptable k).state = .embryo := by
  cases a with
  | fork c =>
    have unused : s.ptable.unused = some k := creates
    cases step_cases taken with
    | call a f i s' at_c awake killed called =>
      cases called with
      | fork c np free resting found =>
        cases found.symm.trans unused
        exact congrArg Proc.state (Table.modify_self ..)
      | full c free resting none => cases none.symm.trans unused
  | _ => cases creates

theorem failed {s' : State S.Frame} {c : Nat} (taken : S.Takes s (.forkFails c) s') (fails : S.forking s c = some k) :
    s'.ptable k = (s.ptable k).abandoned := by
  cases step_cases taken with
  | call a f i s' at_c awake killed called =>
    cases called with
    | forkFails c np forking =>
      have at_c : s.cpu c = .running f i := at_c
      have same : S.forking s c = some np := by simp [Scheduler.forking, Scheduler.caller, at_c, forking]
      cases same.symm.trans fails
      exact Table.modify_self ..

/-- What a free slot keeps after a step, and that a slot in use keeps nothing. -/
theorem pid_step (held : Clean past s) (taken : S.Takes s a s') (k : Slot) :
    ((s'.ptable k).state = .unused → (s'.ptable k).pid = (leftBehind S ((s, a) :: past) k).getD 0) ∧
      ((s'.ptable k).state ≠ .unused → leftBehind S ((s, a) :: past) k = none) := by
  have fate : Fate S s k a (s'.ptable k) := .of_step held.coherent (step_cases taken)
  by_cases creates : s.creates a = some k
  · constructor
    · intro unused
      rw [created taken creates] at unused
      cases unused
    · exact fun _ => leftBehind_created creates
  · by_cases fails : ∃ c, a = .forkFails c ∧ S.forking s c = some k
    · obtain ⟨c, rfl, fails⟩ := fails
      rw [failed taken fails, leftBehind_failed fails]
      exact ⟨fun _ => rfl, fun used => absurd rfl used⟩
    · have goes_on : ∀ c, a = .forkFails c → S.forking s c ≠ some k := fun c eq forking => fails ⟨c, eq, forking⟩
      rw [leftBehind_other creates goes_on]
      constructor
      · exact held.kept_step fate goes_on
      · exact fun used => held.taken k fun before => used (stays_unused creates fate before)

theorem step (held : Clean past s) (identified : Identified S past s a) (taken : S.Takes s a s') :
    Clean ((s, a) :: past) s' := by
  have stepped := step_cases taken
  have fate : ∀ k, Fate S s k a (s'.ptable k) := fun k => .of_step held.coherent stepped
  exact
    { coherent := held.coherent.step stepped
      unused := fun k => held.unused_step identified (fate k) fun c pid kills here => by
        subst kills
        exact held.found identified here
      embryo := fun k => held.embryo_step (fate k)
      kept := fun k => (held.pid_step taken k).1
      taken := fun k => (held.pid_step taken k).2 }

theorem boot : Clean [] S.boot where
  coherent := .boot
  unused k unused := by
    by_cases eq : k = initproc
    · subst eq
      simp [Scheduler.boot] at unused
    · simp [Scheduler.boot, eq]
  embryo k embryo := by
    by_cases eq : k = initproc
    · subst eq
      simp [Scheduler.boot] at embryo
    · simp [Scheduler.boot, eq] at embryo
  kept k unused := by
    by_cases eq : k = initproc
    · subst eq
      simp [Scheduler.boot] at unused
    · simp [Scheduler.boot, eq, leftBehind]
  taken _ _ := rfl

end Clean

theorem kill_cases {c : Nat} {pid : Word} (taken : S.Takes s (.kill c pid) s') :
    (∃ k, s.ptable.withPid pid = some k) ∨ s' = s := by
  cases step_cases taken with
  | call a f i s' at_c awake killed called =>
    cases called with
    | kill c pid k free resting found => exact .inl ⟨k, found⟩
    | killNone => exact .inr rfl

theorem setPriority_cases {c : Nat} {priority pid : Word} (taken : S.Takes s (.setPriority c priority pid) s') :
    (∃ k, s.ptable.setPriorityFinds priority pid = some k) ∨ s' = s := by
  cases step_cases taken with
  | call a f i s' at_c awake killed called =>
    cases called with
    | setPriority c priority pid k resting found low high =>
      refine .inl ⟨k, ?_⟩
      rw [Table.setPriorityFinds, if_neg (by omega), found]
    | refuse => exact .inr rfl

theorem forking_task {c : Nat} {np : Slot} (forking : S.forking s c = some np) : ∃ p, s.task p = .fork np := by
  obtain ⟨p, -, task⟩ := Option.bind_eq_some_iff.mp forking
  cases at_p : s.task p with
  | fork q =>
    simp only [at_p, Option.some.injEq] at task
    exact ⟨p, task ▸ at_p⟩
  | _ => simp [at_p] at task

/-- In every build and on any number of CPUs: as long as no pid is one that an UNUSED slot has kept and no `fork`
    fails whose child has been killed, pids denote processes. -/
theorem pids_denote_processes (policy : Policy) {past : List (State policy.scheduler.Frame × Action)}
    {s s' : State policy.scheduler.Frame} {a : Action}
    (path : Path policy.scheduler.Takes policy.scheduler.boot past s) (taken : policy.scheduler.Takes s a s')
    (meets : Throughout (Identified policy.scheduler) ((s, a) :: past)) : Denotes policy.scheduler past s a s' := by
  have held : Clean past s := path.invariant_throughout meets.2 .boot fun held identified taken => held.step identified taken
  have identified := meets.1
  refine ⟨fun c pid kills => ?_, fun c priority pid sets low high => ?_, fun c np done forking killed => ?_⟩
  · subst kills
    have names : ∀ k, s.ptable.withPid pid = some k → s.ptable.Names pid := fun k found =>
      ⟨k, held.found identified found, Table.withPid_pid found⟩
    constructor
    · intro succeeds
      unfold Table.killReturns at succeeds
      cases found : s.ptable.withPid pid with
      | some k => exact names k found
      | none =>
        rw [found] at succeeds
        exact absurd succeeds (by decide)
    · intro unnamed
      rcases kill_cases taken with ⟨k, found⟩ | same
      · exact absurd (names k found) unnamed
      · rw [same]
  · subst sets
    have names : ∀ k, s.ptable.setPriorityFinds priority pid = some k → s.ptable.Names pid := fun k found =>
      have found := Table.withPid_of_finds found
      ⟨k, held.found (identified low high) found, Table.withPid_pid found⟩
    constructor
    · intro succeeds
      obtain ⟨k, found⟩ := Option.ne_none_iff_exists'.mp succeeds
      exact names k found
    · intro unnamed
      rcases setPriority_cases taken with ⟨k, found⟩ | same
      · exact absurd (names k found) unnamed
      · exact same
  · subst done
    obtain ⟨p, task⟩ := forking_task forking
    have embryo := held.coherent.embryo p np task
    have same : (s'.ptable np).killed = (s.ptable np).killed := by
      have fate : Fate policy.scheduler s np (.forkDone c) (s'.ptable np) := .of_step held.coherent (step_cases taken)
      generalize s'.ptable np = q at fate
      cases fate with
      | quiet a q same => exact same.killed
      | ready => rfl
      | sleep a chan before => rfl
      | reaped a q returned => cases returned
    exact held.embryo np embryo (same ▸ killed)

/-- Init calls `kill` with the pid 0, which all free slots have. -/
theorem stray_kill : ¬ ∀ (policy : Policy) past s, Path policy.scheduler.Takes policy.scheduler.boot past s →
    ∀ a s', policy.scheduler.Takes s a s' → Denotes policy.scheduler past s a s' := by
  intro claim
  obtain ⟨past, s, path, reached⟩ := replay_reaches rr.step rr.boot [.start 0, .dispatch 0]
    (fun _ s => (rr.step s (.kill 0 0)).isSome ∧ s.ptable.killReturns 0 = 0 ∧ ¬ s.ptable.Names 0) (by decide +kernel)
  simp only [decide_eq_true_eq] at reached
  obtain ⟨taken, succeeds, unnamed⟩ := reached
  obtain ⟨s', taken⟩ := Option.isSome_iff_exists.mp taken
  exact unnamed (((claim .rr past s path _ s' taken).kill 0 0 rfl).1 succeeds)

/-- A `fork` of init fails and leaves the pid 2 in the first free slot; the next one succeeds there. -/
def secondFork : List Action := [.start 0, .dispatch 0, .kill 0 1, .fork 0, .forkFails 0, .kill 0 7, .fork 0]

/-- The child is not killed; then `kill` and `set_priority` find it by its pid and nothing by the pid that failed. -/
theorem pids_denote_processes_of_fork : ∃ past s s',
    Path rr.Takes rr.boot past s ∧ Denotes rr past s (.forkDone 0) s' ∧ (s'.ptable firstChild).killed = false ∧
      s'.ptable.killReturns 3 = 0 ∧ s'.ptable.setPriorityFinds 70 3 = some firstChild ∧ s'.ptable.Names 3 ∧
      (∃ s'', rr.Takes s' (.kill 0 2) s'' ∧ s''.ptable = s'.ptable) ∧ rr.Takes s' (.setPriority 0 70 2) s' := by
  obtain ⟨past, s, path, reached⟩ := replay_reaches rr.step rr.boot secondFork
    (fun past s => Throughout (Identified rr) past ∧ (rr.step s (.forkDone 0)).any fun s' =>
      (s'.ptable firstChild).killed = false ∧ s'.ptable.killReturns 3 = 0 ∧
        s'.ptable.setPriorityFinds 70 3 = some firstChild ∧ ¬ s'.ptable.Names 2 ∧
        ∀ a ∈ [Action.kill 0 2, .kill 0 3, .setPriority 0 70 2, .setPriority 0 70 3],
          (rr.step s' a).isSome ∧ Identified rr ((s, .forkDone 0) :: past) s' a) (by decide +kernel)
  simp only [decide_eq_true_eq] at reached
  obtain ⟨s', done, further⟩ := (Option.any_eq_true ..).mp reached.2
  simp only [decide_eq_true_eq] at further
  obtain ⟨alive, killed, finds, unnamed, calls⟩ := further
  have meets : Throughout (Identified rr) ((s, .forkDone 0) :: past) := ⟨trivial, reached.1⟩
  have path' : Path rr.Takes rr.boot ((s, .forkDone 0) :: past) s' := .snoc path done
  obtain ⟨able, identified⟩ := calls (.kill 0 3) (by simp)
  obtain ⟨x, taken⟩ := Option.isSome_iff_exists.mp able
  have hit := (pids_denote_processes .rr path' taken ⟨identified, meets⟩).kill 0 3 rfl
  obtain ⟨able, identified⟩ := calls (.kill 0 2) (by simp)
  obtain ⟨y, missed⟩ := Option.isSome_iff_exists.mp able
  have miss := (pids_denote_processes .rr path' missed ⟨identified, meets⟩).kill 0 2 rfl
  obtain ⟨able, identified⟩ := calls (.setPriority 0 70 2) (by simp)
  obtain ⟨z, set⟩ := Option.isSome_iff_exists.mp able
  have same := ((pids_denote_processes .rr path' set ⟨identified, meets⟩).setPriority 0 70 2 rfl (by decide) (by decide)).2 unnamed
  refine ⟨past, s, s', path, pids_denote_processes .rr path done meets, alive, killed, finds, hit.1 killed,
    ⟨y, missed, miss.2 unnamed⟩, ?_⟩
  rw [same] at set
  exact set

end Xv6.Sched
