import Xv6.Sched.Priority

namespace Xv6.Sched

open Scheduler Transition Selection

section Priorities

variable {S : Scheduler} {s s' : State S.Frame} {a : Action}

/-- The slot whose priority a step sets, and the new priority. -/
def Scheduler.prioritizes (S : Scheduler) (s : State S.Frame) : Action → Option (Slot × Word)
  | .assign c =>
    match (s.cpu c).frame with
    | some f =>
      match s.task (S.proc f) with
      | .setPriority k priority => some (k, priority)
      | _ => none
    | none => none
  | .fork _ => s.ptable.unused.map (·, defaultPriorityPbs)
  | .waitx c =>
    match (s.cpu c).frame with
    | some f => (s.ptable.zombieOf (S.proc f)).map (·, 0)
    | none => none
  | _ => none

theorem wakeup_priority (p : Proc) (chan : Chan) : (p.wakeup chan).priority = p.priority := by
  unfold Proc.wakeup
  split <;> rfl

theorem exit_priority (t : Table) (p initproc : Slot) (ticks : Word) (k : Slot) :
    (t.exit p initproc ticks k).priority = (t k).priority := by
  have first : (t.wakeParent p k).priority = (t k).priority := by
    unfold Table.wakeParent
    cases (t p).parent with
    | some parent => exact wakeup_priority (t k) _
    | none => rfl
  have second : ∀ u : Table, (u.abandon p initproc k).priority = (u k).priority := by
    intro u
    unfold Table.abandon
    by_cases child : (u k).parent = some p <;>
      by_cases zombie : ∃ k, (u k).parent = some p ∧ (u k).state = .zombie <;>
      simp [child, zombie, wakeup_priority]
  unfold Table.exit
  by_cases same : k = p
  · subst same
    rw [Table.modify_self]
    exact (second _).trans first
  · rw [Table.modify_of_ne _ _ same]
    exact (second _).trans first

theorem updateRunsandOthers_priority (p : Proc) : p.updateRunsandOthers.priority = p.priority := by
  unfold Proc.updateRunsandOthers
  cases p.state <;> rfl

theorem modify_priority {t : Table} (j : Slot) (change : Proc → Proc) (same : (change (t j)).priority = (t j).priority)
    (k : Slot) : (t.modify j change k).priority = (t k).priority := by
  by_cases eq : k = j
  · subst eq
    rw [Table.modify_self, same]
  · rw [Table.modify_of_ne _ _ eq]

theorem modify_priority_or {t : Table} (j : Slot) (change : Proc → Proc) (priority : Word)
    (new : (change (t j)).priority = priority) (k : Slot) :
    (t.modify j change k).priority = (t k).priority ∨
      (j, priority) = (k, (t.modify j change k).priority) := by
  by_cases eq : k = j
  · subst eq
    rw [Table.modify_self, new]
    exact .inr rfl
  · exact .inl (by rw [Table.modify_of_ne _ _ eq])

theorem priority_cases (taken : Step S s a s') (k : Slot) :
    (s'.ptable k).priority = (s.ptable k).priority ∨ S.prioritizes s a = some (k, (s'.ptable k).priority) := by
  have reap : ∀ c f (clear : Proc → Proc) (priority : Word), (∀ p, (clear p).priority = priority) →
      ((S.reap s c f clear).ptable k).priority = (s.ptable k).priority ∨
        (s.ptable.zombieOf (S.proc f)).map (·, priority) = some (k, ((S.reap s c f clear).ptable k).priority) := by
    intro c f clear priority sets
    rcases S.reap_cases s c f clear with ⟨j, found, reaped⟩ | same | ⟨-, slept⟩
    · rw [reaped, found]
      exact (modify_priority_or j clear priority (sets _) k).imp_right (congrArg some)
    · exact .inl (by rw [same])
    · rw [slept]
      exact .inl (modify_priority _ _ rfl k)
  have keep : ∀ c f, ((S.reap s c f .reaped).ptable k).priority = (s.ptable k).priority := by
    intro c f
    rcases S.reap_cases s c f .reaped with ⟨j, found, reaped⟩ | same | ⟨-, slept⟩
    · rw [reaped]
      exact modify_priority _ _ rfl k
    · rw [same]
    · rw [slept]
      exact modify_priority _ _ rfl k
  cases taken with
  | start c idle awake free =>
    rw [Move.settle_ptable]
    exact .inl (by rw [S.start_books s.ticks s.ptable k])
  | resume c f at_c =>
    rw [Move.settle_ptable]
    exact .inl (by rw [S.resume_books s.ticks f s.ptable k])
  | dispatch => exact .inl (modify_priority _ _ rfl k)
  | tick => exact .inl rfl
  | charge => exact .inl (updateRunsandOthers_priority _)
  | wakeTicks => exact .inl (wakeup_priority _ _)
  | interrupt => exact .inl rfl
  | wakeup => exact .inl (wakeup_priority _ _)
  | yield => exact .inl (modify_priority _ _ rfl k)
  | call a f i s' at_c awake killed called =>
    have frame : (s.cpu a.cpu).frame = some f := by rw [at_c]; rfl
    cases called with
    | sleep => exact .inl (modify_priority _ _ rfl k)
    | exit => exact .inl (exit_priority ..)
    | fork c np free resting found =>
      simp only [prioritizes, found, Option.map_some, Option.some.injEq]
      exact modify_priority_or np _ defaultPriorityPbs rfl k
    | full => exact .inl rfl
    | forkFails => exact .inl (modify_priority _ _ rfl k)
    | forkDone => exact .inl (modify_priority _ _ rfl k)
    | wait => exact .inl (keep ..)
    | waitx c =>
      simp only [prioritizes, show (s.cpu c).frame = some f from frame]
      exact reap c f .reapedx 0 (fun _ => rfl)
    | kill => exact .inl (modify_priority _ _ rfl k)
    | killNone => exact .inl rfl
    | setPriority => exact .inl rfl
    | refuse => exact .inl rfl
    | assign c j priority free assigning =>
      simp only [prioritizes, show (s.cpu c).frame = some f from frame, assigning, Option.some.injEq]
      exact modify_priority_or j _ priority rfl k
    | fault => exact .inl (modify_priority _ _ rfl k)

end Priorities

/-! ### Rounds of equal priority -/

namespace PBS

variable {s s' : State pbs.Frame} {a : Action} {f g : Frame} {p q : Slot} {v : Word}

/-- A round in order. It is not given up for a better process while processes of its own priority wait
    further down the table, and `minone` neither turns away from such processes nor to the priority of
    processes that the round has passed. -/
structure Frame.Even (f : Frame) (s : State pbs.Frame) (a : Action) : Prop where
  finished : a = .resume 0 → flag f.minone s.ptable → ∀ j, Wanted f.minone s.ptable j → j ≤ f.p
  steady : ∀ set ∈ pbs.prioritizes s a, set.1 = f.minone → set.2 ≠ (s.ptable f.minone).priority →
    ∀ j, s.ptable.Runnable j → (s.ptable j).priority ≠ if f.p < j then (s.ptable f.minone).priority else set.2

def Even (s : State pbs.Frame) (a : Action) : Prop := ∀ f : Frame, (s.cpu 0).frame = some f → f.Even s a

instance Frame.decidableEven (f : Frame) (s : State pbs.Frame) (a : Action) : Decidable (f.Even s a) :=
  have same : ((a = .resume 0 → flag f.minone s.ptable → ∀ j, Wanted f.minone s.ptable j → j ≤ f.p) ∧
      ∀ set ∈ pbs.prioritizes s a, set.1 = f.minone → set.2 ≠ (s.ptable f.minone).priority →
        ∀ j, s.ptable.Runnable j → (s.ptable j).priority ≠ if f.p < j then (s.ptable f.minone).priority else set.2) ↔
      f.Even s a := ⟨fun h => ⟨h.1, h.2⟩, fun h => ⟨h.1, h.2⟩⟩
  -- not by going through all pairs of a slot and a priority
  @decidable_of_iff _ _ same (@instDecidableAnd _ _ inferInstance (Option.decidableForallMem (pbs.prioritizes s a)))

instance (s : State pbs.Frame) (a : Action) : Decidable (Even s a) :=
  match at_0 : (s.cpu 0).frame with
  | none => isTrue fun f here => by
    rw [at_0] at here
    cases here
  | some f =>
    have same : Frame.Even f s a ↔ Even s a :=
      ⟨fun even g here => Option.some.inj (at_0.symm.trans here) ▸ even, fun even => even f at_0⟩
    @decidable_of_iff _ _ same (Frame.decidableEven f s a)

/-- Both processes have priority `v` and `q` waits. -/
structure Equals (p q : Slot) (v : Word) (s : State pbs.Frame) : Prop where
  waiting : s.ptable.Runnable q
  first : (s.ptable p).priority = v
  second : (s.ptable q).priority = v

/-- The round of frame `f` has come from `p`, with `q` still to come: `q` is further down, or `p` has been
    passed, or the round is of another priority. -/
def Frame.Pending (p q : Slot) (v : Word) (t : Table) (f : Frame) : Prop :=
  p < q ∧ (t f.minone).priority = v ∧ p ≤ f.p ∧ f.p < q ∨
    q < p ∧ ((t f.minone).priority = v → f.p < q ∨ p ≤ f.p)

/-- `q` comes before `p` does again. -/
def Before (p q : Slot) (v : Word) (s : State pbs.Frame) : Prop :=
  match s.cpu 0 with
  | .idle => q < p
  | .picked f => f.p = q ∨ f.p ≠ p ∧ Frame.Pending p q v s.ptable f
  | .running f _ | .back f => Frame.Pending p q v s.ptable f

theorem Frame.Even.pending (even : f.Even s a) (equals : Equals p q v s) (taken : Step pbs s a s')
    (pending : f.Pending p q v s.ptable) : f.Pending p q v s'.ptable := by
  rcases priority_cases taken f.minone with same | set
  · unfold Frame.Pending
    rwa [same]
  · by_cases same : (s'.ptable f.minone).priority = (s.ptable f.minone).priority
    · unfold Frame.Pending
      rwa [same]
    · have other := even.steady _ set rfl same q equals.waiting
      rw [equals.second] at other
      rcases pending with ⟨less, current, passed, ahead⟩ | ⟨less, place⟩
      · rw [if_pos ahead] at other
        exact absurd current.symm other
      · refine .inr ⟨less, fun turned => .inl ?_⟩
        by_contra behind
        rw [if_neg behind] at other
        exact other turned.symm

/-- The next process of a round whose priority is `v` comes no later than `q`. -/
theorem Frame.Pending.next {t : Table} {minone : Slot} {start : Nat} (waiting : Wanted minone t q)
    (ahead : start ≤ q.val) (picked : (go minone start t).2 = some g) : g.p ≤ q := by
  obtain ⟨-, -, found⟩ := go_eq_some picked
  exact not_lt.mp fun less => (firstFrom_eq_some.mp found).2 q ahead less waiting

/-- The scheduler begins a round: it meets `q` before `p`, or the round is not theirs. -/
theorem before_start (less : q < p) (equals : Equals p q v s) (picked : (start s.ptable).2 = some f) :
    f.p = q ∨ f.p ≠ p ∧ f.Pending p q v (start s.ptable).1 := by
  obtain ⟨-, wanted, alike⟩ := start_best picked
  obtain ⟨-, same⟩ := start_eq_some picked
  rw [same] at picked
  by_cases turn : (s.ptable f.minone).priority = v
  · have next : f.p ≤ q :=
      Frame.Pending.next ⟨equals.waiting, equals.second.trans turn.symm⟩ (Nat.zero_le _) picked
    rcases next.lt_or_eq with earlier | here
    · exact .inr ⟨(earlier.trans less).ne, .inr ⟨less, fun _ => .inl earlier⟩⟩
    · exact .inl here
  · have other : ((start s.ptable).1 f.minone).priority ≠ v := by rwa [(alike _).2]
    refine .inr ⟨fun eq => other ?_, .inr ⟨less, fun now => absurd now other⟩⟩
    rw [← wanted.2, eq, (alike p).2, equals.first]

theorem before_resume (pending : f.Pending p q v s.ptable) (equals : Equals p q v s)
    (picked : (resume s.ticks f s.ptable).2 = some g) :
    g.p = q ∨ g.p ≠ p ∧ g.Pending p q v (resume s.ticks f s.ptable).1 := by
  obtain ⟨-, minone, wanted, alike⟩ := resume_best picked
  obtain ⟨-, same⟩ := resume_eq_some picked
  have worked : Alike s.ptable (s.ptable.modify f.p (·.worked s.ticks)) := alike_modify rfl rfl
  have further : f.p < g.p := by
    rw [same] at picked
    exact (firstFrom_eq_some.mp (go_eq_some picked).2.2).1.1
  have next : (s.ptable f.minone).priority = v → f.p < q → g.p ≤ q := by
    intro turn ahead
    rw [same] at picked
    refine Frame.Pending.next ⟨(worked q).1.mpr equals.waiting, ?_⟩ ahead picked
    rw [(worked _).2, (worked _).2, equals.second, turn]
  have keeps : ((resume s.ticks f s.ptable).1 g.minone).priority = (s.ptable f.minone).priority := by
    rw [(alike _).2, minone]
  rcases pending with ⟨less, turn, passed, ahead⟩ | ⟨less, place⟩
  · rcases (next turn ahead).lt_or_eq with earlier | here
    · exact .inr ⟨(passed.trans_lt further).ne', .inl ⟨less, keeps.trans turn, (passed.trans_lt further).le, earlier⟩⟩
    · exact .inl here
  · by_cases turn : (s.ptable f.minone).priority = v
    · rcases place turn with ahead | passed
      · rcases (next turn ahead).lt_or_eq with earlier | here
        · exact .inr ⟨(earlier.trans less).ne, .inr ⟨less, fun _ => .inl earlier⟩⟩
        · exact .inl here
      · exact .inr ⟨(passed.trans_lt further).ne', .inr ⟨less, fun _ => .inr (passed.trans_lt further).le⟩⟩
    · have other : ((resume s.ticks f s.ptable).1 g.minone).priority ≠ v := by rwa [keeps]
      refine .inr ⟨fun eq => other ?_, .inr ⟨less, fun now => absurd now other⟩⟩
      rw [← wanted.2, eq, (alike p).2, equals.first]

theorem resume_goes_on (even : f.Even s (.resume 0)) (equals : Equals p q v s) (turn : (s.ptable f.minone).priority = v)
    (ahead : f.p < q) : ∃ g, (resume s.ticks f s.ptable).2 = some g := by
  have wanted : Wanted f.minone s.ptable q := ⟨equals.waiting, equals.second.trans turn.symm⟩
  have worked : Alike s.ptable (s.ptable.modify f.p (·.worked s.ticks)) := alike_modify rfl rfl
  have best : ¬ flag f.minone (s.ptable.modify f.p (·.worked s.ticks)) := by
    intro ⟨j, runnable, better⟩
    rw [(worked _).2, (worked _).2] at better
    exact absurd (even.finished rfl ⟨j, (worked j).1.mp runnable, better⟩ q wanted) (not_le.mpr ahead)
  unfold resume go
  rw [if_neg best]
  cases found : firstFrom (f.p.val + 1) (Wanted f.minone (s.ptable.modify f.p (·.worked s.ticks))) with
  | some g => exact ⟨_, rfl⟩
  | none =>
    refine absurd ⟨(worked q).1.mpr equals.waiting, ?_⟩ (firstFrom_eq_none.mp found q ahead)
    rw [(worked _).2, (worked _).2]
    exact wanted.2

theorem Before.step (before : Before p q v s) (chosen : Chosen s) (equals : Equals p q v s)
    (taken : pbs.Under OneCpu s a s') (even : Even s a) (passes : pbs.dispatched s a ≠ some q) : Before p q v s' := by
  have stepped : Step pbs s a s' := step_cases taken.1
  have turn : Turn pbs s 0 s' a := Turn.of_step stepped 0
  have seated : ∀ {x : Option Frame} {t : Table}, s'.cpu 0 = .seat x → s'.ptable = t → (x = none → q < p) →
      (∀ f, x = some f → f.p = q ∨ f.p ≠ p ∧ f.Pending p q v t) → Before p q v s' := by
    intro x t seat table idle picked
    unfold Before
    rw [seat, table]
    cases x with
    | none => exact idle rfl
    | some f => exact picked f rfl
  cases turn with
  | still a same start dispatch resume =>
    unfold Before at before ⊢
    rw [same]
    cases at_0 : s.cpu 0 with
    | idle =>
      rw [at_0] at before
      exact before
    | picked f => exact absurd (dispatches chosen.coherent taken at_0) dispatch
    | back f => exact absurd (resumes chosen.coherent taken at_0) resume
    | running f i =>
      rw [at_0] at before
      exact (even f (by rw [at_0]; rfl)).pending equals stepped before
  | start idle awake free table seat =>
    unfold Before at before
    rw [idle] at before
    refine seated seat table (fun _ => before) (fun f picked => ?_)
    have started : (start s.ptable).2 = some f := picked
    exact before_start before equals started
  | dispatch f at_0 table seat =>
    unfold Before at before ⊢
    rw [at_0] at before
    rw [seat, table]
    rcases before with here | ⟨-, pending⟩
    · refine absurd ?_ passes
      simp only [dispatched, at_0]
      exact congrArg some here
    · have alike : (s.ptable.modify f.p (·.run s.ticks) f.minone).priority = (s.ptable f.minone).priority :=
        modify_priority _ _ rfl _
      show f.Pending p q v (s.ptable.modify f.p (·.run s.ticks))
      unfold Frame.Pending
      rwa [alike]
  | resume f at_0 table seat =>
    have mine : f.Even s (.resume 0) := even f (by rw [at_0]; rfl)
    unfold Before at before
    rw [at_0] at before
    refine seated seat table (fun ended => ?_) (fun g picked => ?_)
    · rcases before with ⟨-, now, -, ahead⟩ | ⟨less, -⟩
      · obtain ⟨g, picked⟩ := resume_goes_on mine equals now ahead
        have none : (resume s.ticks f s.ptable).2 = .none := ended
        rw [none] at picked
        cases picked
      · exact less
    · have resumed : (resume s.ticks f s.ptable).2 = some g := picked
      have pending : Frame.Pending p q v s.ptable f := before
      show g.p = q ∨ g.p ≠ p ∧ Frame.Pending p q v (PBS.resume s.ticks f s.ptable).1 g
      exact before_resume pending equals resumed
  | wakeTicks f i zero at_0 seat =>
    unfold Before at before ⊢
    rw [at_0] at before
    rw [seat]
    exact (even f (by rw [at_0]; rfl)).pending equals stepped before
  | interrupt f at_0 ne => exact absurd rfl ne
  | yield f i at_0 awake free due seat =>
    unfold Before at before ⊢
    rw [at_0] at before
    rw [seat]
    exact (even f (by rw [at_0]; rfl)).pending equals stepped before
  | leave a f i at_0 awake own called gone seat =>
    unfold Before at before ⊢
    rw [at_0] at before
    rw [seat]
    exact (even f (by rw [at_0]; rfl)).pending equals stepped before

/-- Both processes have priority `v`. -/
def Level (p q : Slot) (v : Word) (s : State pbs.Frame) : Prop :=
  (s.ptable p).priority = v ∧ (s.ptable q).priority = v

instance (p q : Slot) (v : Word) (s : State pbs.Frame) : Decidable (Level p q v s) :=
  inferInstanceAs (Decidable (_ ∧ _))

/-- After a dispatch of `p` the process `q` comes next, until it is dispatched. -/
theorem before_again {mid : List (State pbs.Frame × Action)} {s₁ s₂ y : State pbs.Frame}
    (chosen : Chosen s₁) (first : s₁.cpu 0 = .picked f) (taken : pbs.Under OneCpu s₁ (.dispatch 0) y)
    (rest : Path (pbs.Under fun s a => OneCpu s a ∧ Even s a) y mid s₂) (ne : q ≠ f.p) (waiting : s₁.ptable.Runnable q)
    (level : (s₁.ptable f.p).priority = v ∧ (s₁.ptable q).priority = v)
    (levels : ∀ entry ∈ mid, Level f.p q v entry.1) (passes : ∀ entry ∈ mid, pbs.dispatched entry.1 entry.2 ≠ some q) :
    Chosen s₂ ∧ Before f.p q v s₂ := by
  have stepped : Step pbs s₁ (.dispatch 0) y := step_cases taken.1
  have start : Chosen y ∧ y.ptable.Runnable q ∧ Before f.p q v y := by
    have wanted := ((chosen.best 0 f first).2).2
    have turn : Turn pbs s₁ 0 y (.dispatch 0) := Turn.of_step stepped 0
    refine ⟨chosen.step stepped, ?_, ?_⟩
    · refine (chosen.coherent.waits stepped waiting).resolve_right fun mine => ne ?_
      simp only [dispatched, first, Option.some.injEq] at mine
      exact mine.symm
    · cases turn with
      | still a same start dispatch => exact absurd rfl dispatch
      | leave a g i at_0 awake own called => cases called
      | dispatch g at_0 table seat =>
        rw [first] at at_0
        cases at_0
        have current : (y.ptable f.minone).priority = v := by
          rw [table]
          exact (modify_priority _ _ rfl _).trans (wanted.symm.trans level.1)
        unfold Before
        rw [seat]
        rcases ne.lt_or_gt with less | greater
        · exact .inr ⟨less, fun _ => .inr le_rfl⟩
        · exact .inl ⟨greater, current, le_rfl, greater⟩
  have all : Path (fun x a z => pbs.Under (fun s a => OneCpu s a ∧ Even s a) x a z ∧ Level f.p q v x ∧
      pbs.dispatched x a ≠ some q) y mid s₂ :=
    rest.restrict fun entry member => ⟨levels entry member, passes entry member⟩
  have last := all.always (I := fun x => Chosen x ∧ x.ptable.Runnable q ∧ Before f.p q v x) start
    (fun {x a z} held taken => by
      obtain ⟨⟨moved, one, even⟩, level, passes⟩ := taken
      have stepped : Step pbs x a z := step_cases moved
      refine ⟨held.1.step stepped, (held.1.coherent.waits stepped held.2.1).resolve_right passes, ?_⟩
      exact held.2.2.step held.1 ⟨held.2.1, level.1, level.2⟩ ⟨moved, one⟩ even passes)
  exact ⟨last.1, last.2.2⟩

end PBS

/-- In the PBS build on one CPU, as long as the rounds go on in order, a process is not dispatched twice while
    another process of the same unchanged priority waits. -/
theorem pbs_takes_turns {past mid : List (State pbs.Frame × Action)} {s₁ s₂ : State pbs.Frame} {p q : Slot} {v : Word}
    (path : Path (pbs.Under fun s a => OneCpu s a ∧ PBS.Even s a) pbs.boot (mid ++ (s₁, .dispatch 0) :: past) s₂)
    (ne : q ≠ p) (first : pbs.dispatched s₁ (.dispatch 0) = some p) (second : pbs.dispatched s₂ (.dispatch 0) = some p)
    (waiting : s₁.ptable.Runnable q) (level₁ : PBS.Level p q v s₁) (levels : ∀ entry ∈ mid, PBS.Level p q v entry.1)
    (level₂ : PBS.Level p q v s₂) : ∃ entry ∈ mid, pbs.dispatched entry.1 entry.2 = some q := by
  obtain ⟨f, at_1, rfl⟩ : ∃ f : PBS.Frame, s₁.cpu 0 = .picked f ∧ f.p = p := picked_of_dispatched first
  obtain ⟨g, at_2, again⟩ : ∃ g : PBS.Frame, s₂.cpu 0 = .picked g ∧ g.p = f.p := picked_of_dispatched second
  by_contra none
  have passes : ∀ entry ∈ mid, pbs.dispatched entry.1 entry.2 ≠ some q := fun entry member here =>
    none ⟨entry, member, here⟩
  obtain ⟨early, y, taken, rest⟩ := path.cut
  have chosen := PBS.chosen (early.mono fun taken => taken.1)
  obtain ⟨chosen₂, before⟩ := PBS.before_again chosen at_1 ⟨taken.1, taken.2.1⟩ rest ne waiting level₁ levels passes
  unfold PBS.Before at before
  rw [at_2] at before
  rcases before with here | ⟨other, -⟩
  · exact ne (here.symm.trans again)
  · exact other again

def turnsRun : List Action :=
  [.start 0, .dispatch 0, .fork 0, .forkDone 0, .tick, .charge, .wakeTicks, .yield 0, .resume 0, .dispatch 0,
    .tick, .charge, .wakeTicks, .yield 0, .resume 0, .start 0, .dispatch 0,
    .tick, .charge, .wakeTicks, .yield 0, .resume 0]

/-- What the two runs below come to: `p` is about to be dispatched, as it was `n` steps ago with `q` waiting. -/
def PBS.Again (p q : Slot) (v : Word) (n : Nat) (past : List (State pbs.Frame × Action)) (s : State pbs.Frame) : Prop :=
  pbs.dispatched s (.dispatch 0) = some p ∧ PBS.Level p q v s ∧ (∀ entry ∈ past.take n, PBS.Level p q v entry.1) ∧
    ∃ entry ∈ past[n]?, entry.2 = .dispatch 0 ∧ pbs.dispatched entry.1 (.dispatch 0) = some p ∧
      entry.1.ptable.Runnable q ∧ PBS.Level p q v entry.1

instance (p q : Slot) (v : Word) (n : Nat) (past : List (State pbs.Frame × Action)) (s : State pbs.Frame) :
    Decidable (PBS.Again p q v n past s) := inferInstanceAs (Decidable (_ ∧ _))

theorem pbs_takes_turns_of_two : ∃ past mid s₁ s₂,
    Path (pbs.Under fun s a => OneCpu s a ∧ PBS.Even s a) pbs.boot (mid ++ (s₁, .dispatch 0) :: past) s₂ ∧
      pbs.dispatched s₁ (.dispatch 0) = some firstChild ∧ pbs.dispatched s₂ (.dispatch 0) = some firstChild ∧
      ∃ entry ∈ mid, pbs.dispatched entry.1 entry.2 = some initproc := by
  obtain ⟨past, s₂, path, reached⟩ := replay_reaches pbs.step pbs.boot turnsRun
    (fun past s => (∀ entry ∈ past, OneCpu entry.1 entry.2 ∧ PBS.Even entry.1 entry.2) ∧
      PBS.Again firstChild initproc 60 12 past s) (by decide +kernel)
  simp only [decide_eq_true_eq] at reached
  obtain ⟨even, second, level₂, levels, ⟨s₁, a⟩, here, rfl, first, waiting, level₁⟩ := reached
  have run : Path (pbs.Under fun s a => OneCpu s a ∧ PBS.Even s a) pbs.boot past s₂ := path.restrict even
  have split := run.split here
  exact ⟨_, _, s₁, s₂, split, first, second,
    pbs_takes_turns split (by decide) first second waiting level₁ levels level₂⟩

/-- The third child, of higher priority, wakes up while the first child runs; the round starts anew and the first
    child runs again before the second. -/
def overtakenRun : List Action :=
  [.start 0, .dispatch 0, .fork 0, .forkDone 0, .fork 0, .forkDone 0, .fork 0, .forkDone 0, .setPriority 0 50 4,
    .assign 0, .yield 0, .resume 0, .start 0, .dispatch 0, .sleep 0 (.other 5), .resume 0, .start 0, .dispatch 0,
    .wait 0, .resume 0, .dispatch 0, .tick, .charge, .wakeTicks, .wakeup 0 5, .yield 0, .resume 0, .start 0,
    .dispatch 0, .sleep 0 (.other 5), .resume 0, .start 0]

theorem pbs_overtakes : ¬ ∀ past mid s₁ s₂ p q v,
    Path (pbs.Under OneCpu) pbs.boot (mid ++ (s₁, .dispatch 0) :: past) s₂ → q ≠ p →
    pbs.dispatched s₁ (.dispatch 0) = some p → pbs.dispatched s₂ (.dispatch 0) = some p → s₁.ptable.Runnable q →
    PBS.Level p q v s₁ → (∀ entry ∈ mid, PBS.Level p q v entry.1) → PBS.Level p q v s₂ →
    ∃ entry ∈ mid, pbs.dispatched entry.1 entry.2 = some q := by
  intro claim
  obtain ⟨past, s₂, path, reached⟩ := replay_reaches pbs.step pbs.boot overtakenRun
    (fun past s => (∀ entry ∈ past, OneCpu entry.1 entry.2) ∧ PBS.Again firstChild secondChild 60 11 past s ∧
      ∀ entry ∈ past.take 11, pbs.dispatched entry.1 entry.2 ≠ some secondChild) (by decide +kernel)
  simp only [decide_eq_true_eq] at reached
  obtain ⟨one, ⟨second, level₂, levels, ⟨s₁, a⟩, here, rfl, first, waiting, level₁⟩, passes⟩ := reached
  obtain ⟨entry, member, dispatched⟩ := claim _ _ s₁ s₂ firstChild secondChild 60 ((path.restrict one).split here)
    (by decide) first second waiting level₁ levels level₂
  exact passes entry member dispatched

end Xv6.Sched
