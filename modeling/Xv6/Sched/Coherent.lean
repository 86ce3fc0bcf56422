import Xv6.Sched.Steps

namespace Xv6.Sched

open Scheduler

/-- All that a wakeup, a tick or the scheduler's bookkeeping do to the state of a process. -/
def Proc.Woken (p p' : Proc) : Prop := p'.state = p.state ∨ p.state = .sleeping ∧ p'.state = .runnable

namespace Proc

theorem Woken.refl (p : Proc) : p.Woken p := .inl rfl

theorem Booked.woken {p p' : Proc} (booked : p.Booked p') : p.Woken p' := .inl booked.state

theorem Woken.trans {p q r : Proc} (first : p.Woken q) (second : q.Woken r) : p.Woken r := by
  unfold Woken at *
  rcases first with same | ⟨asleep, awake⟩
  · rcases second with same' | ⟨asleep', awake'⟩
    · exact .inl (same'.trans same)
    · exact .inr ⟨same ▸ asleep', awake'⟩
  · rcases second with same' | ⟨asleep', awake'⟩
    · exact .inr ⟨asleep, same'.trans awake⟩
    · rw [awake] at asleep'
      cases asleep'

theorem wakeup_woken (p : Proc) (chan : Chan) : p.Woken (p.wakeup chan) := by
  unfold wakeup
  split
  · next asleep => exact .inr ⟨asleep.1, rfl⟩
  · exact .refl p

theorem kill_woken (p : Proc) : p.Woken p.kill := by
  by_cases asleep : p.state = .sleeping
  · exact .inr ⟨asleep, by simp [kill, asleep]⟩
  · exact .inl (by simp [kill, asleep])

@[simp] theorem updateRunsandOthers_state (p : Proc) : p.updateRunsandOthers.state = p.state := by
  unfold updateRunsandOthers
  cases at_p : p.state <;> simp [at_p]

theorem Woken.eq {p p' : Proc} (woken : p.Woken p') (awake : p.state ≠ .sleeping) : p'.state = p.state :=
  woken.resolve_right fun asleep => awake asleep.1

end Proc

namespace Table

theorem wakeParent_woken (t : Table) (p k : Slot) : (t k).Woken (t.wakeParent p k) := by
  unfold wakeParent
  cases (t p).parent with
  | some parent => exact (t k).wakeup_woken _
  | none => exact .refl _

theorem abandon_woken (t : Table) (p initproc k : Slot) : (t k).Woken (t.abandon p initproc k) := by
  have woken : (t k).Woken (if ∃ k, (t k).parent = some p ∧ (t k).state = .zombie
      then (t k).wakeup (.proc initproc) else t k) := by
    split
    · exact (t k).wakeup_woken _
    · exact .refl _
  unfold abandon
  by_cases child : (t k).parent = some p
  · simpa only [child, if_true, Proc.Woken] using woken
  · simpa only [child, if_false] using woken

theorem exit_woken (t : Table) {p k : Slot} (initproc : Slot) (ticks : Word) (ne : k ≠ p) :
    (t k).Woken (t.exit p initproc ticks k) := by
  unfold exit
  rw [modify_of_ne _ _ ne]
  exact (t.wakeParent_woken p k).trans (abandon_woken _ p initproc k)

@[simp] theorem exit_self (t : Table) (p initproc : Slot) (ticks : Word) :
    (t.exit p initproc ticks p).state = .zombie := by
  simp [exit, Proc.exit]

end Table

/-- A process that has given up the CPU and whose scheduler still holds the lock. -/
def ProcState.Switched (state : ProcState) : Prop := state = .runnable ∨ state = .sleeping ∨ state = .zombie

/-- Where CPU `n` is agrees with the state of the process it is at and with the lock. -/
def Cpu.Agrees {Frame : Type} (proc : Frame → Slot) (t : Table) (lock : Option Nat) (n : Nat) : Cpu Frame → Prop
  | .idle => True
  | .picked f => lock = some n ∧ (t (proc f)).state = .runnable
  | .running f _ => (t (proc f)).state = .running
  | .back f => lock = some n ∧ (t (proc f)).state.Switched

variable {S : Scheduler}

/-- The invariant of every build on any number of CPUs. -/
structure Coherent (s : State S.Frame) : Prop where
  agrees : ∀ c, (s.cpu c).Agrees S.proc s.ptable s.lock c
  alone : ∀ c d f g i j, s.cpu c = .running f i → s.cpu d = .running g j → S.proc f = S.proc g → c = d
  embryo : ∀ p np, s.task p = .fork np → (s.ptable np).state = .embryo
  parent : ∀ p q np, s.task p = .fork np → s.task q = .fork np → p = q

namespace Cpu.Agrees

variable {Frame : Type} {proc : Frame → Slot} {t t' : Table} {lock : Option Nat} {n : Nat} {c : Cpu Frame}

theorem retable (agrees : c.Agrees proc t lock n)
    (woken : ∀ f, c.frame = some f → (t (proc f)).Woken (t' (proc f))) : c.Agrees proc t' lock n := by
  cases c with
  | idle => trivial
  | picked f =>
    have same := (woken f rfl).eq (by rw [agrees.2]; decide)
    exact ⟨agrees.1, same.trans agrees.2⟩
  | running f i =>
    have same := (woken f rfl).eq (by rw [show (t (proc f)).state = .running from agrees]; decide)
    exact same.trans agrees
  | back f =>
    refine ⟨agrees.1, ?_⟩
    rcases woken f rfl with same | ⟨-, awake⟩
    · rw [same]
      exact agrees.2
    · exact .inl awake

theorem relock (agrees : c.Agrees proc t none n) (lock : Option Nat) : c.Agrees proc t lock n := by
  cases c with
  | idle => trivial
  | picked f => cases agrees.1
  | running f i => exact agrees
  | back f => cases agrees.1

theorem unlock {m : Nat} (agrees : c.Agrees proc t (some m) n) (ne : n ≠ m) (lock : Option Nat) :
    c.Agrees proc t lock n := by
  cases c with
  | idle => trivial
  | picked f => exact absurd (Option.some.inj agrees.1).symm ne
  | running f i => exact agrees
  | back f => exact absurd (Option.some.inj agrees.1).symm ne

/-- The process at a CPU is neither free nor under construction nor, with the lock free, a zombie. -/
theorem state_ne (agrees : c.Agrees proc t lock n) {f : Frame} (at_c : c.frame = some f) :
    (t (proc f)).state ≠ .unused ∧ (t (proc f)).state ≠ .embryo ∧
      (lock = none → (t (proc f)).state ≠ .zombie) := by
  cases c with
  | idle => cases at_c
  | picked g =>
    cases at_c
    rw [agrees.2]
    simp
  | running g i =>
    cases at_c
    rw [show (t (proc f)).state = .running from agrees]
    simp
  | back g =>
    cases at_c
    obtain ⟨held, switched⟩ := agrees
    rcases switched with h | h | h <;> simp [h, held]

end Cpu.Agrees

namespace Coherent

variable {s s' : State S.Frame} {c : Nat} {f : S.Frame} {i : Bool}

theorem running (held : Coherent s) (at_c : s.cpu c = .running f i) : (s.ptable (S.proc f)).state = .running := by
  have agrees := held.agrees c
  rwa [at_c] at agrees

theorem picked (held : Coherent s) (at_c : s.cpu c = .picked f) :
    s.lock = some c ∧ (s.ptable (S.proc f)).state = .runnable := by
  have agrees := held.agrees c
  rwa [at_c] at agrees

theorem back (held : Coherent s) (at_c : s.cpu c = .back f) :
    s.lock = some c ∧ (s.ptable (S.proc f)).state.Switched := by
  have agrees := held.agrees c
  rwa [at_c] at agrees

theorem retable (held : Coherent s) {t : Table} (woken : ∀ k, (s.ptable k).Woken (t k)) :
    Coherent { s with ptable := t } where
  agrees d := (held.agrees d).retable (fun f _ => woken (S.proc f))
  alone := held.alone
  embryo p np forking := by
    have old := held.embryo p np forking
    exact ((woken np).eq (by rw [old]; decide)).trans old
  parent := held.parent

/-- A table in which one slot off the CPUs has changed and no fork is at work on it any more. -/
theorem resettle (held : Coherent s) {k : Slot} {change : Proc → Proc} {task : Slot → Task}
    (off : ∀ d f, (s.cpu d).frame = some f → S.proc f ≠ k)
    (forks : ∀ p np, task p = .fork np →
      np ≠ k ∧ s.task p = .fork np ∨ np = k ∧ (change (s.ptable k)).state = .embryo)
    (one : ∀ p q, task p = .fork k → task q = .fork k → p = q) {nextpid : Word} :
    Coherent { s with ptable := s.ptable.modify k change, task := task, nextpid := nextpid } where
  agrees d := (held.agrees d).retable fun f at_d => by
    have same := s.ptable.modify_of_ne change (off d f at_d)
    exact .inl (congrArg Proc.state same)
  alone := held.alone
  embryo p np forking := by
    rcases forks p np forking with ⟨ne, old⟩ | ⟨rfl, new⟩
    · simpa only [Table.modify_of_ne _ _ ne] using held.embryo p np old
    · simpa only [Table.modify_self] using new
  parent p q np forking forking' := by
    rcases forks p np forking with ⟨ne, old⟩ | ⟨rfl, -⟩
    · rcases forks q np forking' with ⟨-, old'⟩ | ⟨rfl, -⟩
      · exact held.parent p q np old old'
      · exact absurd rfl ne
    · exact one p q forking forking'

theorem switch (held : Coherent s) (at_c : s.cpu c = .running f i) (free : s.lock = none) {t : Table}
    (gone : (t (S.proc f)).state.Switched) (woken : ∀ k, k ≠ S.proc f → (s.ptable k).Woken (t k)) :
    Coherent (S.sched s c f t) where
  agrees d := by
    by_cases same : d = c
    · subst same
      simpa [sched, Cpu.Agrees] using gone
    · have old := held.agrees d
      rw [free] at old
      have kept : (s.cpu d).Agrees S.proc t (some c) d := by
        refine (old.relock _).retable fun g at_d => ?_
        by_cases mine : S.proc g = S.proc f
        · cases at_cpu : s.cpu d with
          | running g' j =>
            rw [at_cpu] at at_d
            cases at_d
            exact absurd (held.alone d c g f j i at_cpu at_c mine) same
          | idle =>
            rw [at_cpu] at at_d
            cases at_d
          | picked g' =>
            rw [at_cpu] at old
            cases old.1
          | back g' =>
            rw [at_cpu] at old
            cases old.1
        · exact woken _ mine
      simpa [sched, same] using kept
  alone d e g h j k at_d at_e same := by
    have ne : ∀ {n g j}, (S.sched s c f t).cpu n = .running g j → n ≠ c := by
      intro n g j at_n eq
      subst eq
      simp [sched] at at_n
    have at_d' : s.cpu d = .running g j := by simpa [sched, ne at_d] using at_d
    have at_e' : s.cpu e = .running h k := by simpa [sched, ne at_e] using at_e
    exact held.alone d e g h j k at_d' at_e' same
  embryo p np forking := by
    have old := held.embryo p np forking
    have ne : np ≠ S.proc f := by
      intro eq
      rw [eq, held.running at_c] at old
      cases old
    exact ((woken np ne).eq (by rw [old]; decide)).trans old
  parent := held.parent

theorem settle (held : Coherent s) (mine : s.lock = none ∨ s.lock = some c)
    (at_c : ∀ f i, s.cpu c ≠ .running f i) {turn : Table × Option S.Frame}
    (books : ∀ k, (s.ptable k).Booked (turn.1 k))
    (picks : ∀ f, turn.2 = some f → (turn.1 (S.proc f)).state = .runnable) : Coherent (S.settle s c turn) := by
  have others : ∀ d lock, d ≠ c → (s.cpu d).Agrees S.proc turn.1 lock d := by
    intro d lock ne
    have old := (held.agrees d).retable fun f _ => (books (S.proc f)).woken
    rcases mine with free | taken
    · rw [free] at old
      exact old.relock lock
    · rw [taken] at old
      exact old.unlock ne lock
  have embryos : ∀ p np, s.task p = .fork np → (turn.1 np).state = .embryo := fun p np forking =>
    (books np).state.trans (held.embryo p np forking)
  have alone : ∀ new : Cpu S.Frame, (∀ f i, new ≠ .running f i) → ∀ d e g h j k,
      Function.update s.cpu c new d = .running g j → Function.update s.cpu c new e = .running h k →
      S.proc g = S.proc h → d = e := by
    intro new off d e g h j k at_d at_e same
    have ne : ∀ {n g j}, Function.update s.cpu c new n = .running g j → n ≠ c := by
      intro n g j at_n eq
      subst eq
      exact off g j (by simpa using at_n)
    have at_d' : s.cpu d = .running g j := by simpa [ne at_d] using at_d
    have at_e' : s.cpu e = .running h k := by simpa [ne at_e] using at_e
    exact held.alone d e g h j k at_d' at_e' same
  unfold Scheduler.settle
  cases chosen : turn.2 with
  | none =>
    refine ⟨fun d => ?_, alone .idle (by simp), embryos, held.parent⟩
    by_cases same : d = c
    · subst same
      simp [Cpu.Agrees]
    · simpa [same] using others d none same
  | some g =>
    refine ⟨fun d => ?_, alone (.picked g) (by simp), embryos, held.parent⟩
    by_cases same : d = c
    · subst same
      simpa [Cpu.Agrees] using picks g chosen
    · simpa [same] using others d (some c) same

theorem off (held : Coherent s) {k : Slot}
    (away : (s.ptable k).state = .unused ∨ (s.ptable k).state = .embryo ∨
      (s.ptable k).state = .zombie ∧ s.lock = none) :
    ∀ d f, (s.cpu d).frame = some f → S.proc f ≠ k := by
  intro d f at_d eq
  obtain ⟨used, complete, alive⟩ := (held.agrees d).state_ne at_d
  rw [eq] at used complete alive
  rcases away with h | h | ⟨h, free⟩
  · exact used h
  · exact complete h
  · exact alive free h

theorem forks_ne (held : Coherent s) {k : Slot} (ne : (s.ptable k).state ≠ .embryo) (p : Slot) :
    s.task p ≠ .fork k := fun forking => ne (held.embryo p k forking)

end Coherent

namespace Scheduler

variable {s : State S.Frame} {c : Nat} {f : S.Frame} {clear : Proc → Proc}

theorem reap_cases (s : State S.Frame) (c : Nat) (f : S.Frame) (clear : Proc → Proc) :
    (∃ k, s.ptable.zombieOf (S.proc f) = some k ∧ S.reap s c f clear = { s with ptable := s.ptable.modify k clear }) ∨
      S.reap s c f clear = s ∨
      s.ptable.zombieOf (S.proc f) = none ∧
        S.reap s c f clear = S.sched s c f (s.ptable.modify (S.proc f) (·.sleep (.proc (S.proc f)))) := by
  unfold reap
  cases found : s.ptable.zombieOf (S.proc f) with
  | some k => exact .inl ⟨k, rfl, rfl⟩
  | none =>
    by_cases alone : ¬ s.ptable.haveKids (S.proc f) ∨ (s.ptable (S.proc f)).killed = true
    · exact .inr (.inl (if_pos alone))
    · exact .inr (.inr ⟨rfl, if_neg alone⟩)

theorem zombieOf_state {t : Table} {p k : Slot} (found : t.zombieOf p = some k) :
    (t k).parent = some p ∧ (t k).state = .zombie := (Selection.firstFrom_eq_some.mp found).1.2

theorem unused_state {t : Table} {k : Slot} (found : t.unused = some k) : (t k).state = .unused :=
  (Selection.firstFrom_eq_some.mp found).1.2

end Scheduler

namespace Coherent

variable {s s' : State S.Frame} {c : Nat} {f : S.Frame} {i : Bool} {a : Action}

theorem reap (held : Coherent s) (at_c : s.cpu c = .running f i) (free : s.lock = none)
    (clear : Proc → Proc) : Coherent (S.reap s c f clear) := by
  rcases S.reap_cases s c f clear with ⟨k, found, reaped⟩ | same | ⟨-, slept⟩
  · have zombie := (zombieOf_state found).2
    have forks := held.forks_ne (k := k) (by rw [zombie]; decide)
    rw [reaped]
    refine held.resettle (held.off (.inr (.inr ⟨zombie, free⟩))) (fun p np forking => .inl ⟨?_, forking⟩)
      (fun p _ forking => absurd forking (forks p))
    intro eq
    exact forks p (eq ▸ forking)
  · rwa [same]
  · rw [slept]
    refine held.switch at_c free (by simp [Proc.sleep, ProcState.Switched]) (fun k ne => ?_)
    rw [Table.modify_of_ne _ _ ne]
    exact .refl _

theorem finish (held : Coherent s) {np : Slot} (forking : s.task (S.proc f) = .fork np) (change : Proc → Proc) :
    Coherent { s with
      ptable := s.ptable.modify np change, task := Function.update s.task (S.proc f) .free } := by
  have embryo := held.embryo _ _ forking
  have still : ∀ p k, Function.update s.task (S.proc f) .free p = .fork k → p ≠ S.proc f ∧ s.task p = .fork k := by
    intro p k h
    by_cases same : p = S.proc f
    · subst same
      simp at h
    · exact ⟨same, by rwa [Function.update_of_ne same] at h⟩
  have gone : ∀ p, Function.update s.task (S.proc f) .free p ≠ .fork np := by
    intro p h
    obtain ⟨ne, old⟩ := still p np h
    exact ne (held.parent _ _ _ old forking)
  refine held.resettle (held.off (.inr (.inl embryo))) (fun p k h => .inl ⟨?_, (still p k h).2⟩)
    (fun p _ h => absurd h (gone p))
  intro eq
  exact gone p (eq ▸ h)

theorem retask (held : Coherent s) {task : Slot → Task} (old : ∀ p np, task p = .fork np → s.task p = .fork np) :
    Coherent { s with task := task } where
  agrees := held.agrees
  alone := held.alone
  embryo p np forking := held.embryo p np (old p np forking)
  parent p q np forking forking' := held.parent p q np (old p np forking) (old q np forking')

theorem update_task {p : Slot} {task : Task} (ne : ∀ np, task ≠ .fork np) (q np : Slot)
    (forking : Function.update s.task p task q = .fork np) : s.task q = .fork np := by
  by_cases same : q = p
  · subst same
    rw [Function.update_self] at forking
    exact absurd forking (ne np)
  · rwa [Function.update_of_ne same] at forking

theorem modify_woken {t : Table} {k : Slot} {change : Proc → Proc} (woken : (t k).Woken (change (t k))) (j : Slot) :
    (t j).Woken (t.modify k change j) := by
  by_cases same : j = k
  · subst same
    rwa [Table.modify_self]
  · rw [Table.modify_of_ne _ _ same]
    exact .refl _

theorem call (held : Coherent s) (at_c : s.cpu c = .running f i) (called : Call S s c f a s') : Coherent s' := by
  cases called with
  | sleep c' chan free =>
    refine held.switch at_c free (by simp [Proc.sleep, ProcState.Switched]) (fun k ne => ?_)
    rw [Table.modify_of_ne _ _ ne]
    exact .refl _
  | exit c' free =>
    exact held.switch at_c free (by simp [ProcState.Switched]) (fun k ne => s.ptable.exit_woken _ _ ne)
  | fork c' np free resting found =>
    have unused := unused_state found
    have others := held.forks_ne (k := np) (by rw [unused]; decide)
    refine held.resettle (held.off (.inl unused)) (fun p k forking => ?_) (fun p q forking forking' => ?_)
    · by_cases mine : p = S.proc f
      · subst mine
        simp only [Function.update_self, Task.fork.injEq] at forking
        exact .inr ⟨forking.symm, rfl⟩
      · by_cases child : p = np
        · subst child
          simp [mine] at forking
        · simp only [Function.update_of_ne mine, Function.update_of_ne child] at forking
          refine .inl ⟨?_, forking⟩
          intro eq
          exact others p (eq ▸ forking)
    · have mine : ∀ {p}, Function.update (Function.update s.task np .free) (S.proc f) (.fork np) p = .fork np →
          p = S.proc f := by
        intro p forking
        by_contra ne
        by_cases child : p = np
        · subst child
          simp [ne] at forking
        · simp only [Function.update_of_ne ne, Function.update_of_ne child] at forking
          exact others p forking
      rw [mine forking, mine forking']
  | full => exact held
  | forkFails c' np forking => exact held.finish forking .abandoned
  | forkDone c' np free forking => exact held.finish forking (·.ready (S.proc f))
  | wait c' free => exact held.reap at_c free _
  | waitx c' free => exact held.reap at_c free _
  | kill c' pid k free resting found => exact held.retable (modify_woken (s.ptable k).kill_woken)
  | killNone => exact held
  | setPriority c' priority pid k resting found low high => exact held.retask (update_task (by simp))
  | refuse => exact held
  | assign c' k priority free assigning =>
    refine (held.retask (update_task ?_)).retable (modify_woken (.inl rfl))
    intro np
    split <;> simp
  | fault c' => exact held.retable (modify_woken (.inl rfl))

theorem retime (held : Coherent s) {ticks : Word} {timer : Timer} :
    Coherent { s with ticks := ticks, timer := timer } :=
  ⟨held.agrees, held.alone, held.embryo, held.parent⟩

theorem recpu (held : Coherent s) {cpu : Nat → Cpu S.Frame}
    (same : ∀ c, cpu c = s.cpu c ∨ ∃ f i j, s.cpu c = .running f i ∧ cpu c = .running f j) :
    Coherent { s with cpu := cpu } where
  agrees c := by
    show (cpu c).Agrees S.proc s.ptable s.lock c
    rcases same c with eq | ⟨f, i, j, before, after⟩
    · rw [eq]
      exact held.agrees c
    · rw [after]
      exact held.running before
  alone c d f g i j at_c at_d eq := by
    have before : ∀ {n h k}, cpu n = .running h k → ∃ k', s.cpu n = .running h k' := by
      intro n h k at_n
      rcases same n with eq | ⟨f', i', j', old, new⟩
      · exact ⟨k, eq ▸ at_n⟩
      · rw [at_n] at new
        cases new
        exact ⟨i', old⟩
    obtain ⟨i', at_c'⟩ := before at_c
    obtain ⟨j', at_d'⟩ := before at_d
    exact held.alone c d f g i' j' at_c' at_d' eq
  embryo := held.embryo
  parent := held.parent

theorem swtch (held : Coherent s) (at_c : s.cpu c = .picked f) : Coherent (S.swtch s c f) := by
  obtain ⟨mine, runnable⟩ := held.picked at_c
  have away : ∀ d g i, s.cpu d = .running g i → S.proc g ≠ S.proc f := by
    intro d g i at_d eq
    have state := held.running at_d
    rw [eq, runnable] at state
    cases state
  refine ⟨fun d => ?_, fun d e g h i j at_d at_e eq => ?_, fun p np forking => ?_, held.parent⟩
  · by_cases same : d = c
    · subst same
      simp [Scheduler.swtch, Cpu.Agrees, Proc.run]
    · have old := held.agrees d
      rw [mine] at old
      have kept : (s.cpu d).Agrees S.proc (s.ptable.modify (S.proc f) (·.run s.ticks)) none d := by
        refine (old.unlock same none).retable fun g at_d => ?_
        have ne : S.proc g ≠ S.proc f := by
          cases at_cpu : s.cpu d with
          | running g' i =>
            rw [at_cpu] at at_d
            cases at_d
            exact away d g i at_cpu
          | idle =>
            rw [at_cpu] at at_d
            cases at_d
          | picked g' =>
            rw [at_cpu] at old
            exact absurd (Option.some.inj old.1).symm same
          | back g' =>
            rw [at_cpu] at old
            exact absurd (Option.some.inj old.1).symm same
        rw [Table.modify_of_ne _ _ ne]
        exact .refl _
      simpa [Scheduler.swtch, same] using kept
  · have before : ∀ {n h k}, (S.swtch s c f).cpu n = .running h k → n = c ∧ h = f ∨ n ≠ c ∧ s.cpu n = .running h k := by
      intro n h k at_n
      by_cases same : n = c
      · subst same
        simp only [Scheduler.swtch, Function.update_self, Cpu.running.injEq] at at_n
        exact .inl ⟨rfl, at_n.1.symm⟩
      · exact .inr ⟨same, by simpa [Scheduler.swtch, same] using at_n⟩
    rcases before at_d with ⟨rfl, rfl⟩ | ⟨-, old⟩
    · rcases before at_e with ⟨rfl, rfl⟩ | ⟨-, old'⟩
      · rfl
      · exact absurd eq.symm (away e h j old')
    · rcases before at_e with ⟨rfl, rfl⟩ | ⟨-, old'⟩
      · exact absurd eq (away d g i old)
      · exact held.alone d e g h i j old old' eq
  · have old := held.embryo p np forking
    have ne : np ≠ S.proc f := by
      intro eq
      rw [eq, runnable] at old
      cases old
    simpa [Scheduler.swtch, ne] using old

theorem boot : Coherent S.boot where
  agrees _ := trivial
  alone _ _ _ _ _ _ at_c := by cases at_c
  embryo _ _ forking := by cases forking
  parent _ _ _ forking := by cases forking

theorem step (held : Coherent s) (taken : Step S s a s') : Coherent s' := by
  cases taken with
  | start c idle awake free =>
    exact held.settle (.inl free) (by simp [idle]) (S.start_books _ _) (S.start_picks _ _)
  | dispatch c f at_c =>
    exact held.swtch at_c
  | resume c f at_c =>
    exact held.settle (.inr (held.back at_c).1) (by simp [at_c]) (S.resume_books _ _ _) (S.resume_picks _ _ _)
  | tick => exact held.retime
  | charge counted free =>
    exact (held.retable (fun k => .inl (s.ptable k).updateRunsandOthers_state)).retime
  | wakeTicks cpu charged free others at_0 =>
    have kept := held.retable (t := s.ptable.wakeup1 .ticks) (fun k => (s.ptable k).wakeup_woken _)
    have same : ∀ c, cpu c = s.cpu c ∨ ∃ f i j, s.cpu c = .running f i ∧ cpu c = .running f j := by
      intro c
      by_cases zero : c = 0
      · subst zero
        rcases at_0 with ⟨same, -⟩ | ⟨f, i, before, after⟩
        · exact .inl same
        · exact .inr ⟨f, i, _, before, after⟩
      · exact .inl (others c zero)
    exact (kept.recpu same).retime
  | interrupt c f at_c ne yields =>
    refine held.recpu fun d => ?_
    by_cases same : d = c
    · subst same
      exact .inr ⟨f, false, true, at_c, Function.update_self ..⟩
    · exact .inl (Function.update_of_ne same ..)
  | wakeup c address awake free => exact held.retable (fun k => (s.ptable k).wakeup_woken _)
  | yield c f interrupted at_c awake free due =>
    have kept := held.switch at_c free (t := s.ptable.modify (S.proc f) .yield)
      (by simp [Proc.yield, ProcState.Switched])
      (fun k ne => by
        rw [Table.modify_of_ne _ _ ne]
        exact .refl _)
    refine kept.retask fun p np forking => ?_
    split at forking
    · exact forking
    · exact update_task (by simp) p np forking
  | call a f interrupted s' at_c awake killed called => exact held.call at_c called

theorem reached {past : List (State S.Frame × Action)} (path : Transition.Path S.Takes S.boot past s) :
    Coherent s := path.always boot (fun held taken => held.step (step_cases taken))

end Coherent

end Xv6.Sched
