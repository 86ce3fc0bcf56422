import Xv6.Sched.Fates

namespace Xv6.Sched

open Scheduler Transition Selection

variable {S : Scheduler} {s s' x : State S.Frame} {a : Action} {past : List (State S.Frame × Action)} {k : Slot}

/-- No one waits in `wait` or `waitx` for a child that is dead already. -/
structure Heard (s : State S.Frame) : Prop where
  coherent : Coherent s
  init : (s.ptable initproc).parent = none ∧ ((s.ptable initproc).state = .runnable ∨
    (s.ptable initproc).state = .running ∨ (s.ptable initproc).state = .sleeping)
  parent : ∀ k, (s.ptable k).parent ≠ some k
  awake : ∀ p k, (s.ptable p).state = .sleeping → (s.ptable p).chan = some (.proc p) →
    (s.ptable k).parent = some p → (s.ptable k).state ≠ .zombie

theorem kill_awake (p : Proc) : p.kill.state ≠ .sleeping := by
  by_cases asleep : p.state = .sleeping
  · simp [Proc.kill, asleep]
  · simp [Proc.kill, asleep]

theorem kill_zombie {p : Proc} (zombie : p.kill.state = .zombie) : p.state = .zombie := by
  by_cases asleep : p.state = .sleeping
  · simp [Proc.kill, asleep] at zombie
  · simpa [Proc.kill, asleep] using zombie

namespace Fate

variable {p : Proc}

theorem was_zombie (fate : Fate S s k a p) (zombie : p.state = .zombie) (stays : ∀ c, a ≠ .exit c) :
    (s.ptable k).state = .zombie ∧ p.parent = (s.ptable k).parent := by
  cases fate with
  | quiet a p same => exact ⟨same.zombie zombie, same.parent⟩
  | left c => exact absurd rfl (stays c)
  | exit c => exact absurd rfl (stays c)
  | kill => exact ⟨kill_zombie zombie, rfl⟩
  | fault c before =>
    rw [show (s.ptable k).fault.state = (s.ptable k).state from rfl, before] at zombie
    cases zombie
  | reaped a q returned before clear clears => rcases clears with rfl | rfl <;> cases zombie
  | run => cases zombie
  | sleep => cases zombie
  | found => cases zombie
  | abandoned => cases zombie
  | ready => cases zombie

/-- A process in `wait` was there before, or it has looked for a dead child and found none. -/
theorem was_asleep (fate : Fate S s k a p) (asleep : p.state = .sleeping) (waits : p.chan = some (.proc k)) :
    (s.ptable k).state = .sleeping ∧ (s.ptable k).chan = some (.proc k) ∨ s.ptable.zombieOf k = none := by
  cases fate with
  | quiet a p same => exact .inl ⟨same.asleep asleep, same.chan.symm.trans waits⟩
  | sleep a chan before away => exact .inr (away k (Option.some.inj waits)).2
  | left c e other =>
    have same := s.ptable.left_same e initproc k
    exact .inl ⟨same.asleep asleep, same.chan.symm.trans waits⟩
  | kill => exact absurd asleep (kill_awake _)
  | fault c before =>
    rw [show (s.ptable k).fault.state = (s.ptable k).state from rfl, before] at asleep
    cases asleep
  | reaped a q returned before clear clears => rcases clears with rfl | rfl <;> cases asleep
  | run => cases asleep
  | exit => cases asleep
  | found => cases asleep
  | abandoned => cases asleep
  | ready => cases asleep

end Fate

namespace Heard

theorem init_step (held : Heard s) (fate : Fate S s initproc a (s'.ptable initproc)) :
    (s'.ptable initproc).parent = none ∧ ((s'.ptable initproc).state = .runnable ∨
      (s'.ptable initproc).state = .running ∨ (s'.ptable initproc).state = .sleeping) := by
  obtain ⟨alone, alive⟩ := held.init
  generalize s'.ptable initproc = p at *
  have of_same : ∀ {p : Proc}, (s.ptable initproc).Same p → p.parent = none ∧
      (p.state = .runnable ∨ p.state = .running ∨ p.state = .sleeping) := by
    intro p same
    refine ⟨same.parent.trans alone, ?_⟩
    rcases same.state with old | ⟨awake, -⟩
    · rwa [old]
    · exact .inl awake
  have dead : ∀ {state : ProcState}, (s.ptable initproc).state = state →
      state = .runnable ∨ state = .running ∨ state = .sleeping := fun eq => eq ▸ alive
  cases fate with
  | quiet a p same => exact of_same same
  | run => exact ⟨alone, .inr (.inl rfl)⟩
  | sleep => exact ⟨alone, .inr (.inr rfl)⟩
  | left c e other =>
    have same := s.ptable.left_same e initproc initproc
    rw [alone, if_neg (by simp)] at same
    exact of_same ⟨same.state, same.pid, same.parent.trans alone.symm, same.chan, same.killed⟩
  | exit c exits before mortal => exact absurd rfl mortal
  | found c here before => simpa using dead before
  | abandoned c forking before => simpa using dead before
  | ready c parent before => simpa using dead before
  | reaped a q returned before => simpa using dead before
  | kill =>
    refine ⟨alone, ?_⟩
    by_cases asleep : (s.ptable initproc).state = .sleeping
    · exact .inl (by simp [Proc.kill, asleep])
    · simpa [Proc.kill, asleep] using alive
  | fault => exact ⟨alone, alive⟩

theorem parent_step (held : Heard s) {p : Proc} (fate : Fate S s k a p) : p.parent ≠ some k := by
  have old := held.parent k
  have handed : ∀ e, (if (s.ptable k).parent = some e then some initproc else (s.ptable k).parent) ≠ some k := by
    intro e own
    by_cases child : (s.ptable k).parent = some e
    · rw [if_pos child, Option.some.injEq] at own
      rw [← own, held.init.1] at child
      cases child
    · rw [if_neg child] at own
      exact old own
  cases fate with
  | quiet a p same => rwa [same.parent]
  | left c e => exact fun own => handed e ((s.ptable.left_same e initproc k).parent.symm.trans own)
  | exit c => exact fun own => handed k ((s.ptable.left_same k initproc k).parent.symm.trans own)
  | ready c parent before running =>
    intro own
    rw [Option.some.inj own, before] at running
    cases running
  | reaped a q returned before clear clears => rcases clears with rfl | rfl <;> simp [Proc.reaped, Proc.reapedx]
  | run => exact old
  | sleep => exact old
  | found => exact old
  | abandoned => exact old
  | kill => exact old
  | fault => exact old

end Heard

theorem exit_cases {c : Nat} (taken : Step S s (.exit c) s') :
    ∃ e, e ≠ initproc ∧ S.exited s (.exit c) = some e ∧ s'.ptable = s.ptable.exit e initproc s.ticks := by
  cases taken with
  | call a f i s' at_c awake killed called =>
    cases called with
    | exit c free resting mortal => exact ⟨S.proc f, mortal, by simp [exited, caller, show s.cpu c = _ from at_c], rfl⟩

namespace Heard

theorem awake_exit (held : Heard s) {c : Nat} (taken : Step S s (.exit c) s') {p : Slot}
    (asleep : (s'.ptable p).state = .sleeping) (waits : (s'.ptable p).chan = some (.proc p))
    (child : (s'.ptable k).parent = some p) : (s'.ptable k).state ≠ .zombie := by
  intro zombie
  obtain ⟨e, mortal, -, table⟩ := exit_cases taken
  rw [table] at asleep waits child zombie
  have other : p ≠ e := by
    intro same
    rw [same, s.ptable.exit_eq] at asleep
    cases asleep
  rw [s.ptable.exit_other _ _ _ _ other] at asleep waits
  have sleeper := s.ptable.left_same e initproc p
  by_cases same : k = e
  · subst same
    rw [s.ptable.exit_eq, show ((s.ptable.left k initproc k).exit s.ticks).parent = (s.ptable.left k initproc k).parent from rfl,
      (s.ptable.left_same k initproc k).parent] at child
    dsimp only at child
    rw [if_neg (held.parent k)] at child
    exact s.ptable.left_parent k initproc child asleep waits
  · rw [s.ptable.exit_other _ _ _ _ same] at child zombie
    have left := s.ptable.left_same e initproc k
    rw [left.parent] at child
    have dead : (s.ptable k).state = .zombie := left.zombie zombie
    dsimp only at child
    by_cases orphan : (s.ptable k).parent = some e
    · rw [if_pos orphan, Option.some.injEq] at child
      subst child
      exact s.ptable.left_init e initproc k orphan dead asleep waits
    · rw [if_neg orphan] at child
      exact held.awake p k (sleeper.asleep asleep) (sleeper.chan.symm.trans waits) child dead

theorem step (held : Heard s) (taken : Step S s a s') : Heard s' := by
  have fate : ∀ k, Fate S s k a (s'.ptable k) := fun k => .of_step held.coherent taken
  refine ⟨held.coherent.step taken, held.init_step (fate initproc), fun k => held.parent_step (fate k), ?_⟩
  intro p k asleep waits child
  by_cases stays : ∀ c, a ≠ .exit c
  · intro zombie
    obtain ⟨dead, same⟩ := (fate k).was_zombie zombie stays
    rw [same] at child
    rcases (fate p).was_asleep asleep waits with ⟨before, waited⟩ | none
    · exact held.awake p k before waited child dead
    · exact firstFrom_eq_none.mp none k (Nat.zero_le _) ⟨child, dead⟩
  · obtain ⟨c, rfl⟩ : ∃ c, a = .exit c := by simpa using stays
    exact held.awake_exit taken asleep waits child

theorem boot : Heard S.boot where
  coherent := .boot
  init := by simp [Scheduler.boot, Proc.found]
  parent k := by
    by_cases eq : k = initproc
    · subst eq
      simp [Scheduler.boot, Proc.found]
    · simp [Scheduler.boot, eq]
  awake p k asleep := by
    by_cases eq : p = initproc
    · subst eq
      simp [Scheduler.boot] at asleep
    · simp [Scheduler.boot, eq] at asleep

theorem reached (path : Path S.Takes S.boot past s) : Heard s :=
  path.always boot fun held taken => held.step (step_cases taken)

end Heard

theorem reap_unused {p : Slot} {c : Nat} {f : S.Frame} {i : Bool} {clear : Proc → Proc}
    (clears : ∀ q, (clear q).state = .unused) (at_c : s.cpu c = .running f i)
    (returned : ((S.caller s c).bind fun p => (s.ptable.zombieOf p).map fun k => (p, k)) = some (p, k)) :
    ((S.reap s c f clear).ptable k).state = .unused := by
  have returned : ((s.ptable.zombieOf (S.proc f)).map fun k => (S.proc f, k)) = some (p, k) := by
    simpa only [caller, at_c, Option.bind_some] using returned
  obtain ⟨j, found, eq⟩ := Option.map_eq_some_iff.mp returned
  obtain rfl : j = k := congrArg Prod.snd eq
  have reaped : S.reap s c f clear = { s with ptable := s.ptable.modify j clear } := by
    unfold reap
    rw [found]
  rw [reaped]
  show (s.ptable.modify j clear j).state = .unused
  rw [Table.modify_self]
  exact clears _

theorem reaped_unused {p : Slot} (taken : S.Takes s a s') (returned : S.reaped s a = some (p, k)) :
    (s'.ptable k).state = .unused := by
  cases step_cases taken with
  | call a f i s' at_c awake killed called =>
    cases called with
    | wait c => exact reap_unused (fun q => rfl) at_c returned
    | waitx c => exact reap_unused (fun q => rfl) at_c returned
    | _ => cases returned
  | _ => cases returned

theorem exited_running {e : Slot} (held : Coherent s) (exits : S.exited s a = some e) : (s.ptable e).state = .running := by
  cases a with
  | exit c =>
    cases at_c : s.cpu c with
    | running f i =>
      simp only [exited, caller, at_c, Option.some.injEq] at exits
      exact exits ▸ held.running at_c
    | _ => simp [exited, caller, at_c] at exits
  | _ => cases exits

/-- A process that is dead at the end of a part of a run was dead at its beginning or has exited in it. -/
theorem exits_before (held : Coherent x) (path : Path S.Takes x past s) (zombie : (s.ptable k).state = .zombie) :
    (x.ptable k).state = .zombie ∨ ∃ later y a before, past = later ++ (y, a) :: before ∧ S.exited y a = some k := by
  induction path with
  | nil => exact .inl zombie
  | @snoc past y s a before taken ih =>
    have held' : Coherent y := before.always held fun held taken => held.step (step_cases taken)
    have earlier : (y.ptable k).state = .zombie → (x.ptable k).state = .zombie ∨
        ∃ later z b before, (y, a) :: past = later ++ (z, b) :: before ∧ S.exited z b = some k := by
      intro old
      rcases ih old with same | ⟨later, z, b, rest, eq, exits⟩
      · exact .inl same
      · exact .inr ⟨(y, a) :: later, z, b, rest, by rw [eq, List.cons_append], exits⟩
    by_cases stays : ∀ c, a ≠ .exit c
    · have fate : Fate S y k a (s.ptable k) := .of_step held' (step_cases taken)
      exact earlier (fate.was_zombie zombie stays).1
    · obtain ⟨c, rfl⟩ : ∃ c, a = .exit c := by simpa using stays
      obtain ⟨e, -, exits, table⟩ := exit_cases (step_cases taken)
      by_cases same : k = e
      · subst same
        exact .inr ⟨[], y, .exit c, past, rfl, exits⟩
      · rw [table, y.ptable.exit_other _ _ _ _ same] at zombie
        exact earlier ((y.ptable.left_same e initproc k).zombie zombie)

/-- A slot that is in use at the end of a part of a run was in use at its beginning or was allocated in it. -/
theorem created_before (held : Coherent x) (path : Path S.Takes x past s) (used : (s.ptable k).state ≠ .unused) :
    (x.ptable k).state ≠ .unused ∨ ∃ later y a before, past = later ++ (y, a) :: before ∧ y.creates a = some k := by
  induction path with
  | nil => exact .inl used
  | @snoc past y s a before taken ih =>
    have held' : Coherent y := before.always held fun held taken => held.step (step_cases taken)
    by_cases old : (y.ptable k).state = .unused
    · have fate : Fate S y k a (s.ptable k) := .of_step held' (step_cases taken)
      generalize s.ptable k = p at fate used
      have fresh : y.creates a = some k := by
        have wrong : ∀ {state : ProcState}, (y.ptable k).state = state → state = .unused := fun eq => eq.symm.trans old
        cases fate with
        | quiet a p same =>
          rcases same.state with eq | ⟨-, before | before⟩
          · exact absurd (eq.trans old) used
          · cases wrong before
          · cases wrong before
        | found c here => exact here
        | left c e =>
          rcases (y.ptable.left_same e initproc k).state with eq | ⟨-, before | before⟩
          · exact absurd (eq.trans old) used
          · cases wrong before
          · cases wrong before
        | kill => exact absurd (by simp [Proc.kill, old]) used
        | fault c before => cases wrong before
        | run c before => cases wrong before
        | sleep a chan before => cases wrong before
        | exit c exits before => cases wrong before
        | abandoned c forking before => cases wrong before
        | ready c parent before => cases wrong before
        | reaped a q returned before => cases wrong before
      exact .inr ⟨[], y, a, past, rfl, fresh⟩
    · rcases ih old with same | ⟨later, z, b, rest, eq, creates⟩
      · exact .inl same
      · exact .inr ⟨(y, a) :: later, z, b, rest, by rw [eq, List.cons_append], creates⟩

/-- In every build and on any number of CPUs `wait` and `waitx` return dead children of the caller only, a slot is
    returned a second time only after a new process in it has been created and has exited, and no process sleeps in
    `wait` or `waitx` over a dead child. -/
theorem reaped_once (policy : Policy) {past : List (State policy.scheduler.Frame × Action)}
    {s : State policy.scheduler.Frame} (path : Path policy.scheduler.Takes policy.scheduler.boot past s) :
    (∀ b q k, policy.scheduler.reaped s b = some (q, k) →
      (s.ptable k).state = .zombie ∧ (s.ptable k).parent = some q) ∧
      (∀ b q k, policy.scheduler.reaped s b = some (q, k) →
        ∀ between x a before p, past = between ++ (x, a) :: before → policy.scheduler.reaped x a = some (p, k) →
          ∃ third z e second w g first, between = third ++ (z, e) :: (second ++ (w, g) :: first) ∧
            w.creates g = some k ∧ policy.scheduler.exited z e = some k) ∧
      (s.lock = none → ∀ p k, (s.ptable p).state = .sleeping → (s.ptable p).chan = some (.proc p) →
        (s.ptable k).parent = some p → (s.ptable k).state ≠ .zombie) := by
  have found : ∀ b q k, policy.scheduler.reaped s b = some (q, k) →
      (s.ptable k).parent = some q ∧ (s.ptable k).state = .zombie := by
    intro b q k returned
    have zombie : ∀ c, ((policy.scheduler.caller s c).bind fun p => (s.ptable.zombieOf p).map fun k => (p, k)) =
        some (q, k) → s.ptable.zombieOf q = some k := by
      intro c returned
      obtain ⟨p, -, mapped⟩ := Option.bind_eq_some_iff.mp returned
      obtain ⟨j, here, eq⟩ := Option.map_eq_some_iff.mp mapped
      obtain ⟨rfl, rfl⟩ := Prod.mk.inj eq
      exact here
    cases b with
    | wait c => exact zombieOf_state (zombie c returned)
    | waitx c => exact zombieOf_state (zombie c returned)
    | _ => cases returned
  refine ⟨fun b q k returned => (found b q k returned).symm, fun b q k returned between x a before p eq first => ?_,
    fun _ => (Heard.reached path).awake⟩
  subst eq
  obtain ⟨early, y, taken, rest⟩ := path.cut
  have held : Coherent y := (Coherent.reached early).step (step_cases taken)
  have unused := reaped_unused taken first
  rcases exits_before held rest (found b q k returned).2 with dead | ⟨third, z, e, middle, eq, exits⟩
  · rw [unused] at dead
    cases dead
  · subst eq
    obtain ⟨mid, -⟩ := rest.cut
    have running := exited_running (mid.always held fun held taken => held.step (step_cases taken)) exits
    rcases created_before held mid (k := k) (by rw [running]; decide) with used | ⟨second, w, g, first, eq, creates⟩
    · exact absurd unused used
    · subst eq
      exact ⟨third, z, e, second, w, g, first, rfl, creates, exits⟩

/-- Init waits for a child, which exits. -/
theorem reaped_once_of_child : ∃ past s, Path Policy.rr.scheduler.Takes Policy.rr.scheduler.boot past s ∧
    rr.reaped s (.wait 0) = some (initproc, firstChild) ∧ (s.ptable firstChild).parent = some initproc := by
  obtain ⟨past, s, path, reached⟩ := replay_reaches rr.step rr.boot [.start 0, .dispatch 0, .fork 0, .forkDone 0,
      .wait 0, .resume 0, .dispatch 0, .exit 0, .resume 0, .start 0, .dispatch 0]
    (fun _ s => rr.reaped s (.wait 0) = some (initproc, firstChild)) (by decide +kernel)
  simp only [decide_eq_true_eq] at reached
  exact ⟨past, s, path, reached, ((reaped_once .rr path).1 _ _ _ reached).2⟩

end Xv6.Sched
