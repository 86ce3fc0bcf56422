import Xv6.Locks.Switches

namespace Xv6.Locks

open Function Transition

variable {s s' : State} {c d p : Nat} {x : Context} {cpu : Cpu} {op : Op} {rest : List Op} {v : View} {l m : Lock}
  {locked : Lock → Bool} {holder : Lock → Option Nat} {a : Action}

theorem Sound.exec_step (sound : Sound s) (takes : s.exec c = some s') : Sound s' := by
  rw [State.exec] at takes
  cases todo : (s.running c).frame.todo with
  | nil =>
    rw [todo] at takes
    cases takes
  | cons op rest =>
    rw [todo] at takes
    dsimp only at takes
    by_cases panics : op.panics (s.cpu c) (s.running c).frame.r = true
    · rw [if_pos panics] at takes
      cases takes
    · rw [if_neg panics] at takes
      by_cases goes : op = .swtch
      · subst goes
        rw [if_pos rfl] at takes
        cases thread : (s.cpu c).thread with
        | scheduler d =>
          rw [thread] at takes
          cases takes
        | proc p =>
          rw [thread] at takes
          cases takes
          exact sound.park thread todo
      · rw [if_neg goes] at takes
        rcases Option.map_eq_some_iff.mp takes with ⟨v, runs, rfl⟩
        exact sound.exec todo goes (Bool.eq_false_iff.mpr panics) runs

theorem Sound.step (sound : Sound s) (takes : s.Takes a s') : Sound s' := by
  cases a with
  | exec c => exact sound.exec_step takes
  | call c f =>
    rcases Option.ite_none_right_eq_some.mp takes with ⟨⟨ready, -⟩, same⟩
    cases same
    exact sound.call ready f
  | dispatch c p =>
    rcases Option.ite_none_right_eq_some.mp takes with ⟨⟨ready, thread, unsaved, held, waits⟩, same⟩
    cases same
    exact sound.dispatch ready thread unsaved held waits
  | alloc p =>
    rcases Option.ite_none_right_eq_some.mp takes with ⟨waits, same⟩
    cases same
    exact sound.alloc waits
  | interrupt c =>
    rcases Option.ite_none_right_eq_some.mp takes with ⟨interrupts, same⟩
    cases same
    exact sound.interrupt interrupts
  | iret c =>
    rw [State.Takes, State.step] at takes
    dsimp only at takes
    cases frames : (s.running c).saved with
    | nil =>
      rw [frames] at takes
      cases takes
    | cons f saved =>
      rw [frames] at takes
      rcases Option.ite_none_right_eq_some.mp takes with ⟨⟨ready, held⟩, same⟩
      cases same
      exact sound.iret ready held frames
  | sti c =>
    rcases Option.ite_none_right_eq_some.mp takes with ⟨⟨ready, thread, -, held⟩, same⟩
    cases same
    have sti := sound.sti ready thread held
    simp only [State.after, State.running, update_eq_self] at sti
    exact sti

theorem sound_run {past : List (State × Action)} (path : Path State.Takes State.start past s) : Sound s :=
  path.always sound_start fun held taken => held.step taken

theorem Cpu.Sound.panics_improper (own : cpu.Sound x) (first : x.frame.todo.head? = some op)
    (panics : op.panics cpu x.frame.r = true) : x.frame.proper = false := by
  have facts := own.facts
  have level := own.level
  have count := own.count
  cases todo : x.frame.todo with
  | nil =>
    rw [todo] at first
    cases first
  | cons next rest =>
    rw [todo] at first facts level count
    cases first
    have later : 0 ≤ pending rest := by
      cases rest with
      | nil => exact Int.le_refl _
      | cons op rest => exact level.2.2.2.1
    have quiet : cpu.interrupts = true → cpu.held = [] ∧ pending (op :: rest) = 0 := by
      intro interrupts
      rcases own.interruptible interrupts with ⟨held, zero, -⟩
      rw [todo] at zero
      exact ⟨held, zero⟩
    rw [pending_cons] at count quiet
    cases op with
    | pop =>
      dsimp only [Op.weight] at count quiet
      rw [Op.panics, Bool.or_eq_true, decide_eq_true_iff] at panics
      rcases panics with interrupts | low
      · have zero := (quiet interrupts).2
        omega
      · omega
    | readProc =>
      dsimp only [Op.weight] at quiet
      have zero := (quiet panics).2
      have more := facts.1
      omega
    | readCpu l =>
      dsimp only [Op.weight] at quiet
      have zero := (quiet panics).2
      have more := facts.1
      omega
    | failIf b =>
      by_contra proper
      exact facts.1 (eq_true_of_ne_false proper) (beq_iff_eq.mp panics)
    | setCpu l =>
      have mine := facts.1
      rw [(quiet panics).1] at mine
      cases mine
    | checkNcli =>
      by_contra proper
      have one := facts.2.2.1 (eq_true_of_ne_false proper)
      have none := facts.2.1
      dsimp only [Op.weight] at count
      rw [Op.panics, Bool.or_eq_true, decide_eq_true_iff] at panics
      rcases panics with interrupts | other
      · exact facts.1 (quiet interrupts).1
      · omega
    | checkIf => exact absurd (quiet panics).1 facts.1
    | swtch =>
      have none := (quiet panics).1
      rw [facts.1] at none
      cases none
    | restore =>
      have none := (quiet panics).1
      rw [facts.1] at none
      cases none
    | readeflags => cases panics
    | push => cases panics
    | readLocked l => cases panics
    | xchg l => cases panics
    | clearCpu l => cases panics
    | unlock l => cases panics

theorem run_ends (runs : op.run c ⟨cpu, x, locked, holder⟩ = some v) (before : 0 < cpu.ncli) (zero : v.cpu.ncli = 0) :
    op = .pop ∧ v.cpu = { cpu with
      ncli := cpu.ncli - 1
      interrupts := if cpu.ncli - 1 = 0 ∧ cpu.intena = true then true else cpu.interrupts } := by
  cases op with
  | pop =>
    cases runs
    exact ⟨rfl, rfl⟩
  | push =>
    cases runs
    dsimp only at zero
    omega
  | xchg l =>
    rw [Op.run] at runs
    split at runs
    · cases runs
    · cases runs
      dsimp only at zero
      omega
  | _ =>
    cases runs
    simp only [View.setFrame] at zero
    omega

section Runs

variable {past : List (State × Action)}

/-- In every run of any CPUs and threads: a spinlock has one holder, which has interrupts off; between two calls `ncli` and
    `lk->cpu` are exact; no check fails but for a call that is not in order; and no CPU ever waits for its own lock. -/
theorem spinlocks_safe (path : Path State.Takes State.start past s) :
    (∀ l c d, l ∈ (s.cpu c).held → l ∈ (s.cpu d).held → c = d) ∧
    (∀ l, s.locked l = true ↔ ∃ c, l ∈ (s.cpu c).held) ∧
    (∀ c, (s.cpu c).held ≠ [] → (s.cpu c).interrupts = false) ∧
    (∀ c, s.Ready c → (s.cpu c).ncli = (s.cpu c).held.length ∧ (s.cpu c).held.Nodup ∧
      ∀ l, s.holder l = some c ↔ l ∈ (s.cpu c).held) ∧
    (∀ c, s.Panics c → (s.running c).frame.proper = false) ∧
    (∀ c l, (s.running c).frame.todo.head? = some (.xchg l) → l ∉ (s.cpu c).held) := by
  have sound := sound_run path
  refine ⟨sound.locking.exclusive, sound.locking.locked, fun c => (sound.cpus c).off_of_held, ?_, ?_, ?_⟩
  · intro c ready
    have count := (sound.cpus c).count
    rw [show (s.running c).frame.todo = [] from ready] at count
    refine ⟨by rw [count]; exact Int.add_zero _, (sound.cpus c).nodup, fun l => ⟨sound.locking.holder l c, fun member => ?_⟩⟩
    rcases sound.locking.holds l c member with known | busy
    · exact known
    · exact absurd busy (not_busy_of_nil ready l)
  · rintro c ⟨op, first, panics⟩
    exact (sound.cpus c).panics_improper first panics
  · intro c l first
    have facts := (sound.cpus c).facts
    cases todo : (s.running c).frame.todo with
    | nil =>
      rw [todo] at first
      cases first
    | cons op rest =>
      rw [todo] at first facts
      cases first
      exact facts.1

/-- CPU 0 and CPU 1 come to the `xchg` of `ptable.lock` together; CPU 0 is first, and CPU 1 spins. -/
def contendedRun : List Action :=
  [.sti 0, .sti 1, .call 0 (.acquire .ptable), .call 1 (.acquire .ptable)] ++
    (List.replicate 8 [Action.exec 0, Action.exec 1]).flatten ++ [.exec 0, .exec 0]

theorem spinlocks_safe_contended : ∃ past s, Path State.Takes State.start past s ∧ Lock.ptable ∈ (s.cpu 0).held ∧
    (s.cpu 0).interrupts = false ∧ (s.cpu 0).ncli = 1 ∧ s.holder .ptable = some 0 ∧
    (s.running 1).frame.todo.head? = some (.xchg .ptable) ∧ Lock.ptable ∉ (s.cpu 1).held := by
  obtain ⟨past, s, path, reached⟩ := replay_reaches State.step State.start contendedRun
    (fun _ s => decide (s.Ready 0 ∧ (s.cpu 0).held = [.ptable] ∧ (s.running 1).frame.todo.head? = some (.xchg .ptable)))
    (by decide +kernel)
  rw [decide_eq_true_iff] at reached
  obtain ⟨idle, held, spins⟩ := reached
  rcases spinlocks_safe path with ⟨-, -, off, ready, -, others⟩
  rcases ready 0 idle with ⟨count, -, holds⟩
  have mine : Lock.ptable ∈ (s.cpu 0).held := by
    rw [held]
    exact List.mem_singleton_self _
  refine ⟨past, s, path, mine, off 0 (List.ne_nil_of_mem mine), ?_, (holds .ptable).mpr mine, spins, others 1 .ptable spins⟩
  rw [count, held]
  rfl

/-- A process gets interrupts back as they were before its outermost `pushcli`, though it may have come to another CPU since;
    and `c->proc` is the process that the CPU runs, which no other CPU does. -/
theorem interrupts_restored (path : Path State.Takes State.start past s) :
    (∀ c p b s', s.Takes (.exec c) s' → (s.cpu c).thread = .proc p → (s.running c).nest = some b →
      (s'.cpu c).ncli = 0 → (s'.cpu c).interrupts = b) ∧
    (∀ c p, (s.cpu c).proc = some p ↔ (s.cpu c).thread = .proc p) ∧
    ∀ c d p, (s.cpu c).proc = some p → (s.cpu d).proc = some p → c = d := by
  have sound := sound_run path
  have proc : ∀ c p, (s.cpu c).proc = some p ↔ (s.cpu c).thread = .proc p := by
    intro c p
    rw [sound.seated.proc c]
    cases (s.cpu c).thread with
    | scheduler d =>
      constructor
      · intro same
        cases same
      · intro same
        cases same
    | proc q => exact ⟨fun same => congrArg Thread.proc (Option.some.inj same), fun same => congrArg some (Thread.proc.inj same)⟩
  refine ⟨?_, proc, fun c d p first second => sound.seated.alone c d p ((proc c p).mp first) ((proc d p).mp second)⟩
  intro c p b s' takes thread nest zero
  have own := sound.cpus c
  have nested := own.nested b nest
  have off : (s.cpu c).interrupts = false := by
    cases interrupts : (s.cpu c).interrupts
    · rfl
    · have none := own.off interrupts
      omega
  rw [State.Takes, State.step, State.exec] at takes
  cases todo : (s.running c).frame.todo with
  | nil =>
    rw [todo] at takes
    cases takes
  | cons op rest =>
    rw [todo] at takes
    dsimp only at takes
    split at takes
    · cases takes
    · split at takes
      · rw [thread] at takes
        cases takes
        simp only [State.park, update_self] at zero
        omega
      · rcases Option.map_eq_some_iff.mp takes with ⟨v, runs, rfl⟩
        dsimp only at zero ⊢
        rw [update_self] at zero ⊢
        rcases run_ends runs nested zero with ⟨rfl, same⟩
        have kept := own.kept p b thread nest (by rw [todo]; intro same; cases same)
        rw [same]
        dsimp only
        rw [kept, off]
        have last : (s.cpu c).ncli - 1 = 0 := by
          rw [same] at zero
          exact zero
        cases b
        · rw [if_neg (fun both => Bool.false_ne_true both.2)]
        · rw [if_pos ⟨last, rfl⟩]

/-- Process 5 takes `ptable.lock` with interrupts on, gives up CPU 0 and is to release the lock on CPU 1. -/
def movesRun : List Action :=
  [.sti 0, .call 0 (.acquire .ptable)] ++ List.replicate 10 (.exec 0) ++ [.dispatch 0 5, .call 0 (.release .ptable)] ++
    List.replicate 9 (.exec 0) ++ [.call 0 (.acquire .ptable)] ++ List.replicate 10 (.exec 0) ++ [.call 0 .sched] ++
    List.replicate 13 (.exec 0) ++ [.call 0 (.release .ptable)] ++ List.replicate 9 (.exec 0) ++
    [.sti 1, .call 1 (.acquire .ptable)] ++ List.replicate 10 (.exec 1) ++
    [.dispatch 1 5, .exec 1, .call 1 (.release .ptable)] ++ List.replicate 8 (.exec 1)

theorem interrupts_restored_elsewhere : ∃ past s s', Path State.Takes State.start past s ∧ s.Takes (.exec 1) s' ∧
    (s.cpu 1).interrupts = false ∧ (s'.cpu 1).interrupts = true := by
  obtain ⟨past, s, path, reached⟩ := replay_reaches State.step State.start movesRun
    (fun _ s => decide ((s.cpu 1).interrupts = false ∧ (s.cpu 1).thread = .proc 5 ∧ (s.running 1).nest = some true ∧
      ∃ s' ∈ s.step (.exec 1), (s'.cpu 1).ncli = 0)) (by decide +kernel)
  rw [decide_eq_true_iff] at reached
  rcases reached with ⟨off, thread, nest, s', takes, zero⟩
  exact ⟨past, s, s', path, takes, off, (interrupts_restored path).1 1 5 true s' takes thread nest zero⟩

end Runs

end Xv6.Locks
