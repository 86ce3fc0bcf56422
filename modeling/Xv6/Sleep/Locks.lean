import Xv6.Sleep.Machine

namespace Xv6.Sleep

open Sched Function Transition

variable {m : Meeting} {s s' : State} {c d : Nat} {t : Thread} {p q : Slot} {a : Action}

namespace Meeting

inductive Moved (m : Meeting) (s : State) (c : Nat) (t : Thread) : Move → State → Prop
  | acquire (at_t : s.pc t = .out) (free : s.lock m.lk = none) :
    Moved m s c t .acquire { s with lock := update s.lock m.lk (some c), pc := update s.pc t .inside }
  | release (at_t : s.pc t = .inside) :
    Moved m s c t .release { s with lock := update s.lock m.lk none, pc := update s.pc t .out }
  | makeFalse (at_t : s.pc t = .inside) : Moved m s c t .makeFalse { s with condition := false }
  | makeTrue (at_t : s.pc t = .inside) :
    Moved m s c t .makeTrue { s with pc := update s.pc t .made, condition := true }
  | wakeupOwn (at_t : s.pc t = .made) (same : m.lk = .ptable) :
    Moved m s c t .wakeupAcquire { s with pc := update s.pc t .waking }
  | wakeupAcquire (at_t : s.pc t = .made) (free : s.lock .ptable = none) :
    Moved m s c t .wakeupAcquire { s with lock := update s.lock .ptable (some c), pc := update s.pc t .waking }
  | wakeup1 (at_t : s.pc t = .waking) :
    Moved m s c t .wakeup1 { s with ptable := s.ptable.wakeup1 m.chan, pc := update s.pc t .woke }
  | wokeOwn (at_t : s.pc t = .woke) (same : m.lk = .ptable) :
    Moved m s c t .wakeupRelease { s with pc := update s.pc t .inside }
  | wakeupRelease (at_t : s.pc t = .woke) (ne : m.lk ≠ .ptable) :
    Moved m s c t .wakeupRelease { s with lock := update s.lock .ptable none, pc := update s.pc t .inside }

inductive Napped (m : Meeting) (s : State) (c : Nat) (p : Slot) : Nap → State → Prop
  | true (at_p : s.pc (.proc p) = .inside) : Napped m s c p .test s
  | test (at_p : s.pc (.proc p) = .inside) : Napped m s c p .test { s with pc := update s.pc (.proc p) .tested }
  | giveUp (at_p : s.pc (.proc p) = .tested) : Napped m s c p .giveUp { s with pc := update s.pc (.proc p) .inside }
  | commit (at_p : s.pc (.proc p) = .tested) (same : m.lk = .ptable) :
    Napped m s c p .lockTable { s with pc := update s.pc (.proc p) .committed }
  | lockTable (at_p : s.pc (.proc p) = .tested) (free : s.lock .ptable = none) (ne : m.lk ≠ .ptable) :
    Napped m s c p .lockTable { s with
      lock := update s.lock .ptable (some c), pc := update s.pc (.proc p) .locked }
  | releaseLk (at_p : s.pc (.proc p) = .locked) :
    Napped m s c p .releaseLk { s with lock := update s.lock m.lk none, pc := update s.pc (.proc p) .committed }
  | sched (at_p : s.pc (.proc p) = .committed) :
    Napped m s c p .sched { s with
      ptable := s.ptable.modify p (·.sleep m.chan)
      pc := update s.pc (.proc p) .slept
      cpu := update s.cpu c .scheduling }
  | tidyOwn (at_p : s.pc (.proc p) = .slept) (same : m.lk = .ptable) :
    Napped m s c p .tidy { s with
      ptable := s.ptable.modify p fun q => { q with chan := none }, pc := update s.pc (.proc p) .inside }
  | tidy (at_p : s.pc (.proc p) = .slept) (ne : m.lk ≠ .ptable) :
    Napped m s c p .tidy { s with
      ptable := s.ptable.modify p fun q => { q with chan := none }
      lock := update s.lock .ptable none
      pc := update s.pc (.proc p) .reacquire }
  | acquireLk (at_p : s.pc (.proc p) = .reacquire) (free : s.lock m.lk = none) :
    Napped m s c p .acquireLk { s with lock := update s.lock m.lk (some c), pc := update s.pc (.proc p) .inside }
  | yield (opened : s.Open p) (free : s.lock .ptable = none) :
    Napped m s c p .yield { s with
      ptable := s.ptable.modify p .yield
      lock := update s.lock .ptable (some c)
      pc := update s.pc (.proc p) (.yielded (s.pc (.proc p)))
      cpu := update s.cpu c .scheduling }
  | endYield (back : Pc) (at_p : s.pc (.proc p) = .yielded back) :
    Napped m s c p .endYield { s with lock := update s.lock .ptable none, pc := update s.pc (.proc p) back }
  | sleepElsewhere (chan : Chan) (at_p : s.pc (.proc p) = .out) (free : s.lock .ptable = none) (ne : chan ≠ m.chan) :
    Napped m s c p (.sleepElsewhere chan) { s with
      ptable := s.ptable.modify p (·.sleep chan)
      lock := update s.lock .ptable (some c)
      pc := update s.pc (.proc p) .elsewhere
      cpu := update s.cpu c .scheduling }
  | wakeElsewhere (at_p : s.pc (.proc p) = .elsewhere) :
    Napped m s c p .wakeElsewhere { s with
      ptable := s.ptable.modify p fun q => { q with chan := none }
      lock := update s.lock .ptable none
      pc := update s.pc (.proc p) .out }

inductive Step (m : Meeting) (s : State) : Action → State → Prop
  | enter (c : Nat) (idle : s.cpu c = .idle) (free : s.lock .ptable = none) :
    Step m s (.enter c) { s with lock := update s.lock .ptable (some c), cpu := update s.cpu c .scheduling }
  | leave (c : Nat) (at_c : s.cpu c = .scheduling) :
    Step m s (.leave c) { s with lock := update s.lock .ptable none, cpu := update s.cpu c .idle }
  | dispatch (c : Nat) (p : Slot) (at_c : s.cpu c = .scheduling) (runnable : (s.ptable p).state = .runnable) :
    Step m s (.dispatch c p) { s with
      ptable := s.ptable.modify p fun q => { q with state := .running }, cpu := update s.cpu c (.running p) }
  | interruptIdle (c : Nat) (at_c : s.cpu c = .idle) :
    Step m s (.interrupt c) { s with cpu := update s.cpu c (.handling none) }
  | interrupt (c : Nat) (p : Slot) (at_c : s.cpu c = .running p) (opened : s.Open p) :
    Step m s (.interrupt c) { s with cpu := update s.cpu c (.handling (some p)) }
  | iret (c : Nat) (under : Option Slot) (at_c : s.cpu c = .handling under) (done : s.pc (.handler c) = .out) :
    Step m s (.iret c) { s with cpu := update s.cpu c (under.elim .idle .running) }
  | thread (c : Nat) (t : Thread) (move : Move) (s' : State) (at_c : s.thread c = some t) (moved : Moved m s c t move s') :
    Step m s (.thread c move) s'
  | proc (c : Nat) (p : Slot) (nap : Nap) (s' : State) (at_c : s.cpu c = .running p) (napped : Napped m s c p nap s') :
    Step m s (.proc c nap) s'
  | wakeupOther (chan : Chan) : Step m s (.wakeupOther chan) { s with ptable := s.ptable.wakeup1 chan }
  | kill (pid : Word) (k : Slot) : Step m s (.kill pid) { s with ptable := s.ptable.modify k .kill }
  | killNone (pid : Word) : Step m s (.kill pid) s

theorem acquire_eq {l : Lock} {next : State → State} (taken : (s.acquire l c).map next = some s') :
    s.lock l = none ∧ s' = next { s with lock := update s.lock l (some c) } := by
  by_cases free : s.lock l = none
  · rw [State.acquire, if_pos free] at taken
    exact ⟨free, (Option.some.inj taken).symm⟩
  · rw [State.acquire, if_neg free] at taken
    cases taken

theorem move_cases {move : Move} (taken : m.threadStep s c t move (s.pc t) = some s') : Moved m s c t move s' := by
  cases move <;> cases at_t : s.pc t <;> rw [at_t] at taken <;> try cases taken
  case acquire.out =>
    obtain ⟨free, rfl⟩ := acquire_eq taken
    exact .acquire at_t free
  case release.inside => exact .release at_t
  case makeFalse.inside => exact .makeFalse at_t
  case makeTrue.inside => exact .makeTrue at_t
  case wakeupAcquire.made =>
    by_cases same : m.lk = .ptable
    · rw [threadStep, if_pos same] at taken
      cases taken
      exact .wakeupOwn at_t same
    · rw [threadStep, if_neg same] at taken
      obtain ⟨free, rfl⟩ := acquire_eq taken
      exact .wakeupAcquire at_t free
  case wakeup1.waking => exact .wakeup1 at_t
  case wakeupRelease.woke =>
    by_cases same : m.lk = .ptable
    · rw [if_pos same]
      exact .wokeOwn at_t same
    · rw [if_neg same]
      exact .wakeupRelease at_t same

theorem yield_cases (taken : m.procStep s c p .yield (s.pc (.proc p)) = some s') : Napped m s c p .yield s' := by
  have taken : (if s.Open p then (s.acquire .ptable c).map fun x =>
      ((x.retable (x.ptable.modify p .yield)).move (.proc p) (.yielded (s.pc (.proc p)))).seat c .scheduling
    else none) = some s' := by
    cases at_p : s.pc (.proc p) <;> simpa only [procStep, at_p] using taken
  by_cases opened : s.Open p
  · rw [if_pos opened] at taken
    obtain ⟨free, rfl⟩ := acquire_eq taken
    exact .yield opened free
  · rw [if_neg opened] at taken
    cases taken

theorem nap_cases {nap : Nap} (taken : m.procStep s c p nap (s.pc (.proc p)) = some s') : Napped m s c p nap s' := by
  cases nap with
  | yield => exact yield_cases taken
  | test =>
    cases at_p : s.pc (.proc p) <;> rw [at_p] at taken <;> try cases taken
    case test.inside.refl =>
      by_cases true : s.condition = true
      · rw [if_pos true]
        exact .true at_p
      · rw [if_neg true]
        exact .test at_p
  | giveUp =>
    cases at_p : s.pc (.proc p) <;> rw [at_p] at taken <;> cases taken
    exact .giveUp at_p
  | lockTable =>
    cases at_p : s.pc (.proc p) <;> rw [at_p] at taken <;> try cases taken
    case tested =>
      by_cases same : m.lk = .ptable
      · rw [procStep, if_pos same] at taken
        cases taken
        exact .commit at_p same
      · rw [procStep, if_neg same] at taken
        obtain ⟨free, rfl⟩ := acquire_eq taken
        exact .lockTable at_p free same
  | releaseLk =>
    cases at_p : s.pc (.proc p) <;> rw [at_p] at taken <;> cases taken
    exact .releaseLk at_p
  | sched =>
    cases at_p : s.pc (.proc p) <;> rw [at_p] at taken <;> cases taken
    exact .sched at_p
  | tidy =>
    cases at_p : s.pc (.proc p) <;> rw [at_p] at taken <;> try cases taken
    case tidy.slept.refl =>
      by_cases same : m.lk = .ptable
      · rw [if_pos same]
        exact .tidyOwn at_p same
      · rw [if_neg same]
        exact .tidy at_p same
  | acquireLk =>
    cases at_p : s.pc (.proc p) <;> rw [at_p] at taken <;> try cases taken
    case reacquire =>
      obtain ⟨free, rfl⟩ := acquire_eq taken
      exact .acquireLk at_p free
  | endYield =>
    cases at_p : s.pc (.proc p) <;> rw [at_p] at taken <;> cases taken
    exact .endYield _ at_p
  | sleepElsewhere chan =>
    cases at_p : s.pc (.proc p) <;> rw [at_p] at taken <;> try cases taken
    case out =>
      by_cases same : chan = m.chan
      · rw [procStep, if_pos same] at taken
        cases taken
      · rw [procStep, if_neg same] at taken
        obtain ⟨free, rfl⟩ := acquire_eq taken
        exact .sleepElsewhere chan at_p free same
  | wakeElsewhere =>
    cases at_p : s.pc (.proc p) <;> rw [at_p] at taken <;> cases taken
    exact .wakeElsewhere at_p

theorem step_cases (taken : m.Takes s a s') : Step m s a s' := by
  unfold Takes step at taken
  cases a with
  | enter c =>
    by_cases idle : s.cpu c = .idle
    · simp only [idle, if_true] at taken
      obtain ⟨free, rfl⟩ := acquire_eq taken
      exact .enter c idle free
    · simp [idle] at taken
  | leave c =>
    simp only [Option.ite_none_right_eq_some, Option.some.injEq] at taken
    obtain ⟨at_c, rfl⟩ := taken
    exact .leave c at_c
  | dispatch c p =>
    simp only [Option.ite_none_right_eq_some, Option.some.injEq] at taken
    obtain ⟨⟨at_c, runnable⟩, rfl⟩ := taken
    exact .dispatch c p at_c runnable
  | interrupt c =>
    cases at_c : s.cpu c with
    | idle =>
      simp only [at_c, Option.some.injEq] at taken
      subst taken
      exact .interruptIdle c at_c
    | running p =>
      simp only [at_c, Option.ite_none_right_eq_some, Option.some.injEq] at taken
      obtain ⟨opened, rfl⟩ := taken
      exact .interrupt c p at_c opened
    | _ => simp [at_c] at taken
  | iret c =>
    cases at_c : s.cpu c with
    | handling under =>
      simp only [at_c, Option.ite_none_right_eq_some, Option.some.injEq] at taken
      obtain ⟨done, rfl⟩ := taken
      exact .iret c under at_c done
    | _ => simp [at_c] at taken
  | thread c move =>
    obtain ⟨t, at_c, moved⟩ := Option.bind_eq_some_iff.mp taken
    exact .thread c t move s' at_c (move_cases moved)
  | proc c nap =>
    cases at_c : s.cpu c with
    | running p =>
      simp only [at_c] at taken
      exact .proc c p nap s' at_c (nap_cases taken)
    | _ => simp [at_c] at taken
  | wakeupOther chan =>
    simp only [Option.ite_none_right_eq_some, Option.some.injEq] at taken
    obtain ⟨-, rfl⟩ := taken
    exact .wakeupOther chan
  | kill pid =>
    simp only [Option.ite_none_right_eq_some] at taken
    obtain ⟨-, taken⟩ := taken
    cases found : s.ptable.withPid pid with
    | some k =>
      simp only [found, Option.some.injEq] at taken
      subst taken
      exact .kill pid k
    | none =>
      simp only [found, Option.some.injEq] at taken
      subst taken
      exact .killNone pid

end Meeting

end Xv6.Sleep
