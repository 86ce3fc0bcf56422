import Xv6.Locks.Instructions

namespace Xv6.Locks

open Function Transition

variable {s s' : State} {c d p : Nat} {x : Context} {cpu : Cpu} {op : Op} {rest : List Op} {v : View} {l m : Lock}
  {locked : Lock → Bool} {holder : Lock → Option Nat} {a : Action}

theorem Cpu.Sound.one (own : cpu.Sound x) (held : cpu.held = [.ptable]) (zero : pending x.frame.todo = 0) :
    cpu.ncli = 1 ∧ cpu.interrupts = false := by
  have count := own.count
  rw [held, zero] at count
  exact ⟨count, own.off_of_held (by rw [held]; exact List.cons_ne_nil _ _)⟩

/-! ### Giving up a CPU -/

theorem park_self : (s.park c p x).cpu c = { s.cpu c with thread := .scheduler c, proc := none } := update_self ..

theorem park_of_ne (ne : d ≠ c) : (s.park c p x).cpu d = s.cpu d := update_of_ne ne ..

theorem park_scheduler (d : Nat) : (s.park c p x).context (.scheduler d) = s.context (.scheduler d) := by
  simp only [State.park]
  rw [update_of_ne scheduler_ne_proc]

theorem park_running_self : (s.park c p x).running c = s.context (.scheduler c) := by
  rw [State.running, park_self]
  exact park_scheduler c

theorem park_running_of_ne (seated : Seated s) (thread : (s.cpu c).thread = .proc p) (ne : d ≠ c) :
    (s.park c p x).running d = s.running d := by
  rw [State.running, park_of_ne ne]
  exact update_of_ne (thread ▸ seated.apart ne) ..

theorem Cpu.Sound.park {y : Context} (own : cpu.Sound x) (held : cpu.held = [.ptable]) (zero : pending x.frame.todo = 0)
    (idle : y.frame.todo = []) (unsaved : y.saved = []) :
    Cpu.Sound { cpu with thread := .scheduler c, proc := none } y := by
  rcases own.one held zero with ⟨ncli, off⟩
  refine ⟨?_, own.off, own.nodup, ?_, ?_, ?_, ?_, nofun, nofun⟩
  · dsimp only
    rw [idle, held, ncli]
    rfl
  · rw [idle]
    trivial
  · rw [idle]
    trivial
  · rw [unsaved]
    nofun
  · intro b _
    dsimp only
    omega

theorem Seated.park (seated : Seated s) (thread : (s.cpu c).thread = .proc p)
    (waits : Context.Parked { x with intena := (s.cpu c).intena }) : Seated (s.park c p x) := by
  have away : (s.cpu c).thread ≠ .scheduler c := by
    rw [thread]
    nofun
  constructor
  · intro d e
    by_cases here : d = c
    · subst here
      rw [park_self]
      exact fun same => (Thread.scheduler.inj same).symm
    · rw [park_of_ne here]
      exact seated.seat d e
  · intro d
    by_cases here : d = c
    · subst here
      rw [park_self]
      rfl
    · rw [park_of_ne here]
      exact seated.proc d
  · intro d e q first second
    by_cases here : d = c
    · subst here
      rw [park_self] at first
      cases first
    · by_cases there : e = c
      · subst there
        rw [park_self] at second
        cases second
      · rw [park_of_ne here] at first
        rw [park_of_ne there] at second
        exact seated.alone d e q first second
  · intro d q first
    by_cases here : d = c
    · subst here
      rw [park_self] at first
      cases first
    · rw [park_of_ne here] at first
      have other : q ≠ p := by
        rintro rfl
        exact here (seated.alone d c q first thread)
      simp only [State.park, update_of_ne other]
      exact seated.awake d q first
  · intro q still
    simp only [State.park] at still ⊢
    by_cases this : q = p
    · subst this
      rw [update_self]
      exact waits
    · rw [update_of_ne this] at still
      rw [update_of_ne (fun same => this (Thread.proc.inj same))]
      exact seated.parked q still
  · intro d gone
    rw [park_scheduler]
    by_cases here : d = c
    · subst here
      exact seated.resting d away
    · rw [park_of_ne here] at gone
      exact seated.resting d gone

theorem Sound.park (sound : Sound s) (thread : (s.cpu c).thread = .proc p)
    (todo : (s.running c).frame.todo = .swtch :: rest) :
    Sound (s.park c p { s.running c with frame := { (s.running c).frame with todo := rest } }) := by
  have own := sound.cpus c
  have facts := own.facts
  rw [todo] at facts
  rcases facts with ⟨held, rfl⟩
  have away : (s.cpu c).thread ≠ .scheduler c := by
    rw [thread]
    nofun
  rcases sound.seated.resting c away with ⟨idle, unsaved⟩
  have waits : Context.Parked { s.running c with
      frame := { (s.running c).frame with todo := [.restore] }
      intena := (s.cpu c).intena } := by
    refine ⟨Or.inr rfl, own.saved, fun b nest => ⟨rfl, own.kept p b thread nest ?_⟩⟩
    rw [todo]
    nofun
  refine ⟨?_, sound.seated.park thread waits, ?_⟩
  · intro d
    by_cases here : d = c
    · subst here
      rw [park_running_self, park_self]
      exact own.park held (by rw [todo]; rfl) idle unsaved
    · rw [park_running_of_ne sound.seated thread here, park_of_ne here]
      exact sound.cpus d
  · refine sound.locking.congr (c := c) ?_ rfl rfl (fun d ne => park_running_of_ne sound.seated thread ne)
      (not_busy_of_cons todo (Or.inl rfl)) ?_
    · intro d
      by_cases here : d = c
      · subst here
        rw [park_self]
      · rw [park_of_ne here]
    · intro l
      rw [park_running_self, idle]
      nofun

/-! ### Getting one -/

/-- The state after `swtch` to process `p` on CPU `c`. -/
def State.dispatched (s : State) (c p : Nat) : State :=
  { s with
    cpu := update s.cpu c { s.cpu c with thread := .proc p, proc := some p }
    parked := update s.parked p false }

theorem dispatched_self : (s.dispatched c p).cpu c = { s.cpu c with thread := .proc p, proc := some p } := update_self ..

theorem dispatched_of_ne (ne : d ≠ c) : (s.dispatched c p).cpu d = s.cpu d := update_of_ne ne ..

theorem dispatched_running_self : (s.dispatched c p).running c = s.context (.proc p) := by
  rw [State.running, dispatched_self]
  rfl

theorem dispatched_running_of_ne (ne : d ≠ c) : (s.dispatched c p).running d = s.running d := by
  rw [State.running, dispatched_of_ne ne]
  rfl

theorem Seated.nobody (seated : Seated s) (waits : s.parked p = true) (d : Nat) : (s.cpu d).thread ≠ .proc p := by
  intro same
  have awake := seated.awake d p same
  rw [waits] at awake
  cases awake

theorem Cpu.Sound.dispatch {y : Context} (own : cpu.Sound x) (held : cpu.held = [.ptable]) (zero : pending x.frame.todo = 0)
    (parked : y.Parked) : Cpu.Sound { cpu with thread := .proc p, proc := some p } y := by
  rcases own.one held zero with ⟨ncli, off⟩
  refine ⟨?_, own.off, own.nodup, ?_, ?_, parked.saved, ?_, ?_, ?_⟩
  · dsimp only
    rcases parked.todo with nil | restore
    · rw [nil, held, ncli]
      rfl
    · rw [restore, held, ncli]
      rfl
  · rcases parked.todo with nil | restore
    · rw [nil]
      trivial
    · rw [restore]
      exact ⟨by decide, nofun, nofun, trivial⟩
  · dsimp only
    rcases parked.todo with nil | restore
    · rw [nil]
      trivial
    · rw [restore]
      exact ⟨held, trivial⟩
  · intro b _
    dsimp only
    omega
  · intro q b _ nest first
    rw [(parked.kept b nest).1] at first
    exact absurd rfl first
  · exact fun q b _ nest _ => (parked.kept b nest).2

theorem Seated.dispatch (seated : Seated s) (thread : (s.cpu c).thread = .scheduler c) (ready : s.Ready c)
    (unsaved : (s.running c).saved = []) (waits : s.parked p = true) : Seated (s.dispatched c p) := by
  have nobody := seated.nobody waits
  constructor
  · intro d e
    by_cases here : d = c
    · subst here
      rw [dispatched_self]
      nofun
    · rw [dispatched_of_ne here]
      exact seated.seat d e
  · intro d
    by_cases here : d = c
    · subst here
      rw [dispatched_self]
      rfl
    · rw [dispatched_of_ne here]
      exact seated.proc d
  · intro d e q first second
    by_cases here : d = c
    · by_cases there : e = c
      · rw [here, there]
      · rw [here, dispatched_self] at first
        rw [dispatched_of_ne there] at second
        cases first
        exact absurd second (nobody e)
    · by_cases there : e = c
      · rw [there, dispatched_self] at second
        rw [dispatched_of_ne here] at first
        cases second
        exact absurd first (nobody d)
      · rw [dispatched_of_ne here] at first
        rw [dispatched_of_ne there] at second
        exact seated.alone d e q first second
  · intro d q first
    by_cases here : d = c
    · subst here
      rw [dispatched_self] at first
      cases first
      exact update_self ..
    · rw [dispatched_of_ne here] at first
      have other : q ≠ p := by
        rintro rfl
        exact nobody d first
      exact (update_of_ne other ..).trans (seated.awake d q first)
  · intro q still
    have other : q ≠ p := by
      rintro rfl
      have awake : (s.dispatched c q).parked q = false := update_self ..
      rw [awake] at still
      cases still
    exact seated.parked q ((update_of_ne other ..).symm.trans still)
  · intro d gone
    by_cases here : d = c
    · subst here
      rw [State.Ready, State.running, thread] at ready
      rw [State.running, thread] at unsaved
      exact ⟨ready, unsaved⟩
    · rw [dispatched_of_ne here] at gone
      exact seated.resting d gone

theorem Sound.dispatch (sound : Sound s) (ready : s.Ready c) (thread : (s.cpu c).thread = .scheduler c)
    (unsaved : (s.running c).saved = []) (held : (s.cpu c).held = [.ptable]) (waits : s.parked p = true) :
    Sound (s.dispatched c p) := by
  have idle : (s.running c).frame.todo = [] := ready
  have parked := sound.seated.parked p waits
  refine ⟨?_, sound.seated.dispatch thread ready unsaved waits, ?_⟩
  · intro d
    by_cases here : d = c
    · subst here
      rw [dispatched_running_self, dispatched_self]
      exact (sound.cpus d).dispatch held (by rw [idle]; rfl) parked
    · rw [dispatched_running_of_ne here, dispatched_of_ne here]
      exact sound.cpus d
  · refine sound.locking.congr (c := c) ?_ rfl rfl (fun d ne => dispatched_running_of_ne ne) (not_busy_of_nil idle) ?_
    · intro d
      by_cases here : d = c
      · subst here
        rw [dispatched_self]
      · rw [dispatched_of_ne here]
    · intro l
      rw [dispatched_running_self]
      rcases parked.todo with nil | restore
      · rw [nil]
        nofun
      · rw [restore]
        nofun

theorem Sound.alloc (sound : Sound s) (waits : s.parked p = true) :
    Sound { s with context := update s.context (.proc p) ⟨.idle, [], false, none⟩ } := by
  have nobody := sound.seated.nobody waits
  have running : ∀ d, State.running { s with context := update s.context (.proc p) ⟨.idle, [], false, none⟩ } d =
      s.running d := by
    intro d
    exact update_of_ne (nobody d) ..
  refine ⟨?_, ⟨sound.seated.seat, sound.seated.proc, sound.seated.alone, sound.seated.awake, ?_, ?_⟩, ⟨sound.locking.locked,
    sound.locking.exclusive, sound.locking.holder, ?_, ?_⟩⟩
  · intro d
    rw [running]
    exact sound.cpus d
  · intro q still
    dsimp only
    by_cases this : q = p
    · subst this
      rw [update_self]
      exact ⟨Or.inl rfl, nofun, nofun⟩
    · rw [update_of_ne (fun same => this (Thread.proc.inj same))]
      exact sound.seated.parked q still
  · intro d gone
    dsimp only
    rw [update_of_ne scheduler_ne_proc]
    exact sound.seated.resting d gone
  · intro l d member
    rw [running]
    exact sound.locking.holds l d member
  · intro l d first
    rw [running] at first
    exact sound.locking.cleared l d first

end Xv6.Locks
