import Xv6.Sleep.Locks

namespace Xv6.Sleep

open Sched Function Transition

variable {m : Meeting} {s s' : State} {c d : Nat} {t u : Thread} {p q : Slot} {a : Action} {l : Lock}

/-- The process sleeps, or waits for a CPU after a `yield`. -/
def Pc.Parked (pc : Pc) : Prop := pc = .slept ∨ pc = .elsewhere ∨ ∃ back, pc = .yielded back

/-- The process may hold `chan`. -/
def Pc.Asleep (pc : Pc) : Prop := pc = .slept ∨ pc = .elsewhere

def Pc.Open (pc : Pc) : Prop := pc = .out ∨ pc = .reacquire

namespace Meeting

/-- The locks that a thread holds when it executes at a place. -/
def Holds (m : Meeting) : Pc → Lock → Prop
  | .inside, l | .tested, l | .made, l => l = m.lk
  | .locked, l | .waking, l | .woke, l => l = m.lk ∨ l = .ptable
  | .committed, l | .slept, l | .yielded _, l | .elsewhere, l => l = .ptable
  | .out, _ | .reacquire, _ => False

end Meeting

def State.Seats (s : State) (c : Nat) (p : Slot) : Prop := s.cpu c = .running p ∨ s.cpu c = .handling (some p)

/-- `holds` is the ownership of the two spinlocks; between `swtch` and the dispatch of the next process `ptable.lock`
    belongs to the scheduler of the CPU. -/
structure Sound (m : Meeting) (s : State) : Prop where
  holds : ∀ c t l, s.thread c = some t → m.Holds (s.pc t) l → s.lock l = some c
  scheduling : ∀ c, s.cpu c = .scheduling → s.lock .ptable = some c
  alone : ∀ c d p, s.Seats c p → s.Seats d p → c = d
  running : ∀ c p, s.Seats c p → (s.ptable p).state = .running
  suspended : ∀ c p, s.cpu c = .handling (some p) → (s.pc (.proc p)).Open
  parked : ∀ p, (∃ c, s.Seats c p) ∨ (s.pc (.proc p)).Parked
  quiet : ∀ c, s.pc (.handler c) = .out ∨ ∃ under, s.cpu c = .handling under
  chan : ∀ p, (s.ptable p).chan = none ∨ (s.pc (.proc p)).Asleep
  back : ∀ p back, s.pc (.proc p) = .yielded back → back.Open
  two : ∀ p, s.pc (.proc p) = .locked → m.lk ≠ .ptable

theorem thread_running : s.thread c = some (.proc p) ↔ s.cpu c = .running p := by
  unfold State.thread
  cases s.cpu c <;> simp

theorem thread_handling {d : Nat} : s.thread c = some (.handler d) ↔ c = d ∧ ∃ under, s.cpu c = .handling under := by
  unfold State.thread
  cases s.cpu c <;> simp

theorem thread_seat {cpu : Cpu} {lock : Lock → Option Nat} {pc : Thread → Pc} {ptable : Table} (ne : d ≠ c) :
    State.thread { s with cpu := update s.cpu c cpu, lock := lock, pc := pc, ptable := ptable } d = s.thread d := by
  simp only [State.thread, update_of_ne ne]

theorem seats_seat {cpu : Cpu} {lock : Lock → Option Nat} {pc : Thread → Pc} {ptable : Table} (ne : d ≠ c) :
    State.Seats { s with cpu := update s.cpu c cpu, lock := lock, pc := pc, ptable := ptable } d p ↔ s.Seats d p := by
  simp only [State.Seats, update_of_ne ne]

namespace Sound

theorem exclusive (held : Sound m s) (at_c : s.thread c = some t) (at_d : s.thread d = some u)
    (mine : m.Holds (s.pc t) l) (yours : m.Holds (s.pc u) l) : t = u := by
  have same : c = d := Option.some.inj ((held.holds c t l at_c mine).symm.trans (held.holds d u l at_d yours))
  subst same
  exact Option.some.inj (at_c.symm.trans at_d)

/-- A thread that is neither out of the protocol nor parked executes on a CPU. -/
theorem seated (held : Sound m s) (active : ¬ (s.pc t).Open) (up : ¬ (s.pc t).Parked) : ∃ c, s.thread c = some t := by
  cases t with
  | proc p =>
    rcases held.parked p with ⟨c, runs | under⟩ | parked
    · exact ⟨c, thread_running.mpr runs⟩
    · exact absurd (held.suspended c p under) active
    · exact absurd parked up
  | handler c =>
    rcases held.quiet c with out | handles
    · exact absurd (.inl out) active
    · exact ⟨c, thread_handling.mpr ⟨rfl, handles⟩⟩

theorem stay (held : Sound m s) (pc : Pc) (at_c : s.thread c = some t) {lock : Lock → Option Nat} {ptable : Table}
    {condition : Bool} (mine : ∀ l, m.Holds pc l → lock l = some c)
    (others : ∀ l d, s.lock l = some d → d ≠ c → lock l = some d)
    (goes : ∀ k, (s.ptable k).state = .running → (ptable k).state = .running)
    (clear : ∀ k, Thread.proc k = t → (ptable k).chan = none ∨ pc.Asleep)
    (chans : ∀ k, Thread.proc k ≠ t → (ptable k).chan = (s.ptable k).chan)
    (back : ∀ back, pc = .yielded back → back.Open) (two : pc = .locked → m.lk ≠ .ptable) :
    Sound m { s with lock := lock, pc := update s.pc t pc, ptable := ptable, condition := condition } where
  holds d u l at_d holds := by
    by_cases same : u = t
    · subst same
      simp only [update_self] at holds
      have eq : d = c := by
        cases u with
        | proc p => exact held.alone d c p (.inl (thread_running.mp at_d)) (.inl (thread_running.mp at_c))
        | handler e => exact (thread_handling.mp at_d).1.trans (thread_handling.mp at_c).1.symm
      subst eq
      exact mine l holds
    · simp only [update_of_ne same] at holds
      refine others l d (held.holds d u l at_d holds) fun eq => same ?_
      subst eq
      exact Option.some.inj (at_d.symm.trans at_c)
  scheduling d at_d := by
    refine others _ d (held.scheduling d at_d) fun eq => ?_
    subst eq
    simp [State.thread, show s.cpu d = .scheduling from at_d] at at_c
  alone := held.alone
  running d k seats := goes k (held.running d k seats)
  suspended d k under := by
    have ne : Thread.proc k ≠ t := by
      intro h
      subst h
      have eq := held.alone d c k (.inr under) (.inl (thread_running.mp at_c))
      subst eq
      rw [thread_running] at at_c
      exact nomatch at_c.symm.trans under
    simp only [update_of_ne ne]
    exact held.suspended d k under
  parked k := by
    by_cases same : Thread.proc k = t
    · subst same
      exact .inl ⟨c, .inl (thread_running.mp at_c)⟩
    · simp only [update_of_ne same]
      exact held.parked k
  quiet d := by
    by_cases same : Thread.handler d = t
    · subst same
      obtain ⟨rfl, handles⟩ := thread_handling.mp at_c
      exact .inr handles
    · simp only [update_of_ne same]
      exact held.quiet d
  chan k := by
    by_cases same : Thread.proc k = t
    · simp only [same, update_self]
      exact clear k same
    · simp only [update_of_ne same, chans k same]
      exact held.chan k
  back k b at_k := by
    by_cases same : Thread.proc k = t
    · simp only [same, update_self] at at_k
      exact back b at_k
    · simp only [update_of_ne same] at at_k
      exact held.back k b at_k
  two k at_k := by
    by_cases same : Thread.proc k = t
    · simp only [same, update_self] at at_k
      exact two at_k
    · simp only [update_of_ne same] at at_k
      exact held.two k at_k

theorem park (held : Sound m s) (at_c : s.cpu c = .running p) {lock : Lock → Option Nat} {pc : Pc} {ptable : Table}
    (mine : lock .ptable = some c) (others : ∀ l d, s.lock l = some d → d ≠ c → lock l = some d) (up : pc.Parked)
    (same : ∀ k, k ≠ p → ptable k = s.ptable k) (chan : (ptable p).chan = none ∨ pc.Asleep)
    (back : ∀ back, pc = .yielded back → back.Open) :
    Sound m { s with
      lock := lock, pc := update s.pc (.proc p) pc, ptable := ptable, cpu := update s.cpu c .scheduling } where
  holds d u l at_d holds := by
    by_cases eq : d = c
    · subst eq
      simp [State.thread] at at_d
    · rw [thread_seat eq] at at_d
      have ne : u ≠ .proc p := by
        intro h
        subst h
        exact eq (held.alone d c p (.inl (thread_running.mp at_d)) (.inl at_c))
      simp only [update_of_ne ne] at holds
      exact others l d (held.holds d u l at_d holds) eq
  scheduling d at_d := by
    by_cases eq : d = c
    · subst eq
      exact mine
    · simp only [update_of_ne eq] at at_d
      exact others _ d (held.scheduling d at_d) eq
  alone d e k at_d at_e := by
    by_cases eq : d = c <;> by_cases eq' : e = c
    · exact eq.trans eq'.symm
    · subst eq
      simp [State.Seats] at at_d
    · subst eq'
      simp [State.Seats] at at_e
    · exact held.alone d e k ((seats_seat eq).mp at_d) ((seats_seat eq').mp at_e)
  running d k at_d := by
    by_cases eq : d = c
    · subst eq
      simp [State.Seats] at at_d
    · rw [seats_seat eq] at at_d
      have ne : k ≠ p := by
        intro h
        subst h
        exact eq (held.alone d c k at_d (.inl at_c))
      simp only [same k ne]
      exact held.running d k at_d
  suspended d k under := by
    by_cases eq : d = c
    · subst eq
      simp at under
    · simp only [update_of_ne eq] at under
      have ne : Thread.proc k ≠ .proc p := by
        intro h
        cases h
        exact eq (held.alone d c p (.inr under) (.inl at_c))
      simp only [update_of_ne ne]
      exact held.suspended d k under
  parked k := by
    by_cases eq : k = p
    · subst eq
      simp only [update_self]
      exact .inr up
    · simp only [update_of_ne (fun h : Thread.proc k = .proc p => eq (Thread.proc.inj h))]
      rcases held.parked k with ⟨d, at_d⟩ | parked
      · refine .inl ⟨d, (seats_seat fun h => ?_).mpr at_d⟩
        subst h
        rcases at_d with runs | under
        · exact eq (Cpu.running.inj (runs.symm.trans at_c))
        · exact nomatch under.symm.trans at_c
      · exact .inr parked
  quiet d := by
    rcases held.quiet d with out | ⟨under, handles⟩
    · exact .inl out
    · have ne : d ≠ c := by
        intro h
        subst h
        exact nomatch handles.symm.trans at_c
      simp only [update_of_ne ne]
      exact .inr ⟨under, handles⟩
  chan k := by
    by_cases eq : k = p
    · subst eq
      simp only [update_self]
      exact chan
    · simp only [update_of_ne (fun h : Thread.proc k = .proc p => eq (Thread.proc.inj h)), same k eq]
      exact held.chan k
  back k b at_k := by
    by_cases eq : k = p
    · subst eq
      simp only [update_self] at at_k
      exact back b at_k
    · simp only [update_of_ne (fun h : Thread.proc k = .proc p => eq (Thread.proc.inj h))] at at_k
      exact held.back k b at_k
  two k at_k := by
    by_cases eq : k = p
    · subst eq
      simp only [update_self] at at_k
      subst at_k
      simp [Pc.Parked] at up
    · simp only [update_of_ne (fun h : Thread.proc k = .proc p => eq (Thread.proc.inj h))] at at_k
      exact held.two k at_k

theorem retable (held : Sound m s) {ptable : Table}
    (goes : ∀ k, (s.ptable k).state = .running → (ptable k).state = .running)
    (chans : ∀ k, (ptable k).chan = (s.ptable k).chan) : Sound m { s with ptable := ptable } :=
  { held with
    running := fun c k seats => goes k (held.running c k seats)
    chan := fun k => by
      simp only [chans k]
      exact held.chan k }

theorem wakeup_state {r : Sched.Proc} {chan : Chan} (running : r.state = .running) : (r.wakeup chan).state = .running := by
  simp [Sched.Proc.wakeup, running]

theorem wakeup_chan {r : Sched.Proc} {chan : Chan} : (r.wakeup chan).chan = r.chan := by
  unfold Sched.Proc.wakeup
  split <;> rfl

theorem kill_state {r : Sched.Proc} (running : r.state = .running) : r.kill.state = .running := by
  simp [Sched.Proc.kill, running]

theorem take_others (free : s.lock l = none) (k : Lock) (d : Nat) (theirs : s.lock k = some d) :
    update s.lock l (some c) k = some d := by
  have ne : k ≠ l := by
    intro h
    subst h
    exact nomatch free.symm.trans theirs
  rw [update_of_ne ne]
  exact theirs

theorem drop_others (mine : s.lock l = some c) (k : Lock) (d : Nat) (theirs : s.lock k = some d) (away : d ≠ c) :
    update s.lock l none k = some d := by
  have ne : k ≠ l := by
    intro h
    subst h
    exact away (Option.some.inj (theirs.symm.trans mine))
  rw [update_of_ne ne]
  exact theirs

theorem go (held : Sound m s) (pc : Pc) (at_c : s.thread c = some t) {lock : Lock → Option Nat} {old : Pc} {condition : Bool}
    (at_t : s.pc t = old) (awake : ¬ old.Asleep) (mine : ∀ l, m.Holds pc l → lock l = some c)
    (others : ∀ l d, s.lock l = some d → d ≠ c → lock l = some d) (plain : ∀ back, pc ≠ .yielded back)
    (two : pc = .locked → m.lk ≠ .ptable) :
    Sound m { s with lock := lock, pc := update s.pc t pc, condition := condition } := by
  apply held.stay pc at_c mine others
  · exact fun _ => id
  · intro k eq
    subst eq at_t
    exact .inl ((held.chan k).resolve_right awake)
  · exact fun _ _ => rfl
  · exact fun back eq => absurd eq (plain back)
  · exact two

theorem own (held : Sound m s) (at_c : s.thread c = some t) {pc : Pc} (at_t : s.pc t = pc) (holds : m.Holds pc l) :
    s.lock l = some c := by
  subst at_t
  exact held.holds c t l at_c holds

theorem moved (held : Sound m s) {move : Move} (at_c : s.thread c = some t) (moved : m.Moved s c t move s') :
    Sound m s' := by
  cases moved with
  | acquire at_t free =>
    refine held.go .inside at_c at_t (by simp [Pc.Asleep]) ?_ (fun l d theirs _ => take_others free l d theirs) nofun nofun
    intro l holds
    subst holds
    exact update_self ..
  | release at_t =>
    exact held.go .out at_c at_t (by simp [Pc.Asleep]) (fun _ => nofun) (drop_others (held.own at_c at_t rfl)) nofun nofun
  | makeFalse at_t => exact { held with }
  | makeTrue at_t =>
    exact held.go .made at_c at_t (by simp [Pc.Asleep]) (fun _ holds => held.own at_c at_t holds) (fun _ _ theirs _ => theirs) nofun nofun
  | wakeupOwn at_t lk =>
    refine held.go .waking at_c at_t (by simp [Pc.Asleep]) ?_ (fun _ _ theirs _ => theirs) nofun nofun
    intro l holds
    rcases holds with rfl | rfl
    · exact held.own at_c at_t rfl
    · exact held.own at_c at_t lk.symm
  | wakeupAcquire at_t free =>
    refine held.go .waking at_c at_t (by simp [Pc.Asleep]) ?_ (fun l d theirs _ => take_others free l d theirs) nofun nofun
    intro l holds
    by_cases eq : l = .ptable
    · subst eq
      exact update_self ..
    · rw [update_of_ne eq]
      exact held.own at_c at_t (holds.resolve_right eq)
  | wakeup1 at_t =>
    apply held.stay .woke at_c (fun _ holds => held.own at_c at_t holds) (fun _ _ theirs _ => theirs)
    · exact fun k => wakeup_state
    · intro k eq
      subst eq
      left
      rw [Table.wakeup1, wakeup_chan]
      exact (held.chan k).resolve_right (by simp [at_t, Pc.Asleep])
    · exact fun k _ => wakeup_chan
    · exact nofun
    · exact nofun
  | wokeOwn at_t lk =>
    exact held.go .inside at_c at_t (by simp [Pc.Asleep]) (fun l holds => held.own at_c at_t (.inl holds))
      (fun _ _ theirs _ => theirs) nofun nofun
  | wakeupRelease at_t ne =>
    refine held.go .inside at_c at_t (by simp [Pc.Asleep]) ?_ (drop_others (held.own at_c at_t (.inr rfl))) nofun nofun
    intro l holds
    subst holds
    rw [update_of_ne ne]
    exact held.own at_c at_t (.inl rfl)

theorem open_holds {pc : Pc} (opened : pc.Open) : ¬ m.Holds pc l := by
  rcases opened with rfl | rfl <;> exact id

theorem open_plain {pc : Pc} (opened : pc.Open) (back : Pc) : pc ≠ .yielded back := by
  rcases opened with rfl | rfl <;> exact nofun

theorem open_two {pc : Pc} (opened : pc.Open) : pc = .locked → m.lk ≠ .ptable := by
  rcases opened with rfl | rfl <;> exact nofun

theorem tidied (held : Sound m s) (pc : Pc) (at_p : s.cpu c = .running p) {lock : Lock → Option Nat}
    (mine : ∀ l, m.Holds pc l → lock l = some c) (others : ∀ l d, s.lock l = some d → d ≠ c → lock l = some d)
    (plain : ∀ back, pc ≠ .yielded back) (two : pc = .locked → m.lk ≠ .ptable) :
    Sound m { s with
      ptable := s.ptable.modify p fun q => { q with chan := none }, lock := lock, pc := update s.pc (.proc p) pc } := by
  apply held.stay pc (thread_running.mpr at_p) mine others
  · intro k runs
    by_cases eq : k = p
    · subst eq
      rw [Table.modify_self]
      exact runs
    · rw [Table.modify_of_ne _ _ eq]
      exact runs
  · intro k eq
    cases eq
    rw [Table.modify_self]
    exact .inl rfl
  · intro k ne
    rw [Table.modify_of_ne _ _ (fun h => ne (congrArg _ h))]
  · exact fun back eq => absurd eq (plain back)
  · exact two

theorem napped (held : Sound m s) {nap : Nap} (at_c : s.cpu c = .running p) (napped : m.Napped s c p nap s') :
    Sound m s' := by
  have at_t := thread_running.mpr at_c
  cases napped with
  | true => exact held
  | test at_p =>
    exact held.go .tested at_t at_p (by simp [Pc.Asleep]) (fun _ holds => held.own at_t at_p holds) (fun _ _ theirs _ => theirs) nofun nofun
  | giveUp at_p =>
    exact held.go .inside at_t at_p (by simp [Pc.Asleep]) (fun _ holds => held.own at_t at_p holds) (fun _ _ theirs _ => theirs) nofun nofun
  | commit at_p same =>
    exact held.go .committed at_t at_p (by simp [Pc.Asleep]) (fun _ holds => held.own at_t at_p (holds.trans same.symm))
      (fun _ _ theirs _ => theirs) nofun nofun
  | lockTable at_p free ne =>
    refine held.go .locked at_t at_p (by simp [Pc.Asleep]) ?_ (fun l d theirs _ => take_others free l d theirs) nofun (fun _ => ne)
    intro l holds
    by_cases eq : l = .ptable
    · subst eq
      exact update_self ..
    · rw [update_of_ne eq]
      exact held.own at_t at_p (holds.resolve_right eq)
  | releaseLk at_p =>
    refine held.go .committed at_t at_p (by simp [Pc.Asleep]) ?_ (drop_others (held.own at_t at_p (.inl rfl))) nofun nofun
    intro l holds
    subst holds
    rw [update_of_ne (held.two p at_p).symm]
    exact held.own at_t at_p (.inr rfl)
  | sched at_p =>
    apply held.park at_c (held.own at_t at_p rfl) (fun _ _ theirs _ => theirs) (.inl rfl)
    · exact fun k ne => Table.modify_of_ne _ _ ne
    · exact .inr (.inl rfl)
    · exact nofun
  | tidyOwn at_p same =>
    exact held.tidied .inside at_c (fun _ holds => held.own at_t at_p (holds.trans same)) (fun _ _ theirs _ => theirs) nofun nofun
  | tidy at_p ne =>
    exact held.tidied .reacquire at_c (fun _ => nofun) (drop_others (held.own at_t at_p rfl)) nofun nofun
  | acquireLk at_p free =>
    refine held.go .inside at_t at_p (by simp [Pc.Asleep]) ?_ (fun l d theirs _ => take_others free l d theirs) nofun nofun
    intro l holds
    subst holds
    exact update_self ..
  | yield opened free =>
    apply held.park at_c (update_self ..) (fun l d theirs _ => take_others free l d theirs) (.inr (.inr ⟨_, rfl⟩))
    · exact fun k ne => Table.modify_of_ne _ _ ne
    · left
      rw [Table.modify_self]
      exact (held.chan p).resolve_right (by rcases opened with h | h <;> simp [h, Pc.Asleep])
    · intro back eq
      cases eq
      exact opened
  | endYield back at_p =>
    have opened := held.back p back at_p
    exact held.go back at_t at_p (by simp [Pc.Asleep]) (fun _ holds => absurd holds (open_holds opened))
      (drop_others (held.own at_t at_p rfl)) (open_plain opened) (open_two opened)
  | sleepElsewhere chan at_p free ne =>
    apply held.park at_c (update_self ..) (fun l d theirs _ => take_others free l d theirs) (.inr (.inl rfl))
    · exact fun k ne => Table.modify_of_ne _ _ ne
    · exact .inr (.inr rfl)
    · exact nofun
  | wakeElsewhere at_p =>
    exact held.tidied .out at_c (fun _ => nofun) (drop_others (held.own at_t at_p rfl)) nofun nofun

end Sound

end Xv6.Sleep
