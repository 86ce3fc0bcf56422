import Xv6.Sleep.Exclusion

namespace Xv6.Sleep

open Sched Function Transition

variable {m : Meeting} {s s' : State} {c d : Nat} {t u : Thread} {p q : Slot} {a : Action} {l : Lock}

namespace Sound

theorem reseat (held : Sound m s) (cpu : Cpu) {lock : Lock → Option Nat} {ptable : Table}
    (own : ∀ t l, State.thread { s with cpu := update s.cpu c cpu } c = some t → m.Holds (s.pc t) l → lock l = some c)
    (scheduling : cpu = .scheduling → lock .ptable = some c)
    (others : ∀ l d, s.lock l = some d → d ≠ c → lock l = some d)
    (seats : ∀ k, cpu = .running k ∨ cpu = .handling (some k) →
      (ptable k).state = .running ∧ (s.Seats c k ∨ ∀ d, ¬ s.Seats d k))
    (stays : ∀ k, s.Seats c k → cpu = .running k ∨ cpu = .handling (some k))
    (goes : ∀ k, (s.ptable k).state = .running → (ptable k).state = .running)
    (suspended : ∀ k, cpu = .handling (some k) → (s.pc (.proc k)).Open)
    (quiet : s.pc (.handler c) = .out ∨ ∃ under, cpu = .handling under)
    (chans : ∀ k, (ptable k).chan = (s.ptable k).chan) :
    Sound m { s with lock := lock, ptable := ptable, cpu := update s.cpu c cpu } where
  holds d t l at_d holds := by
    by_cases eq : d = c
    · subst eq
      exact own t l at_d holds
    · rw [thread_seat eq] at at_d
      exact others l d (held.holds d t l at_d holds) eq
  scheduling d at_d := by
    by_cases eq : d = c
    · subst eq
      simp only [update_self] at at_d
      exact scheduling at_d
    · simp only [update_of_ne eq] at at_d
      exact others _ d (held.scheduling d at_d) eq
  alone d e k at_d at_e := by
    by_cases eq : d = c <;> by_cases eq' : e = c
    · exact eq.trans eq'.symm
    · subst eq
      rw [seats_seat eq'] at at_e
      simp only [State.Seats, update_self] at at_d
      rcases (seats k at_d).2 with here | nowhere
      · exact held.alone d e k here at_e
      · exact absurd at_e (nowhere e)
    · subst eq'
      rw [seats_seat eq] at at_d
      simp only [State.Seats, update_self] at at_e
      rcases (seats k at_e).2 with here | nowhere
      · exact held.alone d e k at_d here
      · exact absurd at_d (nowhere d)
    · exact held.alone d e k ((seats_seat eq).mp at_d) ((seats_seat eq').mp at_e)
  running d k at_d := by
    by_cases eq : d = c
    · subst eq
      simp only [State.Seats, update_self] at at_d
      exact (seats k at_d).1
    · exact goes k (held.running d k ((seats_seat eq).mp at_d))
  suspended d k under := by
    by_cases eq : d = c
    · subst eq
      simp only [update_self] at under
      exact suspended k under
    · simp only [update_of_ne eq] at under
      exact held.suspended d k under
  parked k := by
    rcases held.parked k with ⟨d, at_d⟩ | parked
    · left
      by_cases eq : d = c
      · subst eq
        exact ⟨d, by simpa only [State.Seats, update_self] using stays k at_d⟩
      · exact ⟨d, (seats_seat eq).mpr at_d⟩
    · exact .inr parked
  quiet d := by
    by_cases eq : d = c
    · subst eq
      simpa only [update_self] using quiet
    · simpa only [update_of_ne eq] using held.quiet d
  chan k := by
    simp only [chans k]
    exact held.chan k
  back := held.back
  two := held.two

theorem quiet_of (held : Sound m s) (away : ∀ under, s.cpu c ≠ .handling under) : s.pc (.handler c) = .out :=
  (held.quiet c).resolve_right fun ⟨under, handles⟩ => away under handles

theorem handler_own {under : Option Slot} {lock : Lock → Option Nat} (out : s.pc (.handler c) = .out) (t : Thread) (l : Lock)
    (at_c : State.thread { s with cpu := update s.cpu c (.handling under) } c = some t) (holds : m.Holds (s.pc t) l) :
    lock l = some c := by
  simp only [State.thread, update_self, Option.some.injEq] at at_c
  subst at_c
  rw [out] at holds
  exact holds.elim

theorem enters (held : Sound m s) (idle : s.cpu c = .idle) (free : s.lock .ptable = none) :
    Sound m { s with lock := update s.lock .ptable (some c), cpu := update s.cpu c .scheduling } := by
  apply held.reseat .scheduling
  · intro t l at_c
    simp [State.thread] at at_c
  · exact fun _ => update_self ..
  · exact fun l d theirs _ => take_others free l d theirs
  · intro k seats
    rcases seats with same | same
    · cases same
    · cases same
  · exact fun k seats => by simp [State.Seats, idle] at seats
  · exact fun _ => id
  · intro k same
    cases same
  · exact .inl (held.quiet_of (by simp [idle]))
  · exact fun _ => rfl

theorem leaves (held : Sound m s) (at_c : s.cpu c = .scheduling) :
    Sound m { s with lock := update s.lock .ptable none, cpu := update s.cpu c .idle } := by
  apply held.reseat .idle
  · intro t l at_c
    simp [State.thread] at at_c
  · intro same
    cases same
  · exact drop_others (held.scheduling c at_c)
  · intro k seats
    rcases seats with same | same
    · cases same
    · cases same
  · exact fun k seats => by simp [State.Seats, at_c] at seats
  · exact fun _ => id
  · intro k same
    cases same
  · exact .inl (held.quiet_of (by simp [at_c]))
  · exact fun _ => rfl

theorem dispatched (held : Sound m s) (at_c : s.cpu c = .scheduling)
    (runnable : (s.ptable p).state = .runnable) :
    Sound m { s with
      ptable := s.ptable.modify p fun q => { q with state := .running }, cpu := update s.cpu c (.running p) } := by
  have unseated : ∀ d, ¬ s.Seats d p := by
    intro d at_d
    have stuck := (held.running d p at_d).symm.trans runnable
    cases stuck
  apply held.reseat (.running p)
  · intro t l at_t holds
    simp only [State.thread, update_self, Option.some.injEq] at at_t
    subst at_t
    have up := (held.parked p).resolve_left (not_exists.mpr unseated)
    have eq : l = .ptable := by
      rcases up with at_p | at_p | ⟨back, at_p⟩ <;> rw [at_p] at holds <;> exact holds
    rw [eq]
    exact held.scheduling c at_c
  · intro same
    cases same
  · exact fun _ _ theirs _ => theirs
  · intro k here
    have eq : p = k := by simpa using here
    subst eq
    rw [Table.modify_self]
    exact ⟨rfl, .inr unseated⟩
  · exact fun k seats => by simp [State.Seats, at_c] at seats
  · intro k runs
    by_cases eq : k = p
    · subst eq
      rw [Table.modify_self]
    · rwa [Table.modify_of_ne _ _ eq]
  · intro k same
    cases same
  · exact .inl (held.quiet_of (by simp [at_c]))
  · intro k
    by_cases eq : k = p
    · subst eq
      rw [Table.modify_self]
    · rw [Table.modify_of_ne _ _ eq]

theorem interrupted_idle (held : Sound m s) (at_c : s.cpu c = .idle) :
    Sound m { s with cpu := update s.cpu c (.handling none) } := by
  apply held.reseat (.handling none)
  · exact handler_own (held.quiet_of (by simp [at_c]))
  · exact nofun
  · exact fun _ _ theirs _ => theirs
  · exact fun k here => by simp at here
  · exact fun k seats => by simp [State.Seats, at_c] at seats
  · exact fun _ => id
  · exact fun k here => by simp at here
  · exact .inr ⟨none, rfl⟩
  · exact fun _ => rfl

theorem interrupted (held : Sound m s) (at_c : s.cpu c = .running p) (opened : s.Open p) :
    Sound m { s with cpu := update s.cpu c (.handling (some p)) } := by
  apply held.reseat (.handling (some p))
  · exact handler_own (held.quiet_of (by simp [at_c]))
  · exact nofun
  · exact fun _ _ theirs _ => theirs
  · intro k here
    have eq : p = k := by simpa using here
    subst eq
    exact ⟨held.running c p (.inl at_c), .inl (.inl at_c)⟩
  · exact fun k seats => .inr (by simpa [State.Seats, at_c] using seats)
  · exact fun _ => id
  · intro k here
    have eq : p = k := by simpa using here
    subst eq
    exact opened
  · exact .inr ⟨some p, rfl⟩
  · exact fun _ => rfl

theorem returned (held : Sound m s) {under : Option Slot} (at_c : s.cpu c = .handling under) (done : s.pc
    (.handler c) = .out) :
    Sound m { s with cpu := update s.cpu c (under.elim .idle .running) } := by
  apply held.reseat (under.elim .idle .running)
  · intro t l at_t holds
    cases under with
    | none => simp [State.thread] at at_t
    | some p =>
      simp only [State.thread, update_self, Option.elim_some, Option.some.injEq] at at_t
      subst at_t
      exact absurd holds (open_holds (held.suspended c p at_c))
  · exact fun h => by cases under <;> cases h
  · exact fun _ _ theirs _ => theirs
  · intro k here
    cases under with
    | none => simp at here
    | some p =>
      have eq : p = k := by simpa using here
      subst eq
      exact ⟨held.running c p (.inr at_c), .inl (.inr at_c)⟩
  · intro k seats
    have eq : under = some k := by simpa [State.Seats, at_c] using seats
    subst eq
    exact .inl rfl
  · exact fun _ => id
  · exact fun k here => by cases under <;> cases here
  · exact .inl done
  · exact fun _ => rfl

theorem killed (held : Sound m s) (k : Slot) :
    Sound m { s with ptable := s.ptable.modify k .kill } := by
  apply held.retable
  · intro j runs
    by_cases eq : j = k
    · subst eq
      rw [Table.modify_self]
      exact kill_state runs
    · rwa [Table.modify_of_ne _ _ eq]
  · intro j
    by_cases eq : j = k
    · subst eq
      rw [Table.modify_self]
      rfl
    · rw [Table.modify_of_ne _ _ eq]

theorem step (held : Sound m s) (taken : m.Takes s a s') : Sound m s' := by
  cases m.step_cases taken with
  | enter c idle free => exact held.enters idle free
  | leave c at_c => exact held.leaves at_c
  | dispatch c p at_c runnable => exact held.dispatched at_c runnable
  | interruptIdle c at_c => exact held.interrupted_idle at_c
  | interrupt c p at_c opened => exact held.interrupted at_c opened
  | iret c under at_c done => exact held.returned at_c done
  | thread c t move s' at_c moved => exact held.moved at_c moved
  | proc c p nap s' at_c napped => exact held.napped at_c napped
  | wakeupOther chan => exact held.retable (fun _ => wakeup_state) (fun _ => wakeup_chan)
  | kill pid k => exact held.killed k
  | killNone pid => exact held

theorem start (live : Slot → Bool) (condition : Bool) : Sound m (Meeting.start live condition) where
  holds c t l at_c := by cases at_c
  scheduling c at_c := by cases at_c
  alone c d p at_c := by rcases at_c with h | h <;> cases h
  running c p at_c := by rcases at_c with h | h <;> cases h
  suspended c p under := by cases under
  parked p := .inr (.inr (.inr ⟨.out, rfl⟩))
  quiet c := .inl rfl
  chan p := .inl rfl
  back p back at_p := by
    cases at_p
    exact .inl rfl
  two p at_p := by cases at_p

end Sound

end Xv6.Sleep
