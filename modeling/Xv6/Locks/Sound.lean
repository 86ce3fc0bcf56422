import Xv6.Locks.Invariant

namespace Xv6.Locks

open Function Transition

/-- The process that a thread is the kernel thread of. -/
def Thread.proc? : Thread → Option Nat
  | .scheduler _ => none
  | .proc p => some p

/-- `lk->cpu` of a lock that is held is still to be set or has been cleared already. -/
def Context.Busy (x : Context) (l : Lock) : Prop :=
  x.frame.todo.head? = some (.setCpu l) ∨ x.frame.todo.head? = some (.unlock l)

structure Seated (s : State) : Prop where
  seat : ∀ c d, (s.cpu c).thread = .scheduler d → d = c
  proc : ∀ c, (s.cpu c).proc = (s.cpu c).thread.proc?
  alone : ∀ c d p, (s.cpu c).thread = .proc p → (s.cpu d).thread = .proc p → c = d
  awake : ∀ c p, (s.cpu c).thread = .proc p → s.parked p = false
  parked : ∀ p, s.parked p = true → (s.context (.proc p)).Parked
  resting : ∀ c, (s.cpu c).thread ≠ .scheduler c →
    (s.context (.scheduler c)).frame.todo = [] ∧ (s.context (.scheduler c)).saved = []

structure Locking (s : State) : Prop where
  locked : ∀ l, s.locked l = true ↔ ∃ c, l ∈ (s.cpu c).held
  exclusive : ∀ l c d, l ∈ (s.cpu c).held → l ∈ (s.cpu d).held → c = d
  holder : ∀ l c, s.holder l = some c → l ∈ (s.cpu c).held
  holds : ∀ l c, l ∈ (s.cpu c).held → s.holder l = some c ∨ (s.running c).Busy l
  cleared : ∀ l c, (s.running c).frame.todo.head? = some (.unlock l) → s.holder l = none

structure Sound (s : State) : Prop where
  cpus : ∀ c, (s.cpu c).Sound (s.running c)
  seated : Seated s
  locking : Locking s

variable {s s' : State} {c d p : Nat} {x : Context} {cpu : Cpu} {op : Op} {rest : List Op} {v : View} {l m : Lock}
  {locked : Lock → Bool} {holder : Lock → Option Nat} {a : Action}

theorem sound_start : Sound State.start := by
  refine ⟨?_, ⟨?_, ?_, nofun, nofun, ?_, ?_⟩, ⟨?_, nofun, nofun, nofun, nofun⟩⟩
  · intro c
    exact ⟨rfl, nofun, List.nodup_nil, trivial, trivial, nofun, nofun, nofun, nofun⟩
  · intro c d same
    exact (Thread.scheduler.inj same).symm
  · intro c
    rfl
  · intro p _
    exact ⟨Or.inl rfl, nofun, nofun⟩
  · intro c away
    exact absurd rfl away
  · intro l
    constructor
    · intro locked
      cases locked
    · rintro ⟨c, member⟩
      cases member

/-- The state after a step of the thread that CPU `c` runs. -/
def State.after (s : State) (c : Nat) (v : View) : State :=
  { s with
    cpu := update s.cpu c v.cpu
    context := update s.context (s.cpu c).thread v.context
    locked := v.locked
    holder := v.holder }

theorem Cpu.Sound.busy_own (sound : cpu.Sound x) (busy : x.Busy l) : l ∈ cpu.held := by
  have facts := sound.facts
  cases todo : x.frame.todo with
  | nil =>
    rw [Context.Busy, todo] at busy
    rcases busy with first | first
    · cases first
    · cases first
  | cons op rest =>
    rw [todo] at facts
    rw [Context.Busy, todo] at busy
    rcases busy with first | first
    · cases first
      exact facts.1
    · cases first
      exact facts.1

theorem Seated.apart (seated : Seated s) (ne : d ≠ c) : (s.cpu d).thread ≠ (s.cpu c).thread := by
  intro same
  cases here : (s.cpu d).thread with
  | scheduler e =>
    have first := seated.seat d e here
    have second := seated.seat c e (same ▸ here)
    exact ne (first.symm.trans second)
  | proc p => exact ne (seated.alone d c p here (same ▸ here))

theorem Seated.after_of_ne (seated : Seated s) (ne : d ≠ c) : (s.after c v).running d = s.running d := by
  simp only [State.running, State.after, update_of_ne ne, update_of_ne (seated.apart ne)]

theorem Locking.congr (locking : Locking s) (held : ∀ d, (s'.cpu d).held = (s.cpu d).held) (locked : s'.locked = s.locked)
    (holder : s'.holder = s.holder) (others : ∀ d, d ≠ c → s'.running d = s.running d)
    (quiet : ∀ l, ¬(s.running c).Busy l) (next : ∀ l, (s'.running c).frame.todo.head? ≠ some (.unlock l)) :
    Locking s' := by
  constructor
  · intro l
    simp only [held, locked]
    exact locking.locked l
  · intro l d e
    simp only [held]
    exact locking.exclusive l d e
  · intro l d
    simp only [held, holder]
    exact locking.holder l d
  · intro l d member
    rw [held] at member
    rw [holder]
    rcases locking.holds l d member with known | busy
    · exact Or.inl known
    · by_cases here : d = c
      · subst here
        exact absurd busy (quiet l)
      · rw [others d here]
        exact Or.inr busy
  · intro l d first
    rw [holder]
    by_cases here : d = c
    · subst here
      exact absurd first (next l)
    · rw [others d here] at first
      exact locking.cleared l d first

section After

variable (thread : v.cpu.thread = (s.cpu c).thread)
include thread

theorem after_self : (s.after c v).running c = v.context := by
  simp only [State.running, State.after, update_self, thread]

theorem after_thread (d : Nat) : ((s.after c v).cpu d).thread = (s.cpu d).thread := by
  by_cases here : d = c
  · subst here
    simp only [State.after, update_self, thread]
  · simp only [State.after, update_of_ne here]

theorem Seated.after (seated : Seated s) (proc : v.cpu.proc = (s.cpu c).proc) : Seated (s.after c v) := by
  have threads := after_thread thread
  constructor
  · intro d e
    rw [threads]
    exact seated.seat d e
  · intro d
    rw [threads, ← seated.proc d]
    by_cases here : d = c
    · subst here
      simp only [State.after, update_self, proc]
    · simp only [State.after, update_of_ne here]
  · intro d e p
    rw [threads, threads]
    exact seated.alone d e p
  · intro d p
    rw [threads]
    exact seated.awake d p
  · intro p waits
    have other : Thread.proc p ≠ (s.cpu c).thread := by
      intro same
      have awake := seated.awake c p same.symm
      rw [show s.parked p = true from waits] at awake
      cases awake
    simp only [State.after, update_of_ne other]
    exact seated.parked p waits
  · intro d away
    rw [threads] at away
    have other : Thread.scheduler d ≠ (s.cpu c).thread := by
      intro same
      have here := seated.seat c d same.symm
      subst here
      exact away same.symm
    simp only [State.after, update_of_ne other]
    exact seated.resting d away

theorem Sound.after (sound : Sound s) (proc : v.cpu.proc = (s.cpu c).proc) (own : v.cpu.Sound v.context)
    (locking : Locking (s.after c v)) : Sound (s.after c v) := by
  refine ⟨?_, sound.seated.after thread proc, locking⟩
  intro d
  by_cases here : d = c
  · subst here
    rw [after_self thread]
    simp only [State.after, update_self]
    exact own
  · rw [sound.seated.after_of_ne here]
    simp only [State.after, update_of_ne here]
    exact sound.cpus d

theorem Locking.xchg (sound : Sound s) (free : s.locked l ≠ true) (held : v.cpu.held = l :: (s.cpu c).held)
    (locked : v.locked = update s.locked l true) (holder : v.holder = s.holder) (quiet : ∀ m, ¬(s.running c).Busy m)
    (next : v.context.frame.todo.head? = some (.setCpu l)) : Locking (s.after c v) := by
  have nobody : ∀ d, l ∉ (s.cpu d).held := fun d member => free ((sound.locking.locked l).mpr ⟨d, member⟩)
  have own : ((s.after c v).cpu c).held = l :: (s.cpu c).held := by simp only [State.after, update_self, held]
  have others : ∀ d, d ≠ c → ((s.after c v).cpu d).held = (s.cpu d).held := by
    intro d ne
    simp only [State.after, update_of_ne ne]
  have grows : ∀ m d, m ∈ ((s.after c v).cpu d).held ↔ (m = l ∧ d = c) ∨ m ∈ (s.cpu d).held := by
    intro m d
    by_cases here : d = c
    · subst here
      rw [own, List.mem_cons]
      tauto
    · rw [others d here]
      tauto
  have sameHolder : (s.after c v).holder = s.holder := holder
  have sameLocked : (s.after c v).locked = update s.locked l true := locked
  constructor
  · intro m
    simp only [grows, sameLocked]
    by_cases this : m = l
    · subst this
      rw [update_self]
      exact ⟨fun _ => ⟨c, Or.inl ⟨rfl, rfl⟩⟩, fun _ => rfl⟩
    · rw [update_of_ne this, sound.locking.locked m]
      simp only [this, false_and, false_or]
  · intro m d e first second
    rw [grows] at first second
    rcases first with ⟨rfl, rfl⟩ | first
    · rcases second with ⟨-, rfl⟩ | second
      · rfl
      · exact absurd second (nobody e)
    · rcases second with ⟨rfl, rfl⟩ | second
      · exact absurd first (nobody d)
      · exact sound.locking.exclusive m d e first second
  · intro m d known
    rw [grows]
    exact Or.inr (sound.locking.holder m d (sameHolder ▸ known))
  · intro m d member
    rw [sameHolder]
    rcases (grows m d).mp member with ⟨rfl, rfl⟩ | member
    · rw [after_self thread]
      exact Or.inr (Or.inl next)
    · rcases sound.locking.holds m d member with known | busy
      · exact Or.inl known
      · by_cases here : d = c
        · subst here
          exact absurd busy (quiet m)
        · rw [sound.seated.after_of_ne here]
          exact Or.inr busy
  · intro m d first
    rw [sameHolder]
    by_cases here : d = c
    · subst here
      rw [after_self thread, next] at first
      cases first
    · rw [sound.seated.after_of_ne here] at first
      exact sound.locking.cleared m d first

theorem Locking.assign (sound : Sound s) (mine : l ∈ (s.cpu c).held) (held : v.cpu.held = (s.cpu c).held)
    (locked : v.locked = s.locked) {value : Option Nat} (holder : v.holder = update s.holder l value)
    (either : value = some c ∨ value = none ∧ v.context.frame.todo.head? = some (.unlock l))
    (quiet : ∀ m, m ≠ l → ¬(s.running c).Busy m)
    (next : ∀ m, v.context.frame.todo.head? = some (.unlock m) → m = l ∧ value = none) : Locking (s.after c v) := by
  have all : ∀ d, ((s.after c v).cpu d).held = (s.cpu d).held := by
    intro d
    by_cases here : d = c
    · subst here
      simp only [State.after, update_self, held]
    · simp only [State.after, update_of_ne here]
  have sameLocked : (s.after c v).locked = s.locked := locked
  have newHolder : (s.after c v).holder = update s.holder l value := holder
  constructor
  · intro m
    simp only [all, sameLocked]
    exact sound.locking.locked m
  · intro m d e
    simp only [all]
    exact sound.locking.exclusive m d e
  · intro m d
    simp only [all, newHolder]
    by_cases this : m = l
    · subst this
      rw [update_self]
      intro known
      rcases either with same | ⟨none, -⟩
      · rw [same] at known
        cases known
        exact mine
      · rw [none] at known
        cases known
    · rw [update_of_ne this]
      exact sound.locking.holder m d
  · intro m d member
    rw [all] at member
    rw [newHolder]
    by_cases this : m = l
    · subst this
      have here := sound.locking.exclusive m d c member mine
      subst here
      rw [update_self, after_self thread]
      rcases either with same | ⟨-, first⟩
      · exact Or.inl same
      · exact Or.inr (Or.inr first)
    · rw [update_of_ne this]
      rcases sound.locking.holds m d member with known | busy
      · exact Or.inl known
      · by_cases here : d = c
        · subst here
          exact absurd busy (quiet m this)
        · rw [sound.seated.after_of_ne here]
          exact Or.inr busy
  · intro m d first
    rw [newHolder]
    by_cases here : d = c
    · subst here
      rw [after_self thread] at first
      rcases next m first with ⟨rfl, none⟩
      rw [update_self, none]
    · rw [sound.seated.after_of_ne here] at first
      have free := sound.locking.cleared m d first
      have this : m ≠ l := by
        rintro rfl
        exact here (sound.locking.exclusive m d c ((sound.cpus d).busy_own (Or.inr first)) mine)
      rw [update_of_ne this]
      exact free

theorem Locking.unlock (sound : Sound s) (first : (s.running c).frame.todo.head? = some (.unlock l))
    (held : v.cpu.held = (s.cpu c).held.erase l) (locked : v.locked = update s.locked l false)
    (holder : v.holder = s.holder) (next : ∀ m, v.context.frame.todo.head? ≠ some (.unlock m)) :
    Locking (s.after c v) := by
  have mine := (sound.cpus c).busy_own (Or.inr first)
  have own : ((s.after c v).cpu c).held = (s.cpu c).held.erase l := by simp only [State.after, update_self, held]
  have others : ∀ d, d ≠ c → ((s.after c v).cpu d).held = (s.cpu d).held := by
    intro d ne
    simp only [State.after, update_of_ne ne]
  have shrinks : ∀ m d, m ∈ ((s.after c v).cpu d).held ↔ m ≠ l ∧ m ∈ (s.cpu d).held := by
    intro m d
    by_cases here : d = c
    · subst here
      rw [own, (sound.cpus d).nodup.mem_erase_iff]
    · rw [others d here]
      constructor
      · intro member
        refine ⟨?_, member⟩
        rintro rfl
        exact here (sound.locking.exclusive m d c member mine)
      · exact And.right
  have sameHolder : (s.after c v).holder = s.holder := holder
  have sameLocked : (s.after c v).locked = update s.locked l false := locked
  constructor
  · intro m
    simp only [shrinks, sameLocked]
    by_cases this : m = l
    · subst this
      rw [update_self]
      constructor
      · intro locked
        cases locked
      · rintro ⟨d, ne, -⟩
        exact absurd rfl ne
    · rw [update_of_ne this, sound.locking.locked m]
      simp only [ne_eq, this, not_false_eq_true, true_and]
  · intro m d e first second
    exact sound.locking.exclusive m d e ((shrinks m d).mp first).2 ((shrinks m e).mp second).2
  · intro m d known
    rw [sameHolder] at known
    refine (shrinks m d).mpr ⟨?_, sound.locking.holder m d known⟩
    rintro rfl
    rw [sound.locking.cleared m c first] at known
    cases known
  · intro m d member
    rcases (shrinks m d).mp member with ⟨ne, member⟩
    rw [sameHolder]
    rcases sound.locking.holds m d member with known | busy
    · exact Or.inl known
    · by_cases here : d = c
      · subst here
        rcases busy with setting | unlocking
        · rw [first] at setting
          cases setting
        · rw [first] at unlocking
          cases unlocking
          exact absurd rfl ne
      · rw [sound.seated.after_of_ne here]
        exact Or.inr busy
  · intro m d ahead
    rw [sameHolder]
    by_cases here : d = c
    · subst here
      rw [after_self thread] at ahead
      exact absurd ahead (next m)
    · rw [sound.seated.after_of_ne here] at ahead
      exact sound.locking.cleared m d ahead

end After

end Xv6.Locks
