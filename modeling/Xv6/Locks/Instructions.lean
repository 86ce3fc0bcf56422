import Xv6.Locks.Sound

namespace Xv6.Locks

open Function Transition

variable {s s' : State} {c d p : Nat} {x : Context} {cpu : Cpu} {op : Op} {rest : List Op} {v : View} {l m : Lock}
  {locked : Lock → Bool} {holder : Lock → Option Nat} {a : Action}

theorem scheduler_ne_proc : Thread.scheduler c ≠ .proc p := nofun

theorem not_busy_of_nil (ready : x.frame.todo = []) (l : Lock) : ¬x.Busy l := by
  intro busy
  rw [Context.Busy, ready] at busy
  rcases busy with first | first
  · cases first
  · cases first

/-- The steps that leave `lk->cpu` and `lk->locked` apart. -/
def Op.assigns : Op → Bool
  | .setCpu _ | .clearCpu _ | .unlock _ => true
  | _ => false

theorem not_busy_of_cons (todo : x.frame.todo = op :: rest) (still : op.assigns = false ∨ ∃ m, op = .clearCpu m)
    (l : Lock) : ¬x.Busy l := by
  intro busy
  rw [Context.Busy, todo] at busy
  rcases busy with first | first
  · cases first
    rcases still with none | ⟨m, other⟩
    · cases none
    · cases other
  · cases first
    rcases still with none | ⟨m, other⟩
    · cases none
    · cases other

theorem Sound.exec (sound : Sound s) (todo : (s.running c).frame.todo = op :: rest) (goes : op ≠ .swtch)
    (fine : op.panics (s.cpu c) (s.running c).frame.r = false)
    (runs : op.run c ⟨s.cpu c, { s.running c with frame := { (s.running c).frame with todo := rest } }, s.locked, s.holder⟩ =
      some v) : Sound (s.after c v) := by
  have own := sound.cpus c
  have same : s.running c = { s.running c with frame := { (s.running c).frame with todo := op :: rest } } := by
    rw [← todo]
  have facts := own.facts
  have level := own.level
  rw [todo] at facts level
  rw [same] at own
  have isLocked : ∀ l ∈ (s.cpu c).held, s.locked l = true := fun l member => (sound.locking.locked l).mpr ⟨c, member⟩
  have isHolder : ∀ l, op = .readCpu l → (s.holder l = some c ↔ l ∈ (s.cpu c).held) := by
    rintro l rfl
    refine ⟨sound.locking.holder l c, fun member => ?_⟩
    rcases sound.locking.holds l c member with known | busy
    · exact known
    · exact absurd busy (not_busy_of_cons todo (Or.inl rfl) l)
  rcases own.run fine goes isLocked isHolder runs with ⟨after, thread, proc, next⟩
  apply sound.after thread proc after
  have nextUnlock : ∀ l, v.context.frame.todo.head? = some (.unlock l) → op = .clearCpu l := by
    intro l first
    rw [next] at first
    exact level.2.2.1 l first
  have quietStep : op.assigns = false → v.cpu.held = (s.cpu c).held → v.locked = s.locked → v.holder = s.holder →
      Locking (s.after c v) := by
    intro still held locked holder
    apply sound.locking.congr _ locked holder (fun d ne => sound.seated.after_of_ne ne) (not_busy_of_cons todo (Or.inl still))
    · intro l first
      rw [after_self thread] at first
      cases nextUnlock l first
      cases still
    · intro d
      by_cases here : d = c
      · subst here
        simp only [State.after, update_self, held]
      · simp only [State.after, update_of_ne here]
  cases op with
  | xchg l =>
    rw [Op.run] at runs
    split at runs
    · cases runs
    · next free =>
      cases runs
      exact .xchg thread sound free rfl rfl rfl (not_busy_of_cons todo (Or.inl rfl)) (next ▸ facts.2.1)
  | setCpu l =>
    cases runs
    refine .assign thread sound facts.1 rfl rfl rfl (Or.inl rfl) ?_ ?_
    · rintro m ne (first | first)
      · rw [todo] at first
        cases first
        exact ne rfl
      · rw [todo] at first
        cases first
    · intro m first
      cases nextUnlock m first
  | clearCpu l =>
    cases runs
    refine .assign thread sound facts.1 rfl rfl rfl (Or.inr ⟨rfl, next ▸ facts.2.1⟩) ?_ ?_
    · exact fun m _ => not_busy_of_cons todo (Or.inr ⟨l, rfl⟩) m
    · intro m first
      have this := nextUnlock m first
      cases this
      exact ⟨rfl, rfl⟩
  | unlock l =>
    cases runs
    refine .unlock thread sound (by rw [todo]; rfl) rfl rfl rfl ?_
    intro m first
    cases nextUnlock m first
  | swtch => exact absurd rfl goes
  | readeflags =>
    cases runs
    exact quietStep rfl rfl rfl rfl
  | push =>
    cases runs
    exact quietStep rfl rfl rfl rfl
  | pop =>
    cases runs
    exact quietStep rfl rfl rfl rfl
  | readProc =>
    cases runs
    exact quietStep rfl rfl rfl rfl
  | readLocked l =>
    cases runs
    exact quietStep rfl rfl rfl rfl
  | readCpu l =>
    cases runs
    exact quietStep rfl rfl rfl rfl
  | failIf b =>
    cases runs
    exact quietStep rfl rfl rfl rfl
  | checkNcli =>
    cases runs
    exact quietStep rfl rfl rfl rfl
  | checkIf =>
    cases runs
    exact quietStep rfl rfl rfl rfl
  | restore =>
    cases runs
    exact quietStep rfl rfl rfl rfl

theorem Sound.quiet (sound : Sound s) (busy : ∀ l, ¬(s.running c).Busy l) (thread : cpu.thread = (s.cpu c).thread)
    (proc : cpu.proc = (s.cpu c).proc) (held : cpu.held = (s.cpu c).held) (own : cpu.Sound x)
    (next : ∀ l, x.frame.todo.head? ≠ some (.unlock l)) : Sound (s.after c ⟨cpu, x, s.locked, s.holder⟩) := by
  refine sound.after (v := ⟨cpu, x, s.locked, s.holder⟩) thread proc own ?_
  refine sound.locking.congr (c := c) ?_ rfl rfl (fun d ne => sound.seated.after_of_ne ne) busy ?_
  · intro d
    by_cases here : d = c
    · subst here
      simp only [State.after, update_self, held]
    · simp only [State.after, update_of_ne here]
  · intro l
    rw [after_self (v := ⟨cpu, x, s.locked, s.holder⟩) thread]
    exact next l

theorem setRunning_after : s.setRunning c x = s.after c ⟨s.cpu c, x, s.locked, s.holder⟩ := by
  simp only [State.setRunning, State.after, update_eq_self]

theorem Sound.call (sound : Sound s) (ready : s.Ready c) (f : Call) :
    Sound (s.setRunning c { s.running c with
      frame := ⟨f.code, false, false, decide (f.Proper (s.cpu c).held)⟩ }) := by
  have own := sound.cpus c
  rcases code_level f with ⟨level, pending, first⟩
  rw [setRunning_after]
  refine sound.quiet (not_busy_of_nil ready) rfl rfl rfl ⟨?_, own.off, own.nodup, level, code_facts f, own.saved, own.nested, ?_, ?_⟩ ?_
  · have count := own.count
    rw [show (s.running c).frame.todo = [] from ready] at count
    rw [pending]
    exact count
  · intro p b here nest _
    apply own.kept p b here nest
    rw [show (s.running c).frame.todo = [] from ready]
    nofun
  · intro p b _ _ restores
    rw [first] at restores
    cases restores
  · intro l
    rw [first]
    nofun

theorem Cpu.Sound.interruptible (own : cpu.Sound x) (interrupts : cpu.interrupts = true) :
    cpu.held = [] ∧ pending x.frame.todo = 0 ∧ x.nest = none := by
  have zero := own.off interrupts
  have count := own.count
  have level : 0 ≤ pending x.frame.todo := by
    have level := own.level
    cases todo : x.frame.todo with
    | nil => exact Int.le_refl _
    | cons op rest =>
      rw [todo] at level
      exact level.1
  refine ⟨List.length_eq_zero_iff.mp (by omega), by omega, ?_⟩
  cases nest : x.nest with
  | none => rfl
  | some b =>
    have nested := own.nested b nest
    omega

theorem Cpu.Sound.off_of_held (own : cpu.Sound x) (held : cpu.held ≠ []) : cpu.interrupts = false := by
  cases interrupts : cpu.interrupts
  · rfl
  · exact absurd (own.interruptible interrupts).1 held

theorem Sound.interrupt (sound : Sound s) (interrupts : (s.cpu c).interrupts = true) :
    Sound (s.after c ⟨{ s.cpu c with interrupts := false },
      { s.running c with frame := .idle, saved := (s.running c).frame :: (s.running c).saved }, s.locked, s.holder⟩) := by
  have own := sound.cpus c
  rcases own.interruptible interrupts with ⟨held, zero, nest⟩
  have quiet : ∀ l, ¬(s.running c).Busy l := by
    intro l busy
    have mine := own.busy_own busy
    rw [held] at mine
    cases mine
  refine sound.quiet quiet rfl rfl rfl ⟨?_, nofun, own.nodup, trivial, trivial, ?_, own.nested, ?_, ?_⟩ nofun
  · have count := own.count
    rw [zero] at count
    exact count
  · intro f member
    rcases List.mem_cons.mp member with rfl | member
    · have facts := own.facts
      rw [held, interrupts] at facts
      exact ⟨zero, own.level, facts⟩
    · exact own.saved f member
  · intro p b _ some
    rw [show (s.running c).nest = none from nest] at some
    cases some
  · intro p b _ _ restores
    cases restores

theorem Sound.iret (sound : Sound s) (ready : s.Ready c) (held : (s.cpu c).held = []) {f : Frame} {saved : List Frame}
    (frames : (s.running c).saved = f :: saved) :
    Sound (s.after c ⟨{ s.cpu c with interrupts := true }, { s.running c with frame := f, saved := saved },
      s.locked, s.holder⟩) := by
  have own := sound.cpus c
  have suspended := own.saved f (frames ▸ List.mem_cons_self)
  have zero : (s.cpu c).ncli = 0 := by
    have count := own.count
    rw [show (s.running c).frame.todo = [] from ready, held] at count
    exact count
  have nest : ∀ b, (s.running c).nest ≠ some b := by
    intro b some
    have nested := own.nested b some
    omega
  refine sound.quiet (not_busy_of_nil ready) rfl rfl rfl ⟨?_, fun _ => zero, own.nodup, suspended.level, ?_, ?_, ?_, ?_, ?_⟩ ?_
  · dsimp only
    rw [held, suspended.pending, zero]
    rfl
  · dsimp only
    rw [held]
    exact suspended.facts
  · intro g member
    exact own.saved g (frames ▸ List.mem_cons_of_mem f member)
  · intro b some
    exact absurd some (nest b)
  · intro p b _ some
    exact absurd some (nest b)
  · intro p b _ some
    exact absurd some (nest b)
  · intro l first
    have facts := suspended.facts
    dsimp only at first
    cases todo : f.todo with
    | nil =>
      rw [todo] at first
      cases first
    | cons op rest =>
      rw [todo] at first facts
      cases first
      cases facts.1

theorem Sound.sti (sound : Sound s) (ready : s.Ready c) (thread : (s.cpu c).thread = .scheduler c)
    (held : (s.cpu c).held = []) :
    Sound (s.after c ⟨{ s.cpu c with interrupts := true }, s.running c, s.locked, s.holder⟩) := by
  have own := sound.cpus c
  have todo : (s.running c).frame.todo = [] := ready
  have zero : (s.cpu c).ncli = 0 := by
    have count := own.count
    rw [todo, held] at count
    exact count
  refine sound.quiet (not_busy_of_nil ready) rfl rfl rfl
    ⟨own.count, fun _ => zero, own.nodup, own.level, ?_, own.saved, own.nested, ?_, ?_⟩ ?_
  · rw [todo]
    trivial
  · intro p b here
    rw [show (s.cpu c).thread = .scheduler c from thread] at here
    cases here
  · intro p b here
    rw [show (s.cpu c).thread = .scheduler c from thread] at here
    cases here
  · intro l
    rw [todo]
    nofun

end Xv6.Locks
