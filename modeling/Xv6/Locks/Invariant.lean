import Xv6.Locks.Spinlock

namespace Xv6.Locks

open Function Transition

/-- How a step changes `ncli` against the number of locks that the CPU holds. -/
def Op.weight : Op → Int
  | push => -1
  | pop => 1
  | xchg _ => 1
  | unlock _ => -1
  | _ => 0

/-- The calls of `pushcli` that the rest of the code undoes or turns into locks. -/
def pending : List Op → Int
  | [] => 0
  | op :: rest => op.weight + pending rest

/-- The rest of the code never has undone more than was done. Only `swtch` is before `restore`, and `lk->cpu` is cleared
    before a lock is given up. -/
def Level : List Op → Prop
  | [] => True
  | op :: rest =>
    0 ≤ pending (op :: rest) ∧ (rest.head? = some .restore → op = .swtch) ∧
      (∀ l, rest.head? = some (.unlock l) → op = .clearCpu l) ∧ Level rest

/-- What the rest of the code relies on: the locks that the CPU holds, whether the call was in order, the local variables
    and whether interrupts are on. -/
def Facts : List Op → List Lock → Bool → Bool → Bool → Bool → Prop
  | [], _, _, _, _, _ => True
  | .readeflags :: rest, held, g, _, r, i => Facts rest held g i r i
  | .push :: rest, held, g, e, r, i => e = i ∧ Facts rest held g e r false
  | .pop :: rest, held, g, e, r, _ => ∀ i, Facts rest held g e r i
  | .readProc :: rest, held, g, e, r, i => 0 < pending rest ∧ Facts rest held g e r i
  | .readLocked l :: rest, held, g, e, _, i => ∀ r, (l ∈ held → r = true) → Facts rest held g e r i
  | .readCpu l :: rest, held, g, e, r, i =>
    0 < pending rest ∧ (l ∈ held → r = true) ∧ Facts rest held g e (decide (l ∈ held)) i
  | .failIf b :: rest, held, g, e, r, i => (g = true → r ≠ b) ∧ (r ≠ b → Facts rest held g e r i)
  | .xchg l :: rest, held, g, e, r, i => l ∉ held ∧ rest.head? = some (.setCpu l) ∧ Facts rest (l :: held) g e r i
  | .setCpu l :: rest, held, g, e, r, i => l ∈ held ∧ Facts rest held g e r i
  | .clearCpu l :: rest, held, g, e, r, i => l ∈ held ∧ rest.head? = some (.unlock l) ∧ Facts rest held g e r i
  | .unlock l :: rest, held, g, e, r, i => l ∈ held ∧ Facts rest (held.erase l) g e r i
  | .checkNcli :: rest, held, g, e, r, i =>
    held ≠ [] ∧ pending rest = 0 ∧ (g = true → held.length = 1) ∧ (held.length = 1 → Facts rest held g e r i)
  | .checkIf :: rest, held, g, e, r, i => held ≠ [] ∧ Facts rest held g e r i
  | .swtch :: rest, held, _, _, _, _ => held = [.ptable] ∧ rest = [.restore]
  | .restore :: rest, held, g, e, r, i => held = [.ptable] ∧ Facts rest held g e r i

variable {l : Lock} {held : List Lock} {g e r i : Bool} {f : Call}

theorem acquire_facts : Facts (acquire l) held (decide (l ∉ held)) e r i := by
  simp [acquire, holding, pushcli, popcli, Facts, pending, Op.weight]

theorem release_facts : Facts (release l) held (decide (l ∈ held)) e r i := by
  simp [release, holding, pushcli, popcli, Facts, pending, Op.weight]

theorem sched_facts : Facts sched held (decide (held = [.ptable])) e r i := by
  have only : Lock.ptable ∈ held → held ≠ [] ∧ (held = [.ptable] → held.length = 1) ∧
      (held.length = 1 → held ≠ [] ∧ held = [.ptable]) := by
    intro member
    refine ⟨List.ne_nil_of_mem member, fun same => by rw [same]; rfl, ?_⟩
    intro length
    rcases List.length_eq_one_iff.mp length with ⟨l, same⟩
    rw [same, List.mem_singleton] at member
    rw [same, member]
    exact ⟨List.cons_ne_nil _ _, rfl⟩
  have mine : held = [.ptable] → Lock.ptable ∈ held := fun same => by rw [same]; exact List.mem_singleton_self _
  simp [sched, myproc, holding, pushcli, popcli, Facts, pending, Op.weight]
  tauto

theorem code_facts (f : Call) : Facts f.code held (decide (f.Proper held)) e r i := by
  cases f with
  | acquire l => exact acquire_facts
  | release l => exact release_facts
  | myproc => simp [Call.code, myproc, pushcli, popcli, Facts, pending, Op.weight]
  | sched => exact sched_facts

theorem code_level (f : Call) : Level f.code ∧ pending f.code = 0 ∧ f.code.head? = some .readeflags := by
  cases f <;> simp [Call.code, acquire, release, sched, myproc, holding, pushcli, popcli, Level, pending, Op.weight]

/-- A frame that an interrupt has cut off: no lock was held, and none of the code was between `cli` and `sti`. -/
structure Frame.Suspended (f : Frame) : Prop where
  pending : pending f.todo = 0
  level : Level f.todo
  facts : Facts f.todo [] f.proper f.eflags f.r true

structure Cpu.Sound (cpu : Cpu) (x : Context) : Prop where
  count : cpu.ncli = cpu.held.length + pending x.frame.todo
  off : cpu.interrupts = true → cpu.ncli = 0
  nodup : cpu.held.Nodup
  level : Level x.frame.todo
  facts : Facts x.frame.todo cpu.held x.frame.proper x.frame.eflags x.frame.r cpu.interrupts
  saved : ∀ f ∈ x.saved, f.Suspended
  nested : ∀ b, x.nest = some b → 0 < cpu.ncli
  kept : ∀ p b, cpu.thread = .proc p → x.nest = some b → x.frame.todo.head? ≠ some .restore → cpu.intena = b
  stored : ∀ p b, cpu.thread = .proc p → x.nest = some b → x.frame.todo.head? = some .restore → x.intena = b

/-- A thread that waits for its dispatch, in `sched` or from its beginning. -/
structure Context.Parked (x : Context) : Prop where
  todo : x.frame.todo = [] ∨ x.frame.todo = [.restore]
  saved : ∀ f ∈ x.saved, f.Suspended
  kept : ∀ b, x.nest = some b → x.frame.todo = [.restore] ∧ x.intena = b

variable {c : Nat} {cpu : Cpu} {x : Context} {op : Op} {rest : List Op} {v : View}
  {locked : Lock → Bool} {holder : Lock → Option Nat}

theorem pending_cons (op : Op) (rest : List Op) : pending (op :: rest) = op.weight + pending rest := rfl

theorem Cpu.Sound.next (sound : cpu.Sound { x with frame := { x.frame with todo := op :: rest } })
    (weight : op.weight = 0) (goes : op ≠ .swtch) (other : op ≠ .restore)
    (facts : Facts rest cpu.held x.frame.proper e r cpu.interrupts) :
    cpu.Sound { x with frame := ⟨rest, e, r, x.frame.proper⟩ } := by
  have plain : rest.head? ≠ some .restore := fun first => goes (sound.level.2.1 first)
  constructor
  · have count := sound.count
    dsimp only at count ⊢
    rw [pending_cons, weight] at count
    omega
  · exact sound.off
  · exact sound.nodup
  · exact sound.level.2.2.2
  · exact facts
  · exact sound.saved
  · exact sound.nested
  · intro p b here nest _
    exact sound.kept p b here nest fun first => other (Option.some.inj first)
  · intro p b _ _ first
    exact absurd first plain

section Instructions

theorem Cpu.Sound.plain (sound : cpu.Sound { x with frame := { x.frame with todo := op :: rest } }) (goes : op ≠ .swtch) :
    rest.head? ≠ some .restore :=
  fun first => goes (sound.level.2.1 first)

theorem Cpu.Sound.kept_before (sound : cpu.Sound { x with frame := { x.frame with todo := op :: rest } })
    (other : op ≠ .restore) (p : Nat) (b : Bool) (here : cpu.thread = .proc p) (nest : x.nest = some b) : cpu.intena = b :=
  sound.kept p b here nest fun first => other (Option.some.inj first)

theorem Cpu.Sound.count_before (sound : cpu.Sound { x with frame := { x.frame with todo := op :: rest } }) :
    cpu.ncli = cpu.held.length + (op.weight + pending rest) := sound.count

theorem Cpu.Sound.push (sound : cpu.Sound { x with frame := { x.frame with todo := .push :: rest } }) :
    Cpu.Sound
      { cpu with
        interrupts := false
        intena := if cpu.ncli = 0 then x.frame.eflags else cpu.intena
        ncli := cpu.ncli + 1 }
      { x with
        frame := { x.frame with todo := rest }
        nest := if cpu.ncli = 0 then some cpu.interrupts else x.nest } := by
  have count := sound.count_before
  have positive := sound.level.1
  rw [pending_cons] at positive
  refine ⟨?_, ?_, sound.nodup, sound.level.2.2.2, sound.facts.2, sound.saved, ?_, ?_, ?_⟩
  · dsimp only [Op.weight] at count ⊢
    omega
  · intro interrupts
    cases interrupts
  · intro b nest
    dsimp only [Op.weight] at count positive ⊢
    omega
  · intro p b here nest _
    dsimp only at nest ⊢
    by_cases outer : cpu.ncli = 0
    · rw [if_pos outer] at nest ⊢
      exact sound.facts.1.trans (Option.some.inj nest)
    · rw [if_neg outer] at nest ⊢
      exact sound.kept_before nofun p b here nest
  · intro p b _ _ first
    exact absurd first (sound.plain nofun)

theorem Cpu.Sound.pop (sound : cpu.Sound { x with frame := { x.frame with todo := .pop :: rest } })
    (off : cpu.interrupts = false) :
    Cpu.Sound
      { cpu with
        ncli := cpu.ncli - 1
        interrupts := if cpu.ncli - 1 = 0 ∧ cpu.intena = true then true else cpu.interrupts }
      { x with
        frame := { x.frame with todo := rest }
        nest := if cpu.ncli - 1 = 0 then none else x.nest } := by
  have count := sound.count_before
  refine ⟨?_, ?_, sound.nodup, sound.level.2.2.2, sound.facts _, sound.saved, ?_, ?_, ?_⟩
  · dsimp only [Op.weight] at count ⊢
    omega
  · intro interrupts
    dsimp only at interrupts ⊢
    split at interrupts
    · next done => exact done.1
    · rw [off] at interrupts
      cases interrupts
  · intro b nest
    dsimp only at nest ⊢
    split at nest
    · cases nest
    · have before := sound.nested b nest
      omega
  · intro p b here nest _
    dsimp only at nest
    split at nest
    · cases nest
    · exact sound.kept_before nofun p b here nest
  · intro p b _ _ first
    exact absurd first (sound.plain nofun)

theorem Cpu.Sound.alter {held : List Lock} {intena : Bool} {y : Context}
    (sound : cpu.Sound { x with frame := { x.frame with todo := op :: rest } }) (goes : op ≠ .swtch)
    (same : y = { x with frame := { x.frame with todo := rest } })
    (count : (held.length : Int) = cpu.held.length + op.weight) (nodup : held.Nodup)
    (facts : Facts rest held x.frame.proper x.frame.eflags x.frame.r cpu.interrupts)
    (kept : ∀ p b, cpu.thread = .proc p → x.nest = some b → intena = b) :
    Cpu.Sound { cpu with held := held, intena := intena } y := by
  subst same
  have before := sound.count_before
  refine ⟨?_, sound.off, nodup, sound.level.2.2.2, facts, sound.saved, sound.nested, ?_, ?_⟩
  · dsimp only
    omega
  · exact fun p b here nest _ => kept p b here nest
  · intro p b _ _ first
    exact absurd first (sound.plain goes)

end Instructions

theorem Cpu.Sound.run (sound : cpu.Sound { x with frame := { x.frame with todo := op :: rest } })
    (fine : op.panics cpu x.frame.r = false) (goes : op ≠ .swtch) (isLocked : ∀ l ∈ cpu.held, locked l = true)
    (isHolder : ∀ l, op = .readCpu l → (holder l = some c ↔ l ∈ cpu.held))
    (runs : op.run c ⟨cpu, { x with frame := { x.frame with todo := rest } }, locked, holder⟩ = some v) :
    v.cpu.Sound v.context ∧ v.cpu.thread = cpu.thread ∧ v.cpu.proc = cpu.proc ∧ v.context.frame.todo = rest := by
  have facts := sound.facts
  cases op with
  | readeflags =>
    cases runs
    exact ⟨sound.next rfl goes nofun facts, rfl, rfl, rfl⟩
  | push =>
    cases runs
    exact ⟨sound.push, rfl, rfl, rfl⟩
  | pop =>
    cases runs
    rw [Op.panics, Bool.or_eq_false_iff] at fine
    exact ⟨sound.pop fine.1, rfl, rfl, rfl⟩
  | readProc =>
    cases runs
    exact ⟨sound.next rfl goes nofun facts.2, rfl, rfl, rfl⟩
  | readLocked l =>
    cases runs
    exact ⟨sound.next rfl goes nofun (facts _ (isLocked l)), rfl, rfl, rfl⟩
  | readCpu l =>
    cases runs
    have read : (x.frame.r && decide (holder l = some c)) = decide (l ∈ cpu.held) := by
      rw [Bool.eq_iff_iff, Bool.and_eq_true, decide_eq_true_iff, decide_eq_true_iff, isHolder l rfl]
      exact ⟨And.right, fun member => ⟨facts.2.1 member, member⟩⟩
    refine ⟨sound.next rfl goes nofun ?_, rfl, rfl, rfl⟩
    dsimp only
    rw [read]
    exact facts.2.2
  | failIf b =>
    cases runs
    exact ⟨sound.next rfl goes nofun (facts.2 (beq_eq_false_iff_ne.mp fine)), rfl, rfl, rfl⟩
  | xchg l =>
    rw [Op.run] at runs
    split at runs
    · cases runs
    · cases runs
      refine ⟨sound.alter goes rfl ?_ (List.nodup_cons.mpr ⟨facts.1, sound.nodup⟩) facts.2.2 (sound.kept_before nofun),
        rfl, rfl, rfl⟩
      exact Int.natCast_succ _
  | setCpu l =>
    cases runs
    exact ⟨sound.next rfl goes nofun facts.2, rfl, rfl, rfl⟩
  | clearCpu l =>
    cases runs
    exact ⟨sound.next rfl goes nofun facts.2.2, rfl, rfl, rfl⟩
  | unlock l =>
    cases runs
    refine ⟨sound.alter goes rfl ?_ (sound.nodup.erase l) facts.2 (sound.kept_before nofun), rfl, rfl, rfl⟩
    have length := List.length_pos_of_mem facts.1
    dsimp only [Op.weight]
    rw [List.length_erase_of_mem facts.1]
    omega
  | checkNcli =>
    cases runs
    have one : cpu.held.length = 1 := by
      rw [Op.panics, Bool.or_eq_false_iff, decide_eq_false_iff_not, not_not] at fine
      have level := facts.2.1
      have count := sound.count_before
      dsimp only [Op.weight] at count
      omega
    exact ⟨sound.next rfl goes nofun (facts.2.2.2 one), rfl, rfl, rfl⟩
  | checkIf =>
    cases runs
    exact ⟨sound.next rfl goes nofun facts.2, rfl, rfl, rfl⟩
  | swtch => exact absurd rfl goes
  | restore =>
    cases runs
    exact ⟨sound.alter goes rfl (Int.add_zero _).symm sound.nodup facts.2 fun p b here nest => sound.stored p b here nest rfl,
      rfl, rfl, rfl⟩

end Xv6.Locks
