import Xv6.Sched.Lifetimes

namespace Xv6.Sched

open Scheduler Transition Selection

variable {S : Scheduler} {s s' : State S.Frame} {a : Action} {c : Nat} {f : S.Frame}

def Scheduler.dispatched (S : Scheduler) (s : State S.Frame) : Action → Option Slot
  | .dispatch c =>
    match s.cpu c with
    | .picked f => some (S.proc f)
    | _ => none
  | _ => none

theorem picked_of_dispatched {p : Slot} (dispatched : S.dispatched s (.dispatch c) = some p) :
    ∃ f, s.cpu c = .picked f ∧ S.proc f = p := by
  cases at_c : s.cpu c with
  | picked f =>
    simp only [Scheduler.dispatched, at_c, Option.some.injEq] at dispatched
    exact ⟨f, rfl, dispatched⟩
  | _ => simp [Scheduler.dispatched, at_c] at dispatched

namespace Table

/-- `p` precedes `q` in the order of `ctime` as an `int`, with ties by the place in the table. -/
def Precedes (t : Table) (p q : Slot) : Prop :=
  (t p).ctime.toInt < (t q).ctime.toInt ∨ (t p).ctime.toInt = (t q).ctime.toInt ∧ p < q

instance (t : Table) (p q : Slot) : Decidable (t.Precedes p q) :=
  inferInstanceAs (Decidable ((t p).ctime.toInt < (t q).ctime.toInt ∨ (t p).ctime.toInt = (t q).ctime.toInt ∧ p < q))

variable {t : Table} {p q : Slot}

theorem Precedes.asymm (precedes : t.Precedes p q) : ¬ t.Precedes q p := by
  intro back
  rcases precedes with less | ⟨same, less⟩
  · rcases back with h | ⟨h, -⟩ <;> omega
  · rcases back with h | ⟨-, h⟩
    · omega
    · exact absurd less (not_lt.mpr h.le)

theorem not_precedes_self : ¬ t.Precedes p p := fun self => self.asymm self

theorem Precedes.of_ctime {t' : Table} (precedes : t.Precedes p q) (first : (t p).ctime = (t' p).ctime)
    (second : (t q).ctime = (t' q).ctime) : t'.Precedes p q := by
  unfold Precedes at *
  rwa [← first, ← second]

/-- The loops that look for the earliest created candidate find the one that precedes all others. -/
theorem precedes_of_best {P : Slot → Prop} [DecidablePred P]
    (found : best P (fun p => (t p).ctime.toInt) (List.finRange NPROC) = some p) (kept : P q) (ne : q ≠ p) :
    t.Precedes p q := by
  rcases (mem_of_best found).least q (List.mem_finRange q) kept with less | ⟨same, le⟩
  · exact .inl less
  · exact .inr ⟨same, lt_of_le_of_ne le ne.symm⟩

end Table

/-- All that can happen to a process while a scheduler holds the lock: `fork` may give it up, and it may
    fault. -/
structure Proc.Unmoved (p p' : Proc) : Prop where
  kept : p' = { p with state := p'.state, killed := p'.killed }
  runnable : p'.state = .runnable ↔ p.state = .runnable

namespace Proc.Unmoved

variable {p p' : Proc}

theorem refl (p : Proc) : p.Unmoved p := ⟨rfl, .rfl⟩

theorem priority (unmoved : p.Unmoved p') : p'.priority = p.priority := by rw [unmoved.kept]

theorem ctime (unmoved : p.Unmoved p') : p'.ctime = p.ctime := by rw [unmoved.kept]

end Proc.Unmoved

theorem modify_unmoved {t : Table} {j : Slot} {change : Proc → Proc} (unmoved : (t j).Unmoved (change (t j))) (k : Slot) :
    (t k).Unmoved (t.modify j change k) := by
  by_cases same : k = j
  · subst same
    rwa [Table.modify_self]
  · rw [Table.modify_of_ne _ _ same]
    exact .refl _

theorem Coherent.locked (held : Coherent s) (taken : Step S s a s') (locked : s.lock = some c) :
    a = .dispatch c ∨ a = .resume c ∨ ∀ k, (s.ptable k).Unmoved (s'.ptable k) := by
  have busy : s.lock ≠ none := by simp [locked]
  have mine : ∀ {d}, s.lock = some d → d = c := fun holds => Option.some.inj (holds.symm.trans locked)
  cases taken with
  | start d idle awake free => exact absurd free busy
  | dispatch d g at_d =>
    obtain rfl := mine (held.picked at_d).1
    exact .inl rfl
  | resume d g at_d =>
    obtain rfl := mine (held.back at_d).1
    exact .inr (.inl rfl)
  | charge counted free => exact absurd free busy
  | wakeTicks cpu charged free => exact absurd free busy
  | wakeup d address awake free => exact absurd free busy
  | yield d g i at_d awake free => exact absurd free busy
  | tick => exact .inr (.inr fun k => .refl _)
  | interrupt => exact .inr (.inr fun k => .refl _)
  | call a g i s' at_d awake killed called =>
    cases called with
    | sleep d chan free => exact absurd free busy
    | exit d free => exact absurd free busy
    | fork d np free => exact absurd free busy
    | full d free => exact absurd free busy
    | forkDone d np free => exact absurd free busy
    | wait d free => exact absurd free busy
    | waitx d free => exact absurd free busy
    | kill d pid k free => exact absurd free busy
    | killNone d pid free => exact absurd free busy
    | assign d k priority free => exact absurd free busy
    | forkFails d np forking =>
      have embryo := held.embryo _ _ forking
      exact .inr (.inr (modify_unmoved ⟨rfl, by simp [Proc.abandoned, embryo]⟩))
    | fault => exact .inr (.inr (modify_unmoved ⟨rfl, .rfl⟩))
    | setPriority => exact .inr (.inr fun k => .refl _)
    | refuse => exact .inr (.inr fun k => .refl _)

/-- A scheduler comes to a process at the start of a pass, when it goes on with one, or before. -/
theorem Turn.picked_cases (turn : Turn S s c s' a) (at_c : s'.cpu c = .picked f) :
    s.cpu c = .picked f ∧ a ≠ .dispatch c ∧ a ≠ .resume c ∨
      a = .start c ∧ s.cpu c = .idle ∧ s'.ptable = (S.start s.ticks s.ptable).1 ∧
        (S.start s.ticks s.ptable).2 = some f ∨
      a = .resume c ∧ ∃ g, s.cpu c = .back g ∧ s'.ptable = (S.resume s.ticks g s.ptable).1 ∧
        (S.resume s.ticks g s.ptable).2 = some f := by
  have seated : ∀ {x : Option S.Frame}, Cpu.seat x = .picked f → x = some f := by
    intro x at_x
    cases x with
    | none => cases at_x
    | some g =>
      cases at_x
      rfl
  cases turn with
  | still a same start dispatch resume => exact .inl ⟨same ▸ at_c, dispatch, resume⟩
  | start idle awake free table seat =>
    rw [seat] at at_c
    exact .inr (.inl ⟨rfl, idle, table, seated at_c⟩)
  | resume g before table seat =>
    rw [seat] at at_c
    exact .inr (.inr ⟨rfl, g, before, table, seated at_c⟩)
  | dispatch g before table seat =>
    rw [seat] at at_c
    cases at_c
  | wakeTicks g i zero before seat =>
    rw [seat] at at_c
    cases at_c
  | interrupt g before ne yields seat =>
    rw [seat] at at_c
    cases at_c
  | yield g i before awake free due seat =>
    rw [seat] at at_c
    cases at_c
  | leave a g i before awake mine called gone seat =>
    rw [seat] at at_c
    cases at_c

theorem Move.live {k : Slot} {p : Proc} (move : Move S s k a p) (live : p.state.Live) :
    s.creates a = some k ∧ p.ctime = s.ticks ∨
      s.creates a ≠ some k ∧ (s.ptable k).state.Live ∧ p.ctime = (s.ptable k).ctime := by
  cases move with
  | quiet a p plain old kept woken =>
    refine .inr ⟨old, ?_, by rw [kept]⟩
    rcases woken with same | ⟨asleep, -⟩
    · exact same ▸ live
    · rw [asleep]
      decide
  | switch a p plain old clock kept before after =>
    refine .inr ⟨old, ?_, by rw [kept]⟩
    rw [before]
    decide
  | exit c p kept before after => exact absurd after live.2
  | start c free =>
    have books := S.start_books s.ticks s.ptable k
    exact .inr ⟨by simp [State.creates], books.state ▸ live, by rw [books]⟩
  | resume c f at_c =>
    have books := S.resume_books s.ticks f s.ptable k
    exact .inr ⟨by simp [State.creates], books.state ▸ live, by rw [books]⟩
  | run c f at_c same before =>
    refine .inr ⟨by simp [State.creates], ?_, rfl⟩
    rw [before]
    decide
  | charge free counted =>
    refine .inr ⟨by simp [State.creates], by simpa using live, ?_⟩
    unfold Proc.updateRunsandOthers
    cases (s.ptable k).state <;> rfl
  | found c here before => exact .inl ⟨here, rfl⟩
  | abandoned c before => exact absurd rfl live.1
  | ready c parent before =>
    refine .inr ⟨by simp [State.creates], ?_, rfl⟩
    rw [before]
    decide
  | reaped c before => exact absurd rfl live.1
  | reapedx c before => exact absurd rfl live.1

theorem Coherent.waits (held : Coherent s) (taken : Step S s a s') {q : Slot} (runnable : s.ptable.Runnable q) :
    s'.ptable.Runnable q ∨ S.dispatched s a = some q := by
  have before : (s.ptable q).state = .runnable := runnable
  have move : Move S s q a (s'.ptable q) := Move.of_step held taken
  have still : ∀ {p : Proc}, s'.ptable q = p → p.state = .runnable → s'.ptable.Runnable q := by
    intro p eq state
    rw [Table.Runnable, eq, state]
  generalize at_q : s'.ptable q = p at move
  cases move with
  | quiet a p plain old kept woken => exact .inl (still at_q ((woken.eq (by simp [before])).trans before))
  | start c free => exact .inl (still at_q ((S.start_books _ _ q).state.trans before))
  | resume c f at_c => exact .inl (still at_q ((S.resume_books _ _ _ q).state.trans before))
  | charge free counted => exact .inl (still at_q (by simpa using before))
  | run c f at_c same => exact .inr (by simp [dispatched, at_c, same])
  | switch a p plain old clock kept running =>
    rw [before] at running
    cases running
  | exit c p kept running =>
    rw [before] at running
    cases running
  | found c here unused =>
    rw [before] at unused
    cases unused
  | abandoned c embryo =>
    rw [before] at embryo
    cases embryo
  | ready c parent embryo =>
    rw [before] at embryo
    cases embryo
  | reaped c zombie =>
    rw [before] at zombie
    cases zombie
  | reapedx c zombie =>
    rw [before] at zombie
    cases zombie

/-! ### One CPU -/

/-- With one CPU nothing happens before a scheduler that has the lock goes on. -/
theorem scheduler_next (taken : S.Under OneCpu s a s') (busy : s.lock ≠ none) (idle : s.cpu 0 ≠ .idle)
    (off : ∀ f i, s.cpu 0 ≠ .running f i) :
    (a = .dispatch 0 ∧ ∃ f, s.cpu 0 = .picked f) ∨ a = .resume 0 ∧ ∃ f, s.cpu 0 = .back f := by
  have one : a.cpu = 0 := taken.2
  cases step_cases taken.1 with
  | start c _ awake free => exact absurd free busy
  | dispatch c g at_c =>
    rw [show c = 0 from one] at at_c ⊢
    exact .inl ⟨rfl, g, at_c⟩
  | resume c g at_c =>
    rw [show c = 0 from one] at at_c ⊢
    exact .inr ⟨rfl, g, at_c⟩
  | tick at_c =>
    rcases at_c with at_0 | ⟨g, at_0⟩
    · exact absurd at_0 idle
    · exact absurd at_0 (off g false)
  | charge counted free => exact absurd free busy
  | wakeTicks cpu charged free => exact absurd free busy
  | interrupt c g at_c ne => exact absurd one ne
  | wakeup c address awake free => exact absurd free busy
  | yield c g i at_c awake free => exact absurd free busy
  | call a g i s' at_c =>
    rw [one] at at_c
    exact absurd at_c (off g i)

theorem dispatches (held : Coherent s) (taken : S.Under OneCpu s a s') (at_0 : s.cpu 0 = .picked f) : a = .dispatch 0 := by
  have busy : s.lock ≠ none := by simp [(held.picked at_0).1]
  rcases scheduler_next taken busy (by rw [at_0]; nofun) (by rw [at_0]; nofun) with ⟨next, -⟩ | ⟨-, g, back⟩
  · exact next
  · rw [at_0] at back
    cases back

theorem resumes (held : Coherent s) (taken : S.Under OneCpu s a s') (at_0 : s.cpu 0 = .back f) : a = .resume 0 := by
  have busy : s.lock ≠ none := by simp [(held.back at_0).1]
  rcases scheduler_next taken busy (by rw [at_0]; nofun) (by rw [at_0]; nofun) with ⟨-, g, picked⟩ | ⟨next, -⟩
  · rw [at_0] at picked
    cases picked
  · exact next

end Xv6.Sched
