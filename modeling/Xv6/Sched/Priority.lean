import Xv6.Sched.Dispatches

namespace Xv6.Sched

open Scheduler Transition Selection

/-! ### The best process runs -/

namespace PBS

variable {s s' : State pbs.Frame} {a : Action} {c : Nat} {f g : Frame} {t : Table} {p q : Slot}

/-- `p` is RUNNABLE and no RUNNABLE process has a higher priority. -/
structure Best (t : Table) (p : Slot) : Prop where
  runnable : t.Runnable p
  least : ∀ q, t.Runnable q → (t p).priority.toInt ≤ (t q).priority.toInt

/-- The table is as before as far as the choice of a process goes. -/
def Alike (t t' : Table) : Prop := ∀ k, (t'.Runnable k ↔ t.Runnable k) ∧ (t' k).priority = (t k).priority

theorem alike_modify {change : Proc → Proc} (state : (change (t p)).state = (t p).state)
    (priority : (change (t p)).priority = (t p).priority) : Alike t (t.modify p change) := by
  intro k
  refine ⟨t.runnable_modify state, ?_⟩
  by_cases same : k = p
  · subst same
    rw [Table.modify_self, priority]
  · rw [Table.modify_of_ne _ _ same]

theorem Best.alike {t' : Table} (best : Best t p) (alike : Alike t t') : Best t' p := by
  refine ⟨(alike p).1.mpr best.runnable, fun q runnable => ?_⟩
  rw [(alike p).2, (alike q).2]
  exact best.least q ((alike q).1.mp runnable)

theorem go_wanted {minone : Slot} {start : Nat} (picked : (go minone start t).2 = some f) :
    f.minone = minone ∧ Wanted minone (go minone start t).1 f.p ∧ Alike t (go minone start t).1 := by
  obtain ⟨same, table, found⟩ := go_eq_some picked
  have alike : Alike t (t.modify f.p .ran) := alike_modify rfl rfl
  have wanted := (firstFrom_eq_some.mp found).1.2
  rw [table]
  exact ⟨same, ⟨(alike _).1.mpr wanted.1, by rw [(alike _).2, (alike _).2, wanted.2]⟩, alike⟩

theorem best_of_wanted {minone : Slot} (wanted : Wanted minone t p)
    (least : ∀ q, t.Runnable q → (t minone).priority.toInt ≤ (t q).priority.toInt) : Best t p :=
  ⟨wanted.1, fun q runnable => by rw [wanted.2]; exact least q runnable⟩

theorem start_best (picked : (start t).2 = some f) :
    Best (start t).1 f.p ∧ Wanted f.minone (start t).1 f.p ∧ Alike t (start t).1 := by
  obtain ⟨first, same⟩ := start_eq_some picked
  rw [same] at picked ⊢
  obtain ⟨-, wanted, alike⟩ := go_wanted picked
  refine ⟨best_of_wanted wanted fun q runnable => ?_, wanted, alike⟩
  rw [(alike _).2, (alike _).2]
  exact (mem_of_best first).key_le (List.mem_finRange q) ((alike q).1.mp runnable)

theorem resume_best {ticks : Word} (picked : (resume ticks g t).2 = some f) :
    Best (resume ticks g t).1 f.p ∧ f.minone = g.minone ∧ Wanted f.minone (resume ticks g t).1 f.p ∧
      Alike t (resume ticks g t).1 := by
  obtain ⟨better, same⟩ := resume_eq_some picked
  rw [same] at picked ⊢
  have worked : Alike t (t.modify g.p (·.worked ticks)) := alike_modify rfl rfl
  obtain ⟨minone, wanted, alike⟩ := go_wanted picked
  rw [minone]
  refine ⟨best_of_wanted wanted fun q runnable => ?_, rfl, wanted, fun k => ?_⟩
  · rw [(alike _).2, (alike _).2]
    exact not_lt.mp fun less => better ⟨q, (alike q).1.mp runnable, less⟩
  · exact ⟨(alike k).1.trans (worked k).1, (alike k).2.trans (worked k).2⟩

/-- What a scheduler has chosen stays the best choice until it switches to it. -/
structure Chosen (s : State pbs.Frame) : Prop where
  coherent : Coherent s
  best : ∀ c (f : Frame), s.cpu c = .picked f → Best s.ptable f.p ∧ Wanted f.minone s.ptable f.p

theorem Chosen.step (held : Chosen s) (taken : Step pbs s a s') : Chosen s' := by
  refine ⟨held.coherent.step taken, fun c f at_c => ?_⟩
  have turn : Turn pbs s c s' a := Turn.of_step taken c
  rcases turn.picked_cases at_c with
    ⟨before, dispatch, resume⟩ | ⟨-, -, table, picked⟩ | ⟨-, g, -, table, picked⟩
  · have locked := (held.coherent.picked before).1
    rcases held.coherent.locked taken locked with h | h | unmoved
    · exact absurd h dispatch
    · exact absurd h resume
    · obtain ⟨best, wanted⟩ := held.best c f before
      have alike : Alike s.ptable s'.ptable := fun k => ⟨(unmoved k).runnable, (unmoved k).priority⟩
      exact ⟨best.alike alike, (alike f.p).1.mpr wanted.1, by rw [(alike _).2, (alike _).2, wanted.2]⟩
  · have started : (start s.ptable).2 = some f := picked
    obtain ⟨best, wanted, -⟩ := start_best started
    rw [table]
    exact ⟨best, wanted⟩
  · have resumed : (resume s.ticks g s.ptable).2 = some f := picked
    obtain ⟨best, -, wanted, -⟩ := resume_best resumed
    rw [table]
    exact ⟨best, wanted⟩

theorem Chosen.boot : Chosen pbs.boot := ⟨.boot, fun _ _ at_c => by cases at_c⟩

theorem chosen {past : List (State pbs.Frame × Action)} (path : Path pbs.Takes pbs.boot past s) : Chosen s :=
  path.always .boot (fun held taken => held.step (step_cases taken))

end PBS

/-- At every dispatch of the PBS build the chosen process is RUNNABLE and no RUNNABLE process has a higher
    priority, which is a smaller number. -/
theorem pbs_dispatches_best {past : List (State pbs.Frame × Action)} {s : State pbs.Frame}
    (path : Path pbs.Takes pbs.boot past s) (c : Nat) (p : Slot) (dispatched : pbs.dispatched s (.dispatch c) = some p) :
    (s.ptable p).state = .runnable ∧
      ∀ q, (s.ptable q).state = .runnable → (s.ptable p).priority.toInt ≤ (s.ptable q).priority.toInt := by
  obtain ⟨f, at_c, rfl⟩ := picked_of_dispatched dispatched
  have best := ((PBS.chosen path).best c f at_c).1
  exact ⟨best.runnable, best.least⟩

/-- Init, which has run before, raises its second child above the first one and itself. -/
def raisedRun : List Action :=
  [.start 0, .dispatch 0, .fork 0, .forkDone 0, .fork 0, .forkDone 0, .setPriority 0 50 3, .assign 0, .yield 0, .resume 0, .start 0]

theorem pbs_dispatches_best_of_raised : ∃ past s, Path pbs.Takes pbs.boot past s ∧
    pbs.dispatched s (.dispatch 0) = some secondChild ∧ (s.ptable secondChild).priority = 50 ∧
    (s.ptable firstChild).state = .runnable ∧ (s.ptable firstChild).priority = 60 ∧ (s.ptable secondChild).state = .runnable ∧
      ∀ q, (s.ptable q).state = .runnable → (s.ptable secondChild).priority.toInt ≤ (s.ptable q).priority.toInt := by
  obtain ⟨past, s, path, reached⟩ := replay_reaches pbs.step pbs.boot raisedRun
    (fun _ s => pbs.dispatched s (.dispatch 0) = some secondChild ∧ (s.ptable secondChild).priority = 50 ∧
      (s.ptable firstChild).state = .runnable ∧ (s.ptable firstChild).priority = 60) (by decide +kernel)
  simp only [decide_eq_true_eq] at reached
  obtain ⟨chosen, raised, waiting, before⟩ := reached
  exact ⟨past, s, path, chosen, raised, waiting, before, pbs_dispatches_best path 0 secondChild chosen⟩

end Xv6.Sched
