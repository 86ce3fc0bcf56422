import Xv6.Sched.Dispatches

namespace Xv6.Sched

open Scheduler Transition Selection

namespace RR

variable {s s' y : State rr.Frame} {a : Action} {past mid : List (State rr.Frame × Action)} {p q : Slot}

/-- The index at which the scan of the table goes on. -/
def cursor : Cpu Slot → Nat
  | .idle => 0
  | .picked p => p.val
  | .running p _ | .back p => p.val + 1

theorem cursor_le (c : Cpu Slot) : cursor c ≤ NPROC := by
  cases c with
  | idle => exact Nat.zero_le _
  | picked p => exact p.isLt.le
  | running p i => exact p.isLt
  | back p => exact p.isLt

theorem go_advances {start : Nat} {t : Table} (runnable : t.Runnable q) :
    Advances NPROC q start (cursor (.seat (go start t).2)) := by
  unfold go
  cases found : firstFrom start t.Runnable with
  | some p =>
    obtain ⟨⟨further, -⟩, first⟩ := firstFrom_eq_some.mp found
    exact ⟨p.isLt.le, .inl ⟨further, fun ahead => not_lt.mp fun passed => first q ahead passed runnable⟩⟩
  | none => exact ⟨Nat.zero_le _, .inr ⟨rfl, not_le.mp fun ahead => firstFrom_eq_none.mp found q ahead runnable⟩⟩

/-- Every step but a dispatch moves the scan without passing a RUNNABLE process; a dispatch of another process
    brings the scan one place closer to it. -/
theorem advances (taken : rr.Under OneCpu s a s') (runnable : s.ptable.Runnable q)
    (passes : rr.dispatched s a ≠ some q) :
    Advances NPROC q (cursor (s.cpu 0)) (cursor (s'.cpu 0)) ∧
      ((rr.dispatched s a).isSome →
        distance NPROC (cursor (s'.cpu 0)) q + 1 = distance NPROC (cursor (s.cpu 0)) q) := by
  have turn : Turn rr s 0 s' a := Turn.of_step (step_cases taken.1) 0
  have quiet : cursor (s'.cpu 0) = cursor (s.cpu 0) → (rr.dispatched s a).isSome = false →
      Advances NPROC q (cursor (s.cpu 0)) (cursor (s'.cpu 0)) ∧
        ((rr.dispatched s a).isSome →
          distance NPROC (cursor (s'.cpu 0)) q + 1 = distance NPROC (cursor (s.cpu 0)) q) := by
    intro same none
    rw [same, none]
    exact ⟨.refl (cursor_le _), fun h => by cases h⟩
  have other : ∀ {b : Action}, b ≠ .dispatch 0 → b.cpu = 0 → (rr.dispatched s b).isSome = false := by
    intro b ne one
    cases b with
    | dispatch c => exact absurd (congrArg Action.dispatch one) ne
    | _ => rfl
  have one : a.cpu = 0 := taken.2
  cases turn with
  | still a same start dispatch resume => exact quiet (congrArg cursor same) (other dispatch one)
  | start idle awake free table seat =>
    rw [seat, idle]
    exact ⟨go_advances runnable, fun h => by cases h⟩
  | dispatch p at_0 table seat =>
    have ne : p.val ≠ q.val := by
      intro same
      refine passes ?_
      simp only [dispatched, at_0]
      exact congrArg some (Fin.ext same)
    rw [seat, at_0]
    refine ⟨⟨p.isLt, .inl ⟨Nat.le_succ _, fun ahead => ?_⟩⟩, fun _ => distance_succ ne p.isLt⟩
    have : p.val ≤ q.val := ahead
    show p.val + 1 ≤ q.val
    omega
  | resume p at_0 table seat =>
    rw [seat, at_0]
    have runnable' : (s.ptable.modify p (·.worked s.ticks)).Runnable q := (s.ptable.runnable_modify rfl).mpr runnable
    exact ⟨go_advances runnable', fun h => by cases h⟩
  | wakeTicks p i zero at_0 seat => exact quiet (by rw [seat, at_0]; rfl) rfl
  | interrupt p at_0 ne => exact absurd rfl ne
  | yield p i at_0 awake free due seat => exact quiet (by rw [seat, at_0]; rfl) rfl
  | leave a p i at_0 awake mine called gone seat =>
    refine quiet (by rw [seat, at_0]; rfl) (other ?_ one)
    intro eq
    subst eq
    cases called

/-- While `q` waits, what the scan would come to after `q` still comes after it, and the dispatches of others are
    paid for by the way to `q`. -/
theorem waiting_path (held : Coherent s) (path : Path (rr.Under OneCpu) s mid s') (runnable : s.ptable.Runnable q)
    (passes : ∀ entry ∈ mid, rr.dispatched entry.1 entry.2 ≠ some q) :
    (distance NPROC (cursor (s.cpu 0)) q < distance NPROC (cursor (s.cpu 0)) p →
      distance NPROC (cursor (s'.cpu 0)) q < distance NPROC (cursor (s'.cpu 0)) p) ∧
    mid.countP (fun entry => (rr.dispatched entry.1 entry.2).isSome) + distance NPROC (cursor (s'.cpu 0)) q ≤
      distance NPROC (cursor (s.cpu 0)) q := by
  have run : Path (fun x a z => rr.Under OneCpu x a z ∧ rr.dispatched x a ≠ some q) s mid s' := path.restrict passes
  have all := run.invariant (I := fun mid x => (Coherent x ∧ x.ptable.Runnable q) ∧
      (distance NPROC (cursor (s.cpu 0)) q < distance NPROC (cursor (s.cpu 0)) p →
        distance NPROC (cursor (x.cpu 0)) q < distance NPROC (cursor (x.cpu 0)) p) ∧
      mid.countP (fun entry => (rr.dispatched entry.1 entry.2).isSome) + distance NPROC (cursor (x.cpu 0)) q ≤
        distance NPROC (cursor (s.cpu 0)) q)
    ⟨⟨held, runnable⟩, id, by simp⟩
    (fun {mid x a z} _ kept taken => by
      obtain ⟨⟨coherent, waiting⟩, order, count⟩ := kept
      obtain ⟨taken, passes⟩ := taken
      have stepped : Step rr x a z := step_cases taken.1
      obtain ⟨advances, paid⟩ := advances taken waiting passes
      refine ⟨⟨coherent.step stepped, (coherent.waits stepped waiting).resolve_right passes⟩, fun first => ?_, ?_⟩
      · exact advances.distance_lt q.isLt p.isLt (order first)
      · have nearer := advances.distance_le
        rw [List.countP_cons]
        by_cases dispatches : (rr.dispatched x a).isSome
        · have := paid dispatches
          simp only [dispatches, if_true]
          omega
        · simp only [dispatches]
          simp only [Bool.false_eq_true, if_false]
          omega)
  exact all.2

end RR

/-- Round robin on one CPU: between two dispatches of a process every other process that was RUNNABLE at the first is
    dispatched, a RUNNABLE process sees at most `NPROC - 1` dispatches of others, and as long as there is one the
    scheduler does not come away with nothing. -/
theorem rr_bounded_bypass :
    (∀ past mid s₁ s₂ p q, Path (rr.Under OneCpu) rr.boot (mid ++ (s₁, .dispatch 0) :: past) s₂ →
      rr.dispatched s₁ (.dispatch 0) = some p → rr.dispatched s₂ (.dispatch 0) = some p → q ≠ p →
      s₁.ptable.Runnable q → ∃ entry ∈ mid, rr.dispatched entry.1 entry.2 = some q) ∧
    (∀ past mid s₁ s₂ q, Path (rr.Under OneCpu) rr.boot past s₁ → Path (rr.Under OneCpu) s₁ mid s₂ →
      s₁.ptable.Runnable q → (∀ entry ∈ mid, rr.dispatched entry.1 entry.2 ≠ some q) →
      mid.countP (fun entry => (rr.dispatched entry.1 entry.2).isSome) ≤ NPROC - 1) ∧
    ∀ s s' q, s.ptable.Runnable q → rr.Takes s (.start 0) s' → ∃ p, s'.cpu 0 = .picked p := by
  have coherent : ∀ {past s}, Path (rr.Under OneCpu) rr.boot past s → Coherent s := fun path =>
    Coherent.reached (path.mono fun taken => taken.1)
  refine ⟨fun past mid s₁ s₂ p q path first second ne runnable => ?_,
    fun past mid s₁ s₂ q before path runnable passes => ?_, fun s s' q runnable taken => ?_⟩
  · by_contra none
    have passes : ∀ entry ∈ mid, rr.dispatched entry.1 entry.2 ≠ some q := fun entry member here =>
      none ⟨entry, member, here⟩
    obtain ⟨early, y, taken, rest⟩ := path.cut
    have stepped : Step rr s₁ (.dispatch 0) y := step_cases taken.1
    have other : rr.dispatched s₁ (.dispatch 0) ≠ some q := by
      rw [first]
      exact fun eq => ne (Option.some.inj eq).symm
    have waiting := ((coherent early).waits stepped runnable).resolve_right other
    have at_y : y.cpu 0 = .running p false := by
      have turn : Turn rr s₁ 0 y (.dispatch 0) := Turn.of_step stepped 0
      obtain ⟨g, before, seat⟩ := turn.dispatched
      simp only [Scheduler.dispatched, before, Option.some.injEq] at first
      rw [seat]
      exact congrArg (Cpu.running · false) first
    have order := (RR.waiting_path ((coherent early).step stepped) rest waiting passes (p := p)).1
    have start : distance NPROC (p.val + 1) q < distance NPROC (p.val + 1) p := by
      rw [distance_behind (Nat.lt_succ_self _)]
      have apart : q.val ≠ p.val := fun eq => ne (Fin.ext eq)
      have inside := q.isLt
      rcases Nat.lt_or_ge q.val (p.val + 1) with behind | ahead
      · rw [distance_behind behind]
        omega
      · rw [distance_ahead ahead]
        omega
    have at_2 : s₂.cpu 0 = .picked p := by
      obtain ⟨g, at_0, same⟩ := picked_of_dispatched second
      exact at_0.trans (congrArg Cpu.picked same)
    rw [at_y, at_2] at order
    have here : distance NPROC (RR.cursor (.picked p)) p = p.val - p.val := distance_ahead le_rfl
    have last : distance NPROC (RR.cursor (.picked p)) q < distance NPROC (RR.cursor (.picked p)) p := order start
    omega
  · have paid := (RR.waiting_path (coherent before) path runnable passes (p := q)).2
    have start : distance NPROC (RR.cursor (s₁.cpu 0)) q < NPROC := Selection.distance_lt q.isLt
    omega
  · have turn : Turn rr s 0 s' (.start 0) := Turn.of_step (step_cases taken) 0
    obtain ⟨-, -, -, seat⟩ := turn.started
    cases picked : (rr.start s.ticks s.ptable).2 with
    | some p =>
      rw [picked] at seat
      exact ⟨p, seat⟩
    | none =>
      have none : (RR.go 0 s.ptable).2 = .none := picked
      unfold RR.go at none
      cases found : firstFrom 0 s.ptable.Runnable with
      | some p =>
        rw [found] at none
        cases none
      | none => exact absurd runnable (firstFrom_eq_none.mp found q (Nat.zero_le _))

/-- Init and its child take turns; the child has had one and comes to its second. -/
def twoTurnsRun : List Action :=
  [.start 0, .dispatch 0, .fork 0, .forkDone 0, .tick, .charge, .wakeTicks, .yield 0, .resume 0, .dispatch 0,
    .tick, .charge, .wakeTicks, .yield 0, .resume 0, .start 0, .dispatch 0,
    .tick, .charge, .wakeTicks, .yield 0, .resume 0]

theorem rr_bounded_bypass_of_two :
    (∃ past mid s₁ s₂, Path (rr.Under OneCpu) rr.boot (mid ++ (s₁, .dispatch 0) :: past) s₂ ∧
      rr.dispatched s₁ (.dispatch 0) = some firstChild ∧ rr.dispatched s₂ (.dispatch 0) = some firstChild ∧
      ∃ entry ∈ mid, rr.dispatched entry.1 entry.2 = some initproc) ∧
    (∃ past mid s₁ s₂, Path (rr.Under OneCpu) rr.boot past s₁ ∧ Path (rr.Under OneCpu) s₁ mid s₂ ∧
      s₁.ptable.Runnable initproc ∧ (∃ entry ∈ mid, rr.dispatched entry.1 entry.2 = some firstChild) ∧
      mid.countP (fun entry => (rr.dispatched entry.1 entry.2).isSome) ≤ NPROC - 1) ∧
    ∃ s, rr.Takes rr.boot (.start 0) s ∧ ∃ p, s.cpu 0 = .picked p := by
  refine ⟨?_, ?_, _, rfl, ?_⟩
  · obtain ⟨past, s₂, path, reached⟩ := replay_reaches rr.step rr.boot twoTurnsRun
      (fun past s => (∀ entry ∈ past, OneCpu entry.1 entry.2) ∧ rr.dispatched s (.dispatch 0) = some firstChild ∧
        ∃ entry ∈ past[12]?, entry.2 = .dispatch 0 ∧ rr.dispatched entry.1 (.dispatch 0) = some firstChild ∧
          entry.1.ptable.Runnable initproc) (by decide +kernel)
    simp only [decide_eq_true_eq] at reached
    obtain ⟨one, second, ⟨s₁, a⟩, here, rfl, first, waiting⟩ := reached
    have run : Path (rr.Under OneCpu) rr.boot past s₂ := path.restrict one
    exact ⟨_, _, s₁, s₂, run.split here, first, second,
      rr_bounded_bypass.1 _ _ s₁ s₂ firstChild initproc (run.split here) first second (by decide) waiting⟩
  · -- up to the next turn of init
    obtain ⟨past, s₂, path, reached⟩ := replay_reaches rr.step rr.boot (twoTurnsRun.take 16)
      (fun past _ => (∀ entry ∈ past, OneCpu entry.1 entry.2) ∧
        (∀ entry ∈ past.take 6, rr.dispatched entry.1 entry.2 ≠ some initproc) ∧
        ∃ entry ∈ past[6]?, rr.dispatched entry.1 entry.2 = some firstChild ∧ entry.1.ptable.Runnable initproc) (by decide +kernel)
    simp only [decide_eq_true_eq] at reached
    obtain ⟨one, passes, ⟨s₁, a⟩, here, first, waiting⟩ := reached
    have run : Path (rr.Under OneCpu) rr.boot past s₂ := path.restrict one
    obtain ⟨before, y, taken, rest⟩ := (run.split here).cut
    have later := rest.cons taken
    have mine : (s₁, a) ∈ past.take 6 ++ [(s₁, a)] := List.mem_append_right _ (List.mem_singleton_self _)
    refine ⟨_, _, s₁, s₂, before, later, waiting, ⟨_, mine, first⟩, ?_⟩
    apply rr_bounded_bypass.2.1 _ _ s₁ s₂ initproc before later waiting
    intro entry member
    rcases List.mem_append.mp member with after | same
    · exact passes entry after
    · rw [List.mem_singleton.mp same, first]
      decide
  · exact rr_bounded_bypass.2.2 rr.boot _ initproc (by decide) rfl

end Xv6.Sched
