import Xv6.Sched.Aging

namespace Xv6.Sched

open Scheduler Transition Selection

namespace MLFQ

/-- The last child that init forks before it goes to `wait`. -/
def youngest : Slot := ⟨8, by decide⟩

/-- The older child whose turn it is after `n` ticks. -/
def elder (n : Nat) : Slot := ⟨1 + n % 7, by
  have small := Nat.mod_lt n (show 7 > 0 by decide)
  unfold NPROC
  omega⟩

theorem elder_bounds (n : Nat) : 1 ≤ (elder n).val ∧ (elder n).val ≤ 7 := by
  show 1 ≤ 1 + n % 7 ∧ 1 + n % 7 ≤ 7
  omega

theorem elder_ne_youngest (n : Nat) : youngest ≠ elder n := by
  intro eq
  have high := (elder_bounds n).2
  rw [← eq] at high
  exact absurd high (by decide)

/-- The table after the turn of process `i`, which takes one tick. -/
def turned (t : Table) (ticks : Word) (i : Slot) : Table :=
  (((((age t ticks).modify i chosen).modify i (·.run ticks)).updateRunsandOthers.wakeup1 .ticks).modify i .yield).modify i
    (leave 0 (ticks + 1))

theorem turned_self (t : Table) (ticks : Word) (i : Slot) :
    (turned t ticks i i).state = .runnable ∧ (turned t ticks i i).ctime = (age t ticks i).ctime ∧
      (turned t ticks i i).queue = (age t ticks i).queue + 1 ∧ (turned t ticks i i).lastWorkingticks = ticks + 1 := by
  refine ⟨?_, ?_, ?_, ?_⟩ <;>
    simp [turned, Table.wakeup1, Table.updateRunsandOthers, Proc.updateRunsandOthers, Proc.wakeup, Proc.run, Proc.yield,
      chosen, leave, Spent, maxTickOfQ]

theorem turned_other (t : Table) (ticks : Word) {i k : Slot} (ne : k ≠ i) :
    turned t ticks i k = (age t ticks k).updateRunsandOthers.wakeup .ticks := by
  simp [turned, ne, Table.wakeup1, Table.updateRunsandOthers]

/-- Seven older children take turns: each is demoted after its tick and promoted again seven ticks later. Init sleeps in
    `wait` and the youngest child has never run. -/
structure Rotation (t : Table) (ticks : Word) (n : Nat) : Prop where
  init : (t initproc).state = .sleeping ∧ (t initproc).chan = some (.proc initproc)
  older : ∀ k : Slot, 1 ≤ k.val → k.val ≤ 7 → t.Runnable k ∧ (t k).ctime = 0
  first : ∀ k : Slot, n < k.val → k.val ≤ 7 → (t k).queue = 0
  second : ∀ k : Slot, 1 ≤ k.val → k.val ≤ 7 → k.val ≤ n →
    (t k).queue = 1 ∧ ticks - (t k).lastWorkingticks = BitVec.ofNat 32 ((n - k.val) % 7)
  young : t.Runnable youngest ∧ (t youngest).ctime = 0 ∧ (t youngest).queue = 0 ∧ (t youngest).lastWorkingticks = 0
  others : ∀ k : Slot, 8 < k.val → (t k).state = .unused

namespace Rotation

variable {t : Table} {ticks : Word} {n : Nat}

theorem late_iff (rotation : Rotation t ticks n) {k : Slot} (low : 1 ≤ k.val) (high : k.val ≤ 7) :
    Late (t k) ticks ↔ k.val ≤ n ∧ k = elder n := by
  have runnable := (rotation.older k low high).1
  by_cases ran : k.val ≤ n
  · obtain ⟨queue, lies⟩ := rotation.second k low high ran
    have turn : k = elder n ↔ (n - k.val) % 7 = 6 := by
      rw [Fin.ext_iff]
      show k.val = 1 + n % 7 ↔ _
      omega
    have small := Nat.mod_lt (n - k.val) (show 7 > 0 by decide)
    have exceeds : qMaxTime (t k).queue.toNat < ticks - (t k).lastWorkingticks ↔ (n - k.val) % 7 = 6 := by
      rw [lies, queue, BitVec.lt_def, BitVec.toNat_ofNat, Nat.mod_eq_of_lt (by omega)]
      show 5 < _ ↔ _
      omega
    have positive : 0 < (t k).queue.toInt := by
      rw [queue]
      decide
    rw [turn]
    exact ⟨fun late => ⟨ran, exceeds.mp late.2.2⟩, fun h => ⟨runnable, positive, exceeds.mpr h.2⟩⟩
  · have queue := rotation.first k (not_le.mp ran) high
    refine ⟨fun late => ?_, fun h => absurd h.1 ran⟩
    have positive := late.2.1
    rw [queue] at positive
    exact absurd positive (by decide)

/-- Aging brings the child whose turn it is to the first queue and leaves all others alone. -/
theorem age_elder (rotation : Rotation t ticks n) :
    (age t ticks).Runnable (elder n) ∧ (age t ticks (elder n)).ctime = 0 ∧ (age t ticks (elder n)).queue = 0 := by
  obtain ⟨low, high⟩ := elder_bounds n
  obtain ⟨runnable, ctime⟩ := rotation.older (elder n) low high
  rcases aged_cases (t (elder n)) ticks with ⟨early, same⟩ | ⟨late, new⟩
  · have waiting : n < (elder n).val := not_le.mp fun ran => early ((rotation.late_iff low high).mpr ⟨ran, rfl⟩)
    rw [Table.Runnable, show age t ticks (elder n) = t (elder n) from same]
    exact ⟨runnable, ctime, rotation.first _ waiting high⟩
  · have queue := (rotation.second _ low high ((rotation.late_iff low high).mp late).1).1
    rw [Table.Runnable, show age t ticks (elder n) = _ from new]
    refine ⟨runnable, ctime, ?_⟩
    show (t (elder n)).queue - 1 = 0
    rw [queue]
    rfl

theorem age_other (rotation : Rotation t ticks n) {k : Slot} (ne : k ≠ elder n) : age t ticks k = t k := by
  refine if_neg fun late => ?_
  have late : Late (t k) ticks := late
  by_cases low : 1 ≤ k.val
  · by_cases high : k.val ≤ 7
    · exact ne ((rotation.late_iff low high).mp late).2
    · by_cases last : k = youngest
      · have positive := late.2.1
        rw [last, rotation.young.2.2.1] at positive
        exact absurd positive (by decide)
      · have beyond : 8 < k.val := by
          have : k.val ≠ 8 := fun eq => last (Fin.ext eq)
          omega
        have state := late.1
        rw [rotation.others k beyond] at state
        cases state
  · have first : k = initproc := Fin.ext (by show k.val = 0; omega)
    have state := late.1
    rw [first, rotation.init.1] at state
    cases state

/-- The child whose turn it is is chosen: it is the first of those created at the same time. -/
theorem selected (rotation : Rotation t ticks n) : select (age t ticks) = some ⟨0, elder n⟩ := by
  obtain ⟨runnable, ctime, queue⟩ := rotation.age_elder
  obtain ⟨low, high⟩ := elder_bounds n
  have least : queues (age t ticks) 0 = some (elder n) := by
    refine best_of_isBest ⟨⟨runnable, by rw [queue]; rfl⟩, fun k _ kept => ?_⟩
    by_cases same : k = elder n
    · rw [same]
      exact .inr ⟨rfl, le_rfl⟩
    · have kept : t.Runnable k ∧ (t k).queue.toNat = 0 := by
        have at_k := rotation.age_other same
        rwa [Table.Runnable, at_k] at kept
      have low' : 1 ≤ k.val := by
        by_contra less
        have first : k = initproc := Fin.ext (by show k.val = 0; omega)
        have state := kept.1
        rw [Table.Runnable, first, rotation.init.1] at state
        cases state
      have young : k.val ≤ 8 := by
        by_contra beyond
        have state := kept.1
        rw [Table.Runnable, rotation.others k (not_le.mp beyond)] at state
        cases state
      have ctime' : (t k).ctime = 0 := by
        by_cases high' : k.val ≤ 7
        · exact (rotation.older k low' high').2
        · rw [show k = youngest from Fin.ext (by show k.val = 8; omega)]
          exact rotation.young.2.1
      refine .inr ⟨?_, ?_⟩
      · simp [ctime, rotation.age_other same, ctime']
      · show (elder n).val ≤ k.val
        by_cases high' : k.val ≤ 7
        · have fresh : n < k.val := by
            by_contra ran
            have second := (rotation.second k low' high' (not_lt.mp ran)).1
            rw [second] at kept
            exact absurd kept.2 (by decide)
          show 1 + n % 7 ≤ k.val
          omega
        · omega
  simp [select, least]

theorem turned_runnable (rotation : Rotation t ticks n) {k : Slot} (ne : k ≠ elder n) (runnable : t.Runnable k) :
    turned t ticks (elder n) k = t k := by
  have state : (t k).state = .runnable := runnable
  rw [turned_other t ticks ne, rotation.age_other ne]
  simp [Proc.updateRunsandOthers, Proc.wakeup, state]

theorem step (rotation : Rotation t ticks n) : Rotation (turned t ticks (elder n)) (ticks + 1) (n + 1) := by
  obtain ⟨low, high⟩ := elder_bounds n
  obtain ⟨state, ctime, queue, last⟩ := turned_self t ticks (elder n)
  obtain ⟨-, ctime', queue'⟩ := rotation.age_elder
  rw [ctime'] at ctime
  rw [queue'] at queue
  have outside : ∀ {k : Slot}, k.val = 0 ∨ 7 < k.val → k ≠ elder n := by
    intro k out eq
    rw [eq] at out
    omega
  refine ⟨?_, fun k low' high' => ?_, fun k fresh high' => ?_, fun k low' high' ran => ?_, ?_, fun k beyond => ?_⟩
  · have ne : initproc ≠ elder n := outside (.inl rfl)
    rw [turned_other t ticks ne, rotation.age_other ne]
    simp [Proc.updateRunsandOthers, Proc.wakeup, rotation.init]
  · by_cases same : k = elder n
    · rw [same]
      exact ⟨state, ctime⟩
    · have old := rotation.older k low' high'
      rw [Table.Runnable, rotation.turned_runnable same old.1]
      exact old
  · have ne : k ≠ elder n := by
      intro eq
      rw [Fin.ext_iff] at eq
      have eq : k.val = 1 + n % 7 := eq
      omega
    rw [rotation.turned_runnable ne (rotation.older k (by omega) high').1]
    exact rotation.first k (by omega) high'
  · by_cases same : k = elder n
    · rw [same] at ran ⊢
      rw [last, queue]
      refine ⟨rfl, ?_⟩
      have zero : (n + 1 - (elder n).val) % 7 = 0 := by
        show (n + 1 - (1 + n % 7)) % 7 = 0
        omega
      rw [zero, BitVec.sub_self]
    · have other : k.val ≠ 1 + n % 7 := fun eq => same (Fin.ext eq)
      have old := rotation.second k low' high' (by omega)
      rw [rotation.turned_runnable same (rotation.older k low' high').1]
      refine ⟨old.1, ?_⟩
      have more : (n + 1 - k.val) % 7 = (n - k.val) % 7 + 1 := by omega
      rw [more, BitVec.ofNat_add, ← old.2]
      bv_omega
  · have ne := elder_ne_youngest n
    rw [Table.Runnable, rotation.turned_runnable ne rotation.young.1]
    exact rotation.young
  · have ne := outside (.inr (show 7 < k.val by omega))
    have unused := rotation.others k beyond
    rw [turned_other t ticks ne, rotation.age_other ne]
    simp [Proc.updateRunsandOthers, Proc.wakeup, unused]

end Rotation

/-- After `n` ticks of the children CPU 0 is in the idle loop. -/
structure Rotates (s : State mlfq.Frame) (n : Nat) : Prop where
  cpu : s.cpu 0 = .idle
  lock : s.lock = none
  timer : s.timer = .ready
  ticks : s.ticks = BitVec.ofNat 32 n
  rotation : Rotation s.ptable s.ticks n

namespace Rotates

variable {s : State mlfq.Frame} {n : Nat} {past : List (State mlfq.Frame × Action)}

/-- Init forks the children and goes to `wait`. -/
def rotationRun : List Action :=
  [.start 0, .dispatch 0, .fork 0, .forkDone 0, .fork 0, .forkDone 0, .fork 0, .forkDone 0, .fork 0, .forkDone 0,
    .fork 0, .forkDone 0, .fork 0, .forkDone 0, .fork 0, .forkDone 0, .fork 0, .forkDone 0, .wait 0, .resume 0]

theorem begins : ∃ past s, Path (mlfq.Under OneCpu) mlfq.boot past s ∧ Rotates s 0 := by
  obtain ⟨past, s, path, reached⟩ := replay_reaches mlfq.step mlfq.boot rotationRun
    (fun past s => (∀ entry ∈ past, OneCpu entry.1 entry.2) ∧ s.cpu 0 = .idle ∧ s.lock = none ∧ s.timer = .ready ∧
      s.ticks = 0 ∧ ((s.ptable initproc).state = .sleeping ∧ (s.ptable initproc).chan = some (.proc initproc)) ∧
      (∀ k : Slot, 1 ≤ k.val → k.val ≤ 7 → s.ptable.Runnable k ∧ (s.ptable k).ctime = 0) ∧
      (∀ k : Slot, 0 < k.val → k.val ≤ 7 → (s.ptable k).queue = 0) ∧
      (s.ptable.Runnable youngest ∧ (s.ptable youngest).ctime = 0 ∧ (s.ptable youngest).queue = 0 ∧
        (s.ptable youngest).lastWorkingticks = 0) ∧
      ∀ k : Slot, 8 < k.val → (s.ptable k).state = .unused) (by decide +kernel)
  simp only [decide_eq_true_eq] at reached
  obtain ⟨one, cpu, lock, timer, ticks, init, older, first, young, others⟩ := reached
  exact ⟨past, s, path.restrict one, cpu, lock, timer, ticks, init, older, first,
    fun k low _ none => absurd low (by omega), young, others⟩

theorem chooses (rotates : Rotates s n) : mlfq.step s (.start 0) = some { s with
    ptable := (age s.ptable s.ticks).modify (elder n) chosen
    cpu := Function.update s.cpu 0 (.picked ⟨0, elder n⟩)
    lock := some 0 } := by
  have started : mlfq.start s.ticks s.ptable = ((age s.ptable s.ticks).modify (elder n) chosen, some ⟨0, elder n⟩) := by
    show MLFQ.start s.ticks s.ptable = _
    unfold MLFQ.start
    rw [rotates.rotation.selected]
    rfl
  simp [Scheduler.step, rotates.cpu, rotates.lock, State.Awake, rotates.timer, started, Scheduler.settle]

theorem turn (rotates : Rotates s n) (path : Path (mlfq.Under OneCpu) mlfq.boot past s) :
    ∃ past' s', Path (mlfq.Under OneCpu) mlfq.boot past' s' ∧ Rotates s' (n + 1) ∧
      waited youngest past' = waited youngest past + 1 := by
  let f : Frame := ⟨0, elder n⟩
  let t₁ := (age s.ptable s.ticks).modify (elder n) chosen
  let t₂ := t₁.modify (elder n) (·.run s.ticks)
  let t₃ := t₂.updateRunsandOthers
  let t₄ := t₃.wakeup1 .ticks
  let t₅ := t₄.modify (elder n) .yield
  let s₁ : State mlfq.Frame := { s with ptable := t₁, cpu := Function.update s.cpu 0 (.picked f), lock := some 0 }
  let s₂ : State mlfq.Frame := { s with ptable := t₂, cpu := Function.update s.cpu 0 (.running f false) }
  let s₃ : State mlfq.Frame := { s₂ with ticks := s.ticks + 1, timer := .counted }
  let s₄ : State mlfq.Frame := { s₃ with ptable := t₃, timer := .charged }
  let s₅ : State mlfq.Frame :=
    { s₄ with ptable := t₄, timer := .ready, cpu := Function.update s.cpu 0 (.running f true) }
  let s₆ : State mlfq.Frame := { s₅ with ptable := t₅, cpu := Function.update s.cpu 0 (.back f), lock := some 0 }
  let s₇ : State mlfq.Frame :=
    { s₆ with ptable := turned s.ptable s.ticks (elder n), cpu := Function.update s.cpu 0 .idle, lock := none }
  have free := rotates.lock
  have ready := rotates.timer
  have started : mlfq.step s (.start 0) = some s₁ := rotates.chooses
  have dispatched : mlfq.step s₁ (.dispatch 0) = some s₂ := by
    simp [Scheduler.step, Scheduler.swtch, s₁, s₂, f, t₂, mlfq, free]
  have counted : mlfq.step s₂ .tick = some s₃ := by
    simp [Scheduler.step, s₂, s₃, ready]
  have charged : mlfq.step s₃ .charge = some s₄ := by
    simp [Scheduler.step, s₃, s₄, s₂, t₃, free]
  have woken : mlfq.step s₄ .wakeTicks = some s₅ := by
    simp [Scheduler.step, s₄, s₃, s₂, s₅, t₄, free, mlfq]
  have yielded : mlfq.step s₅ (.yield 0) = some s₆ := by
    simp [Scheduler.step, Scheduler.sched, s₅, s₄, s₃, s₂, s₆, f, t₅, free, State.Awake, mlfq]
  have resumed : mlfq.step s₆ (.resume 0) = some s₇ := by
    have spent : Spent 0 (t₅ (elder n)) := by
      simp [Spent, maxTickOfQ, t₅, t₄, t₃, t₂, t₁, Table.wakeup1, Table.updateRunsandOthers, Proc.updateRunsandOthers,
        Proc.wakeup, Proc.run, Proc.yield, chosen]
    have left : mlfq.resume s₆.ticks f s₆.ptable = (turned s.ptable s.ticks (elder n), none) :=
      if_neg fun again => again.1 spent
    have back : mlfq.step s₆ (.resume 0) = some (mlfq.settle s₆ 0 (mlfq.resume s₆.ticks f s₆.ptable)) := by
      simp [Scheduler.step, s₆]
    rw [back, left]
    simp [Scheduler.settle, s₇, s₆]
  have ne := elder_ne_youngest n
  have state : (s.ptable youngest).state = .runnable := rotates.rotation.young.1
  have same₁ : t₁ youngest = s.ptable youngest := (Table.modify_of_ne _ _ ne).trans (rotates.rotation.age_other ne)
  have same₂ : t₂ youngest = s.ptable youngest := (Table.modify_of_ne _ _ ne).trans same₁
  have same₃ : t₃ youngest = s.ptable youngest := by
    simp [t₃, Table.updateRunsandOthers, same₂, Proc.updateRunsandOthers, state]
  have same₄ : t₄ youngest = s.ptable youngest := by
    simp [t₄, Table.wakeup1, same₃, Proc.wakeup, state]
  have same₅ : t₅ youngest = s.ptable youngest := (Table.modify_of_ne _ _ ne).trans same₄
  have runnable : ∀ {t : Table}, t youngest = s.ptable youngest → t.Runnable youngest := by
    intro t same
    rw [Table.Runnable, same, state]
  refine ⟨_, s₇, ((((((path.snoc ⟨started, rfl⟩).snoc ⟨dispatched, rfl⟩).snoc ⟨counted, rfl⟩).snoc ⟨charged, rfl⟩).snoc
    ⟨woken, rfl⟩).snoc ⟨yielded, rfl⟩).snoc ⟨resumed, rfl⟩, ?_, ?_⟩
  · refine ⟨by simp [s₇], rfl, rfl, ?_, rotates.rotation.step⟩
    show s.ticks + 1 = _
    rw [rotates.ticks, BitVec.ofNat_add]
    rfl
  · rw [waited_runnable (runnable same₅), waited_runnable (runnable same₄), waited_runnable (runnable same₃),
      waited_runnable (runnable same₂), waited_runnable (runnable same₂), waited_runnable (runnable same₁),
      waited_runnable state]
    simp

theorem turns (n : Nat) : ∃ past s, Path (mlfq.Under OneCpu) mlfq.boot past s ∧ Rotates s n ∧ n ≤ waited youngest past := by
  induction n with
  | zero =>
    obtain ⟨past, s, path, rotates⟩ := begins
    exact ⟨past, s, path, rotates, Nat.zero_le _⟩
  | succ n ih =>
    obtain ⟨past, s, path, rotates, waits⟩ := ih
    obtain ⟨past', s', path', rotates', more⟩ := rotates.turn path
    exact ⟨past', s', path', rotates', by omega⟩

theorem waits (n : Nat) : ∃ past s, Path (mlfq.Under OneCpu) mlfq.boot past s ∧
    mlfq.dispatched s (.dispatch 0) = some (elder n) ∧ s.ptable.Runnable youngest ∧ (s.ptable youngest).queue = 0 ∧
      s.ticks - (s.ptable youngest).lastWorkingticks = BitVec.ofNat 32 n ∧ n ≤ waited youngest past := by
  obtain ⟨past, s, path, rotates, count⟩ := turns n
  have ne := elder_ne_youngest n
  obtain ⟨runnable, -, queue, last⟩ := rotates.rotation.young
  have same : ((age s.ptable s.ticks).modify (elder n) chosen) youngest = s.ptable youngest :=
    (Table.modify_of_ne _ _ ne).trans (rotates.rotation.age_other ne)
  refine ⟨_, _, path.snoc ⟨rotates.chooses, rfl⟩, by simp [dispatched, mlfq], ?_, ?_, ?_, ?_⟩
  · exact (congrArg Proc.state same).trans runnable
  · exact (congrArg Proc.queue same).trans queue
  · show s.ticks - ((age s.ptable s.ticks).modify (elder n) chosen youngest).lastWorkingticks = _
    rw [same, last, rotates.ticks]
    exact BitVec.sub_zero _
  · rw [waited_runnable runnable]
    exact Nat.le_add_right_of_le count

end Rotates

end MLFQ

end Xv6.Sched
