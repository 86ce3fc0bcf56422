import Xv6.Log.Operations
import Mathlib.Data.Finset.Card

namespace Xv6.Log

open Function Transition

variable {l : Layout} {s s' : State} {a b : Action} {p q : Nat} {past : List (State × Action)}

/-- The process is between `begin_op` and `end_op`. -/
def Pc.Active : Pc → Prop
  | .inside _ | .tested _ _ => True
  | _ => False

def Pc.Committing : Pc → Prop
  | .commit _ => True
  | _ => False

/-- `outstanding` counts the operations in progress, and a commit excludes them. -/
structure Orderly (s : State) : Prop where
  count : ∃ active : Finset Nat, (∀ p, p ∈ active ↔ (s.pc p).Active) ∧ s.outstanding = active.card
  committing : ∀ p, (s.pc p).Committing → s.committing = true
  alone : ∀ p q, (s.pc p).Committing → (s.pc q).Committing → p = q
  busy : s.committing = true → s.outstanding = 0
  calm : s.panicked ≠ some "log.committing" ∧ s.panicked ≠ some "log_write outside of trans"

namespace Orderly

theorem positive (held : Orderly s) (active : (s.pc p).Active) : 0 < s.outstanding := by
  obtain ⟨set, mem, eq⟩ := held.count
  have pos := Finset.card_pos.mpr ⟨p, (mem p).mpr active⟩
  omega

theorem idle (held : Orderly s) (busy : s.committing = true) (p : Nat) : ¬ (s.pc p).Active := by
  intro active
  have pos := held.positive active
  have zero := held.busy busy
  omega

theorem count_of_same (held : Orderly s) {pc : Nat → Pc} (same : ∀ q, (pc q).Active ↔ (s.pc q).Active) :
    ∃ active : Finset Nat, (∀ q, q ∈ active ↔ (pc q).Active) ∧ s.outstanding = active.card := by
  obtain ⟨set, mem, eq⟩ := held.count
  exact ⟨set, fun q => (mem q).trans (same q).symm, eq⟩

theorem move_active {pc : Pc} (same : pc.Active ↔ (s.pc p).Active) (q : Nat) :
    (update s.pc p pc q).Active ↔ (s.pc q).Active := by
  by_cases eq : q = p
  · subst eq
    rw [update_self, same]
  · rw [update_of_ne eq]

theorem wakeup_active (q : Nat) : (s.wakeup.pc q).Active ↔ (s.pc q).Active := by
  unfold State.wakeup
  dsimp only
  split
  · simp [Pc.Active, ‹s.pc q = _›]
  · exact Iff.rfl

theorem wakeup_committing (q : Nat) : (s.wakeup.pc q).Committing ↔ (s.pc q).Committing := by
  unfold State.wakeup
  dsimp only
  split
  · simp [Pc.Committing, ‹s.pc q = _›]
  · exact Iff.rfl

theorem move_committing {pc : Pc} (no_new : pc.Committing → (s.pc p).Committing) (committing : (update s.pc p pc q).Committing) :
    (s.pc q).Committing := by
  by_cases eq : q = p
  · subst eq
    rw [update_self] at committing
    exact no_new committing
  · rwa [update_of_ne eq] at committing

theorem move (held : Orderly s) {pc : Pc} {block : List Nat} (same : pc.Active ↔ (s.pc p).Active)
    (no_new : pc.Committing → (s.pc p).Committing) : Orderly { s with pc := update s.pc p pc, block := block } where
  count := held.count_of_same (move_active same)
  committing q committing := held.committing q (move_committing no_new committing)
  alone q r first second := held.alone q r (move_committing no_new first) (move_committing no_new second)
  busy := held.busy
  calm := held.calm

theorem start : Orderly .start where
  count := ⟨∅, fun p => by simp [State.start, Pc.Active], rfl⟩
  committing p committing := committing.elim
  alone p q committing := committing.elim
  busy := nofun
  calm := ⟨nofun, nofun⟩

theorem begin (held : Orderly s) (outside : s.pc p = .out ∨ s.pc p = .woken) (free : s.committing = false) :
    Orderly { s.move p (.inside []) with outstanding := s.outstanding + 1 } where
  count := by
    obtain ⟨set, mem, eq⟩ := held.count
    have new : p ∉ set := by
      rw [mem p]
      rcases outside with h | h <;> rw [h] <;> exact id
    refine ⟨insert p set, fun q => ?_, by rw [Finset.card_insert_of_notMem new, eq]; rfl⟩
    by_cases same : q = p
    · subst same
      simp [State.move, Pc.Active]
    · simp [State.move, same, mem q]
  committing q committing := held.committing q (move_committing False.elim committing)
  alone q r first second := held.alone q r (move_committing False.elim first) (move_committing False.elim second)
  busy busy := by
    have busy : s.committing = true := busy
    rw [free] at busy
    cases busy
  calm := held.calm

theorem less (held : Orderly s) (active : (s.pc p).Active) (pc : Pc) (ended : ¬ pc.Active) :
    ∃ set : Finset Nat, (∀ q, q ∈ set ↔ (update s.pc p pc q).Active) ∧ s.outstanding - 1 = set.card := by
  obtain ⟨set, mem, eq⟩ := held.count
  have inside := (mem p).mpr active
  have pos := Finset.card_pos.mpr ⟨p, inside⟩
  refine ⟨set.erase p, fun q => ?_, by rw [Finset.card_erase_of_mem inside]; omega⟩
  by_cases same : q = p
  · subst same
    simp [ended]
  · simp [same, mem q]

theorem commitStep (held : Orderly s) {stage : Stage} (at_p : s.pc p = .commit stage) :
    Orderly (Layout.commitStep s p stage) := by
  have still : ∀ next block, Orderly { s with pc := update s.pc p (.commit next), block := block } := fun next block =>
    held.move (by simp [at_p, Pc.Active]) (fun _ => by simp [at_p, Pc.Committing])
  cases stage with
  | done =>
    have nobody : ∀ q, ¬ (update s.pc p .out q).Committing := by
      intro q committing
      by_cases same : q = p
      · subst same
        rw [update_self] at committing
        exact committing
      · rw [update_of_ne same] at committing
        exact same (held.alone q p committing (by rw [at_p]; trivial))
    have nobody : ∀ q, ¬ ((s.move p .out).wakeup.pc q).Committing := fun q =>
      (wakeup_committing q).not.mpr (nobody q)
    exact
      { count := held.count_of_same fun q =>
          (wakeup_active q).trans (move_active (by simp [at_p, Pc.Active]) q)
        committing := fun q committing => absurd committing (nobody q)
        alone := fun q r committing => absurd committing (nobody q)
        busy := nofun
        calm := held.calm }
  | _ => exact still _ _

theorem step (held : Orderly s) (taken : l.Takes s a s') : Orderly s' := by
  cases (step_cases taken).2 with
  | wait p outside => exact held.move (by rcases outside with h | h <;> simp [h, Pc.Active]) False.elim
  | begin p outside free room => exact held.begin outside free
  | tooBig p blockno logged at_p full => exact { held with calm := ⟨by simp, by simp⟩ }
  | alone p blockno logged at_p none =>
    have pos := held.positive (p := p) (by rw [at_p]; trivial)
    omega
  | logWrite p blockno logged at_p room fits => exact held.move (by simp [at_p, Pc.Active]) False.elim
  | append p blockno logged at_p => exact held.move (by simp [at_p, Pc.Active]) False.elim
  | clash p logged at_p busy => exact absurd (by rw [at_p]; trivial) (held.idle busy p)
  | last p logged at_p free last =>
    have none : ∀ q, ¬ (s.pc q).Committing := by
      intro q committing
      have busy := held.committing q committing
      rw [free] at busy
      cases busy
    have only : ∀ q, (update s.pc p (.commit .check) q).Committing → q = p := by
      intro q committing
      by_contra other
      rw [update_of_ne other] at committing
      exact none q committing
    exact
      { count := held.less (by rw [at_p]; trivial) _ id
        committing := fun _ _ => rfl
        alone := fun q r first second => (only q first).trans (only r second).symm
        busy := fun _ => last
        calm := held.calm }
  | endOp p logged at_p free others =>
    have old : ∀ q, ((s.move p .out).wakeup.pc q).Committing → (s.pc q).Committing := fun q committing =>
      move_committing False.elim ((wakeup_committing q).mp committing)
    obtain ⟨set, mem, eq⟩ := held.less (by rw [at_p]; trivial : (s.pc p).Active) .out id
    exact
      { count := ⟨set, fun q => (mem q).trans (wakeup_active (s := s.move p .out) q).symm, eq⟩
        committing := fun q committing => held.committing q (old q committing)
        alone := fun q r first second => held.alone q r (old q first) (old r second)
        busy := fun busy => by
          have busy : s.committing = true := busy
          rw [free] at busy
          cases busy
        calm := held.calm }
  | commit p stage at_p => exact held.commitStep at_p

theorem reached {x : State} (held : Orderly x) (path : Path l.Takes x past s) : Orderly s :=
  path.always held fun held taken => held.step taken

theorem locked_out (held : Orderly s) (busy : s.committing = true) (taken : l.Takes s a s') :
    (∃ p stage, a = .commit p ∧ s.pc p = .commit stage) ∨ ∃ p, a = .beginOp p ∧ s' = s.move p .asleep := by
  have inside : ∀ p logged, s.pc p ≠ .inside logged := fun p logged at_p => held.idle busy p (by rw [at_p]; trivial)
  have tested : ∀ p logged b, s.pc p ≠ .tested logged b := fun p logged b at_p => held.idle busy p (by rw [at_p]; trivial)
  cases (step_cases taken).2 with
  | wait p outside => exact .inr ⟨p, rfl, rfl⟩
  | begin p outside free room =>
    rw [free] at busy
    cases busy
  | tooBig p blockno logged at_p full => exact absurd at_p (inside p logged)
  | alone p blockno logged at_p none => exact absurd at_p (inside p logged)
  | logWrite p blockno logged at_p room fits => exact absurd at_p (inside p logged)
  | append p blockno logged at_p => exact absurd at_p (tested p logged blockno)
  | clash p logged at_p busy => exact absurd at_p (inside p logged)
  | last p logged at_p free last => exact absurd at_p (inside p logged)
  | endOp p logged at_p free others => exact absurd at_p (inside p logged)
  | commit p stage at_p => exact .inl ⟨p, stage, rfl, at_p⟩

theorem mem_absorb {block : List Nat} {b c : Nat} : b ∈ absorb block c ↔ b ∈ block ∨ b = c := by
  induction block with
  | nil => simp [absorb]
  | cons d block ih =>
    unfold absorb
    split
    · subst d
      constructor
      · exact .inl
      · intro either
        rcases either with member | eq
        · exact member
        · exact eq ▸ .head _
    · simp [ih, or_assoc]

/-- Up to its end_op an operation stays in progress, no commit takes a step and the log keeps what it has. -/
theorem within (held : Orderly s) (taken : l.Takes s a s') (active : (s.pc p).Active) (goes_on : a ≠ .endOp p) :
    (s'.pc p).Active ∧ (∀ q, a ≠ .commit q) ∧ ∀ b ∈ s.block, b ∈ s'.block := by
  have stays : ∀ q pc, (q = p → pc.Active) → (update s.pc q pc p).Active := by
    intro q pc mine
    by_cases eq : p = q
    · subst eq
      rw [update_self]
      exact mine rfl
    · rwa [update_of_ne eq]
  have outside : ∀ q, s.pc q = .out ∨ s.pc q = .woken → q ≠ p := by
    intro q away eq
    subst eq
    rcases away with h | h <;> rw [h] at active <;> exact active
  cases (step_cases taken).2 with
  | wait q away => exact ⟨stays q _ fun eq => absurd eq (outside q away), nofun, fun _ => id⟩
  | begin q away free room => exact ⟨stays q _ fun _ => trivial, nofun, fun _ => id⟩
  | tooBig q blockno logged at_q full => exact ⟨active, nofun, fun _ => id⟩
  | alone q blockno logged at_q none => exact ⟨active, nofun, fun _ => id⟩
  | logWrite q blockno logged at_q room fits => exact ⟨stays q _ fun _ => trivial, nofun, fun _ => id⟩
  | append q blockno logged at_q => exact ⟨stays q _ fun _ => trivial, nofun, fun b member => mem_absorb.mpr (.inl member)⟩
  | clash q logged at_q busy => exact ⟨active, nofun, fun _ => id⟩
  | last q logged at_q free last => exact ⟨stays q _ fun eq => absurd (congrArg _ eq) goes_on, nofun, fun _ => id⟩
  | endOp q logged at_q free others =>
    exact ⟨(wakeup_active p).mpr (stays q _ fun eq => absurd (congrArg _ eq) goes_on), nofun, fun _ => id⟩
  | commit q stage at_q =>
    have busy := held.committing q (by rw [at_q]; trivial)
    exact absurd active (held.idle busy p)

theorem operation {x : State} (held : Orderly x) (path : Path l.Takes x past s) (active : (x.pc p).Active)
    (goes_on : ∀ entry ∈ past, entry.2 ≠ .endOp p) : (s.pc p).Active ∧ ∀ b ∈ x.block, b ∈ s.block := by
  induction path with
  | nil => exact ⟨active, fun _ => id⟩
  | snoc before taken ih =>
    have ih := ih fun entry member => goes_on entry (.tail _ member)
    have next := (held.reached before).within taken ih.1 (goes_on _ (.head _))
    exact ⟨next.1, fun b member => next.2.2 b (ih.2 b member)⟩

end Orderly

/-- Commits contain whole operations only: a commit runs alone, with no operation in progress; nobody enters or logs
    until it is over; and what an operation logs is in the log, uncommitted, at every step up to its end_op. -/
theorem commits_whole_operations (l : Layout) {past : List (State × Action)} {s : State}
    (path : Path l.Takes .start past s) :
    (∀ p stage, s.pc p = .commit stage →
      s.committing = true ∧ s.outstanding = 0 ∧ ∀ q stage', s.pc q = .commit stage' → q = p) ∧
    (s.committing = true → ∀ a s', l.Takes s a s' →
      (∃ p stage, a = .commit p ∧ s.pc p = .commit stage) ∨ ∃ p, a = .beginOp p ∧ s' = s.move p .asleep) ∧
    s.panicked ≠ some "log.committing" ∧
    ∀ later y a between x before p, past = later ++ (y, a) :: (between ++ (x, .append p) :: before) →
      (∀ entry ∈ between, entry.2 ≠ .endOp p) →
        (∀ q, a ≠ .commit q) ∧ ∀ logged b, x.pc p = .tested logged b → b ∈ y.block := by
  have held : Orderly s := Orderly.start.reached path
  refine ⟨fun p stage at_p => ?_, fun busy a s' => held.locked_out busy, held.calm.1,
    fun later y a between x before p eq goes_on => ?_⟩
  · have busy := held.committing p (by rw [at_p]; trivial)
    exact ⟨busy, held.busy busy, fun q stage' at_q => held.alone q p (by rw [at_q]; trivial) (by rw [at_p]; trivial)⟩
  · subst eq
    obtain ⟨early, z, taken, -⟩ := path.cut
    obtain ⟨early, x', appended, middle⟩ := early.cut
    have sound : Orderly x' := (Orderly.start.reached early).step appended
    cases (step_cases appended).2 with
    | append _ blockno logged at_p =>
      have active : ((update x.pc p (.inside (logged.insert blockno))) p).Active := by
        rw [update_self]
        trivial
      have inside := sound.operation middle active goes_on
      constructor
      · intro q eq
        subst eq
        have sound : Orderly y := sound.reached middle
        cases (step_cases taken).2 with
        | commit q stage at_q => exact sound.idle (sound.committing q (by rw [at_q]; trivial)) p inside.1
      · intro logged' b at_p'
        rw [at_p] at at_p'
        cases at_p'
        exact inside.2 _ (Orderly.mem_absorb.mpr (.inr rfl))

/-- Two operations share a transaction, which the second one commits. -/
theorem commits_whole_operations_of_two : ∃ past s, Path (Layout.Takes ⟨2, 30, by decide⟩) .start past s ∧
    s.pc 1 = .commit (.writeLog 0) ∧ s.committing = true ∧ s.outstanding = 0 := by
  obtain ⟨past, s, path, at_p⟩ := replay_reaches (Layout.step ⟨2, 30, by decide⟩) .start
    [.beginOp 0, .beginOp 1, .logWrite 0 60, .append 0, .logWrite 1 61, .append 1, .endOp 0, .endOp 1, .commit 1]
    (fun _ s => s.pc 1 = .commit (.writeLog 0)) (by decide +kernel)
  simp only [decide_eq_true_eq] at at_p
  have whole := (commits_whole_operations _ path).1 1 _ at_p
  exact ⟨past, s, path, at_p, whole.1, whole.2.1⟩

end Xv6.Log
