import Xv6.Log.Commits
import Xv6.Log.Recovery

namespace Xv6.Log

open Function Transition

variable {s s' : State} {a : Action} {past : List (State × Action)}

def Modest (s : State) : Action → Prop
  | .logWrite p blockno =>
    match s.pc p with
    | .inside logged => (logged.insert blockno).length ≤ MAXOPBLOCKS
    | _ => True
  | _ => True

/-- The blocks that operations have passed to `log_write` since one began when no other was in progress: those that are
    admitted together share a transaction. -/
def asked : List (State × Action) → List Nat
  | [] => []
  | (_, .logWrite _ blockno) :: past => (asked past).insert blockno
  | (s, .endOp _) :: past => if s.outstanding - 1 = 0 then [] else asked past
  | _ :: past => asked past

/-- The operations that share a transaction name at most as many blocks as the log has for data, and nothing more is
    logged once they have named so many. -/
def Together (past : List (State × Action)) (_ : State) : Action → Prop
  | .logWrite _ _ => (asked past).length + 1 < imageLog.size
  | _ => True

instance (s : State) (a : Action) : Decidable (Modest s a) := by
  unfold Modest
  split
  · split <;> infer_instance
  · infer_instance

instance (past : List (State × Action)) (s : State) : (a : Action) → Decidable (Together past s a)
  | .logWrite _ _ => inferInstanceAs (Decidable ((asked past).length + 1 < imageLog.size))
  | .beginOp _ | .append _ | .endOp _ | .commit _ => .isTrue trivial

theorem absorb_of_mem {block : List Nat} {b : Nat} (member : b ∈ block) : absorb block b = block := by
  induction block with
  | nil => cases member
  | cons c block ih =>
    unfold absorb
    split
    · rfl
    · cases member with
      | head => contradiction
      | tail _ member => rw [ih member]

theorem absorb_of_not_mem {block : List Nat} {b : Nat} (new : b ∉ block) : absorb block b = block ++ [b] := by
  induction block with
  | nil => rfl
  | cons c block ih =>
    rw [List.mem_cons, not_or] at new
    rw [absorb, if_neg (Ne.symm new.1), ih new.2, List.cons_append]

theorem absorb_nodup {block : List Nat} (distinct : block.Nodup) (b : Nat) : (absorb block b).Nodup := by
  by_cases member : b ∈ block
  · rw [absorb_of_mem member]
    exact distinct
  · rw [absorb_of_not_mem member]
    rw [← List.concat_eq_append]
    exact distinct.concat member

/-- The transaction fits in the log: it holds what its operations have asked for, once that is appended. -/
structure Fitting (past : List (State × Action)) (s : State) : Prop where
  order : Orderly s
  distinct : s.block.Nodup
  fits : s.n + 1 ≤ imageLog.size
  calm : s.panicked ≠ some "too big a transaction"
  few : (asked past).length + 1 ≤ imageLog.size
  apart : (asked past).Nodup
  named : s.committing = false → ∀ b ∈ s.block, b ∈ asked past
  pending : ∀ p logged b, s.pc p = .tested logged b → b ∈ asked past
  covered : s.committing = false → ∀ b ∈ asked past, b ∈ s.block ∨ ∃ p logged, s.pc p = .tested logged b
  fresh : s.committing = true → asked past = []
  cleared : ∀ p stage, s.pc p = .commit stage → stage = .eraseHead ∨ stage = .done → s.block = []

namespace Fitting

theorem start : Fitting [] .start where
  order := .start
  distinct := List.nodup_nil
  fits := by decide
  calm := Option.some_ne_none _ |>.symm
  few := by decide
  apart := List.nodup_nil
  named _ b member := member
  pending p logged b at_p := by cases at_p
  covered _ b member := by cases member
  fresh _ := rfl
  cleared p stage at_p := by cases at_p

variable {p : Nat}

theorem free (held : Fitting past s) (active : (s.pc p).Active) : s.committing = false := by
  by_contra busy
  exact held.order.idle (by simpa using busy) p active

theorem n_le (held : Fitting past s) (free : s.committing = false) : s.n ≤ (asked past).length :=
  (held.distinct.subperm (held.named free)).length_le

/-- Without a `log_write` between its test and its append, the transaction has all that was asked for. -/
theorem n_eq (held : Fitting past s) (free : s.committing = false) (settled : ∀ p logged b, s.pc p ≠ .tested logged b) :
    s.n = (asked past).length := by
  apply Nat.le_antisymm (held.n_le free)
  apply List.Subperm.length_le
  apply held.apart.subperm
  intro b member
  rcases held.covered free b member with here | ⟨q, logged, at_q⟩
  · exact here
  · exact absurd at_q (settled q logged b)

/-- A step that names no block, logs none and neither starts nor ends a commit. -/
theorem same (held : Fitting past s) {entry : State × Action} (order : Orderly s')
    (asked_eq : asked (entry :: past) = asked past) (block : s'.block = s.block) (committing : s'.committing = s.committing)
    (calm : s'.panicked ≠ some "too big a transaction")
    (tested : ∀ q logged b, s'.pc q = .tested logged b ↔ s.pc q = .tested logged b)
    (commits : ∀ q stage, s'.pc q = .commit stage → s.pc q = .commit stage) : Fitting (entry :: past) s' where
  order := order
  distinct := block ▸ held.distinct
  fits := by
    unfold State.n
    rw [block]
    exact held.fits
  calm := calm
  few := asked_eq ▸ held.few
  apart := asked_eq ▸ held.apart
  named free := by
    rw [block, asked_eq]
    exact held.named (committing ▸ free)
  pending q logged b at_q := by
    rw [asked_eq]
    exact held.pending q logged b ((tested q logged b).mp at_q)
  covered free b member := by
    rw [asked_eq] at member
    rw [block]
    rcases held.covered (committing ▸ free) b member with here | ⟨q, logged, at_q⟩
    · exact .inl here
    · exact .inr ⟨q, logged, (tested q logged b).mpr at_q⟩
  fresh busy := by
    rw [asked_eq]
    exact held.fresh (committing ▸ busy)
  cleared q stage at_q late := by
    rw [block]
    exact held.cleared q stage (commits q stage at_q) late

/-- The process that is moved is not between its test and its append, before or after. -/
theorem tested_of_move {pc : Pc} (before : ∀ logged b, s.pc p ≠ .tested logged b) (after : ∀ logged b, pc ≠ .tested logged b)
    (q : Nat) (logged : List Nat) (b : Nat) : update s.pc p pc q = .tested logged b ↔ s.pc q = .tested logged b := by
  by_cases eq : q = p
  · subst eq
    rw [update_self]
    exact iff_of_false (after logged b) (before logged b)
  · rw [update_of_ne eq]

theorem commits_of_move {pc : Pc} (after : ∀ stage, pc ≠ .commit stage) (q : Nat) (stage : Stage)
    (at_q : update s.pc p pc q = .commit stage) : s.pc q = .commit stage := by
  by_cases eq : q = p
  · subst eq
    rw [update_self] at at_q
    exact absurd at_q (after stage)
  · rwa [update_of_ne eq] at at_q

theorem wakeup_eq {pc : Pc} (asleep : pc ≠ .asleep) (woken : pc ≠ .woken) (q : Nat) :
    s.wakeup.pc q = pc ↔ s.pc q = pc := by
  unfold State.wakeup
  dsimp only
  split
  · rename_i at_q
    rw [at_q]
    exact iff_of_false woken.symm asleep.symm
  · exact Iff.rfl

theorem move_pc_self {pc : Pc} : (s.move p pc).pc p = pc := update_self ..

theorem move_pc_of_ne {pc : Pc} {q : Nat} (other : q ≠ p) : (s.move p pc).pc q = s.pc q := update_of_ne other ..

theorem logWrite (held : Fitting past s) {logged : List Nat} {blockno : Nat} (at_p : s.pc p = .inside logged)
    (taken : imageLog.Takes s (.logWrite p blockno) (s.move p (.tested logged blockno)))
    (room : (asked past).length + 1 < imageLog.size) :
    Fitting ((s, .logWrite p blockno) :: past) (s.move p (.tested logged blockno)) := by
  have free : s.committing = false := held.free (p := p) (by rw [at_p]; trivial)
  exact
    { order := held.order.step taken
      distinct := held.distinct
      fits := held.fits
      calm := held.calm
      few := by
        show ((asked past).insert blockno).length + 1 ≤ imageLog.size
        rw [List.length_insert]
        split <;> omega
      apart := held.apart.insert
      named := fun _ b member => List.mem_insert_of_mem (held.named free b member)
      pending := fun q tested b at_q => by
        by_cases eq : q = p
        · subst eq
          rw [move_pc_self] at at_q
          cases at_q
          exact List.mem_insert_self
        · rw [move_pc_of_ne eq] at at_q
          exact List.mem_insert_of_mem (held.pending q tested b at_q)
      covered := fun _ b member => by
        rcases List.mem_insert_iff.mp member with eq | member
        · exact .inr ⟨p, logged, by rw [move_pc_self, eq]⟩
        · rcases held.covered free b member with here | ⟨q, tested, at_q⟩
          · exact .inl here
          · right
            refine ⟨q, tested, ?_⟩
            rw [move_pc_of_ne, at_q]
            intro eq
            rw [eq, at_p] at at_q
            cases at_q
      fresh := fun busy => absurd (busy.symm.trans free) Bool.noConfusion
      cleared := fun q stage at_q late => held.cleared q stage (commits_of_move (by simp) q stage at_q) late }

theorem append (held : Fitting past s) {logged : List Nat} {blockno : Nat} (at_p : s.pc p = .tested logged blockno)
    (taken : imageLog.Takes s (.append p)
      { s.move p (.inside (logged.insert blockno)) with block := absorb s.block blockno }) :
    Fitting ((s, .append p) :: past)
      { s.move p (.inside (logged.insert blockno)) with block := absorb s.block blockno } := by
  have free : s.committing = false := held.free (p := p) (by rw [at_p]; trivial)
  have named : ∀ b ∈ absorb s.block blockno, b ∈ asked past := by
    intro b member
    rcases Orderly.mem_absorb.mp member with old | eq
    · exact held.named free b old
    · exact eq ▸ held.pending p logged blockno at_p
  have distinct := absorb_nodup held.distinct blockno
  exact
    { order := held.order.step taken
      distinct := distinct
      fits := (Nat.add_le_add_right (distinct.subperm named).length_le 1).trans held.few
      calm := held.calm
      few := held.few
      apart := held.apart
      named := fun _ => named
      pending := fun q tested b at_q => by
        by_cases eq : q = p
        · subst eq
          rw [move_pc_self] at at_q
          cases at_q
        · rw [move_pc_of_ne eq] at at_q
          exact held.pending q tested b at_q
      covered := fun _ b member => by
        rcases held.covered free b member with here | ⟨q, tested, at_q⟩
        · exact .inl (Orderly.mem_absorb.mpr (.inl here))
        · by_cases eq : q = p
          · subst eq
            rw [at_p] at at_q
            cases at_q
            exact .inl (Orderly.mem_absorb.mpr (.inr rfl))
          · exact .inr ⟨q, tested, by rw [move_pc_of_ne eq, at_q]⟩
      fresh := fun busy => absurd (busy.symm.trans free) Bool.noConfusion
      cleared := fun q stage at_q late => by
        have busy := held.order.committing q (by rw [commits_of_move (by simp) q stage at_q]; trivial)
        exact absurd (busy.symm.trans free) Bool.noConfusion }

/-- The last operation of a transaction ends: nothing is asked for while it is committed. -/
theorem last (held : Fitting past s) {logged : List Nat} (at_p : s.pc p = .inside logged) (free : s.committing = false)
    (alone : s.outstanding - 1 = 0)
    (taken : imageLog.Takes s (.endOp p)
      { s.move p (.commit .check) with outstanding := s.outstanding - 1, committing := true }) :
    Fitting ((s, .endOp p) :: past)
      { s.move p (.commit .check) with outstanding := s.outstanding - 1, committing := true } := by
  have nothing : asked ((s, .endOp p) :: past) = [] := by
    unfold asked
    rw [if_pos alone]
  have order := held.order.step taken
  exact
    { order := order
      distinct := held.distinct
      fits := held.fits
      calm := held.calm
      few := by
        rw [nothing]
        decide
      apart := by
        rw [nothing]
        exact List.nodup_nil
      named := fun free => absurd free Bool.noConfusion
      pending := fun q tested b at_q => absurd (by rw [at_q]; trivial) (order.idle rfl q)
      covered := fun free => absurd free Bool.noConfusion
      fresh := fun _ => nothing
      cleared := fun q stage at_q late => by
        by_cases eq : q = p
        · subst eq
          rw [move_pc_self] at at_q
          cases at_q
          rcases late with late | late <;> cases late
        · rw [move_pc_of_ne eq] at at_q
          have busy := held.order.committing q (by rw [at_q]; trivial)
          exact absurd (busy.symm.trans free) Bool.noConfusion }

theorem commitStep_block (held : Fitting past s) {stage : Stage} (at_p : s.pc p = .commit stage) :
    ((Layout.commitStep s p stage).block = s.block ∨ (Layout.commitStep s p stage).block = []) ∧
      ((Layout.commitStep s p stage).committing = false → (Layout.commitStep s p stage).block = []) ∧
      ∀ q next, (Layout.commitStep s p stage).pc q = .commit next → next = .eraseHead ∨ next = .done →
        (Layout.commitStep s p stage).block = [] := by
  have busy := held.order.committing p (by rw [at_p]; trivial)
  have others : ∀ q, q ≠ p → ∀ next, s.pc q ≠ .commit next := fun q other next at_q =>
    other (held.order.alone q p (by rw [at_q]; trivial) (by rw [at_p]; trivial))
  -- what the process that commits does next, when it goes on
  have goes_on : ∀ (pc : Stage) (block : List Nat), (pc = .eraseHead ∨ pc = .done → block = []) → ∀ q next,
      update s.pc p (.commit pc) q = .commit next → next = .eraseHead ∨ next = .done → block = [] := by
    intro pc block empty q next at_q late
    by_cases eq : q = p
    · subst eq
      rw [update_self] at at_q
      cases at_q
      exact empty late
    · rw [update_of_ne eq] at at_q
      exact absurd at_q (others q eq next)
  cases stage with
  | check =>
    refine ⟨.inl rfl, fun free => absurd (busy.symm.trans free) Bool.noConfusion, goes_on _ _ fun late => ?_⟩
    by_cases some_n : s.n > 0
    · rw [if_pos some_n] at late
      rcases late with late | late <;> cases late
    · exact List.length_eq_zero_iff.mp (Nat.eq_zero_of_not_pos some_n)
  | writeLog tail =>
    refine ⟨.inl rfl, fun free => absurd (busy.symm.trans free) Bool.noConfusion, goes_on _ _ fun late => ?_⟩
    split at late <;> rcases late with late | late <;> cases late
  | writeHead =>
    refine ⟨.inl rfl, fun free => absurd (busy.symm.trans free) Bool.noConfusion, goes_on _ _ fun late => ?_⟩
    rcases late with late | late <;> cases late
  | install tail =>
    refine ⟨.inl rfl, fun free => absurd (busy.symm.trans free) Bool.noConfusion, goes_on _ _ fun late => ?_⟩
    split at late <;> rcases late with late | late <;> cases late
  | clear => exact ⟨.inr rfl, fun _ => rfl, fun _ _ _ _ => rfl⟩
  | eraseHead =>
    have empty : s.block = [] := held.cleared p _ at_p (.inl rfl)
    exact ⟨.inl rfl, fun _ => empty, fun _ _ _ _ => empty⟩
  | done =>
    have empty : s.block = [] := held.cleared p _ at_p (.inr rfl)
    exact ⟨.inl rfl, fun _ => empty, fun _ _ _ _ => empty⟩

theorem commitStep (held : Fitting past s) {stage : Stage} (at_p : s.pc p = .commit stage)
    (taken : imageLog.Takes s (.commit p) (Layout.commitStep s p stage)) :
    Fitting ((s, .commit p) :: past) (Layout.commitStep s p stage) := by
  have busy := held.order.committing p (by rw [at_p]; trivial)
  obtain ⟨block, freed, late⟩ := held.commitStep_block at_p
  have nobody : ∀ q, ¬ ((Layout.commitStep s p stage).pc q).Active := by
    intro q active
    obtain ⟨set, mem, eq⟩ := (held.order.step taken).count
    have pos := Finset.card_pos.mpr ⟨q, (mem q).mpr active⟩
    have still : (Layout.commitStep s p stage).outstanding = s.outstanding := by cases stage <;> rfl
    have none := held.order.busy busy
    omega
  have nothing : asked ((s, .commit p) :: past) = [] := held.fresh busy
  exact
    { order := held.order.step taken
      distinct := by
        rcases block with eq | eq <;> rw [eq]
        · exact held.distinct
        · exact List.nodup_nil
      fits := by
        unfold State.n
        rcases block with eq | eq <;> rw [eq]
        · exact held.fits
        · decide
      calm := by
        have same : (Layout.commitStep s p stage).panicked = s.panicked := by cases stage <;> rfl
        rw [same]
        exact held.calm
      few := by
        rw [nothing]
        decide
      apart := by
        rw [nothing]
        exact List.nodup_nil
      named := fun free b member => by
        rw [freed free] at member
        cases member
      pending := fun q tested b at_q => absurd (by rw [at_q]; trivial) (nobody q)
      covered := fun _ b member => by
        rw [nothing] at member
        cases member
      fresh := fun _ => nothing
      cleared := late }

theorem step (held : Fitting past s) (together : Together past s a) (taken : imageLog.Takes s a s') :
    Fitting ((s, a) :: past) s' := by
  have order := held.order.step taken
  have outside : ∀ q, s.pc q = .out ∨ s.pc q = .woken → ∀ logged b, s.pc q ≠ .tested logged b := by
    intro q either logged b at_q
    rcases either with h | h <;> rw [h] at at_q <;> cases at_q
  cases (step_cases taken).2 with
  | wait q away =>
    exact held.same order rfl rfl rfl held.calm (tested_of_move (outside q away) (by simp)) (commits_of_move (by simp))
  | begin q away free room =>
    exact held.same order rfl rfl rfl held.calm (tested_of_move (outside q away) (by simp)) (commits_of_move (by simp))
  | tooBig q blockno logged at_q full =>
    have low : (asked past).length + 1 < imageLog.size := together
    have n_le := held.n_le (held.free (p := q) (by rw [at_q]; trivial))
    have size : imageLog.size = 30 := rfl
    have LOGSIZE_eq : LOGSIZE = 30 := rfl
    omega
  | alone q blockno logged at_q none => exact absurd rfl order.calm.2
  | logWrite q blockno logged at_q room fits => exact held.logWrite at_q taken together
  | append q blockno logged at_q => exact held.append at_q taken
  | clash q logged at_q busy => exact absurd rfl order.calm.1
  | last q logged at_q free last => exact held.last at_q free last taken
  | endOp q logged at_q free others =>
    have moved : ∀ pc : Pc, pc ≠ .asleep → pc ≠ .woken → ∀ r, (s.move q .out).wakeup.pc r = pc ↔ (s.move q .out).pc r = pc :=
      fun pc asleep woken r => wakeup_eq asleep woken r
    apply held.same order (by rw [asked, if_neg others]) rfl rfl held.calm
    · intro r logged' b
      exact (moved _ (by simp) (by simp) r).trans (tested_of_move (by simp [at_q]) (by simp) r logged' b)
    · intro r stage at_r
      exact commits_of_move (by simp) r stage ((moved _ (by simp) (by simp) r).mp at_r)
  | commit q stage at_q => exact held.commitStep at_q taken

end Fitting

/-- A run whose operations keep together within the log: no panic, never more blocks than the log holds, no block past
    its end, and no block twice. Once they have named as many blocks as it holds, and every `log_write` is past its
    append, the next one panics. -/
theorem log_holds (path : Path imageLog.Takes .start past s) (meets : Throughout Together past) :
    (s.panicked ≠ some "too big a transaction" ∧ s.n ≤ imageLog.size - 1 ∧ s.block.Nodup ∧
      ∀ p tail, s.pc p = .commit (.writeLog tail) → tail < s.n → imageLog.Inside (imageLog.start + tail + 1)) ∧
    ∀ p blockno s', imageLog.Takes s (.logWrite p blockno) s' → (∀ q logged b, s.pc q ≠ .tested logged b) →
      (s'.panicked = some "too big a transaction" ↔ ¬ Together past s (.logWrite p blockno)) := by
  have held : Fitting past s := path.invariant_throughout meets .start fun held together taken => held.step together taken
  have fits : s.n + 1 ≤ 30 := held.fits
  constructor
  · refine ⟨held.calm, by show s.n ≤ 30 - 1; omega, held.distinct, fun p tail _ low => ?_⟩
    constructor
    · omega
    · show 2 + tail + 1 < 2 + 30
      omega
  · intro p blockno s' taken settled
    have size : imageLog.size = 30 := rfl
    have LOGSIZE_eq : LOGSIZE = 30 := rfl
    have calm := held.calm
    show _ ↔ ¬ ((asked past).length + 1 < imageLog.size)
    cases (step_cases taken).2 with
    | tooBig p blockno logged at_p full =>
      have n_le := held.n_le (held.free (p := p) (by rw [at_p]; trivial))
      apply iff_of_true rfl
      omega
    | alone p blockno logged at_p none => exact absurd rfl (held.order.step taken).calm.2
    | logWrite p blockno logged at_p room low =>
      have n_eq := held.n_eq (held.free (p := p) (by rw [at_p]; trivial)) settled
      apply iff_of_false held.calm
      omega

def threeOperations : List Action :=
  [.beginOp 0, .beginOp 1, .beginOp 2] ++
    (List.range 29).flatMap fun i => [.logWrite (i / 10) (60 + i), .append (i / 10)]

theorem log_holds_of_three : ∃ past s, Path imageLog.Takes .start past s ∧ s.n = 29 ∧
    s.panicked ≠ some "too big a transaction" ∧ s.block.Nodup ∧
    ∃ s', imageLog.Takes s (.logWrite 2 60) s' ∧ s'.panicked = some "too big a transaction" := by
  obtain ⟨past, s, path, reached⟩ := replay_reaches imageLog.step .start threeOperations
    (fun past s => Throughout Together past ∧ (asked past).length = 29 ∧ s.n = 29 ∧ s.outstanding = 3 ∧
      (∀ p ∈ Finset.range 3, s.pc p = .inside ((List.range (if p = 2 then 9 else 10)).reverse.map (60 + 10 * p + ·))) ∧
      (imageLog.step s (.logWrite 2 60)).isSome) (by decide +kernel)
  simp only [decide_eq_true_eq] at reached
  obtain ⟨meets, named, n_eq, three, inside, able⟩ := reached
  obtain ⟨s', taken⟩ := Option.isSome_iff_exists.mp able
  obtain ⟨⟨calm, -, distinct, -⟩, exact_when⟩ := log_holds path meets
  -- nobody else is in an operation
  obtain ⟨active, mem, count⟩ := (Orderly.start.reached path).count
  have all_active : Finset.range 3 ⊆ active := by
    intro p low
    rw [mem, inside p low]
    trivial
  have all : Finset.range 3 = active := by
    apply Finset.eq_of_subset_of_card_le all_active
    rw [Finset.card_range]
    omega
  have settled : ∀ q logged b, s.pc q ≠ .tested logged b := by
    intro q logged b at_q
    have low : q ∈ Finset.range 3 := by
      rw [all, mem, at_q]
      trivial
    rw [inside q low] at at_q
    cases at_q
  refine ⟨past, s, path, n_eq, calm, distinct, s', taken, (exact_when 2 60 s' taken settled).mpr ?_⟩
  show ¬ (asked past).length + 1 < 30
  omega

/-- Three operations of at most ten blocks each. In one run the transaction reaches the size of the log before the last
    of them is done; in the other two of them pass the test together, and `write_log` reaches the first inode block. -/
theorem log_overflows :
    (∃ past s, Path (fun x a y => imageLog.Takes x a y ∧ Modest x a) .start past s ∧
      s.panicked = some "too big a transaction") ∧
    ∃ past s, Path (fun x a y => imageLog.Takes x a y ∧ Modest x a) .start past s ∧
      ∃ p tail, s.pc p = .commit (.writeLog tail) ∧ tail < s.n ∧ ¬ imageLog.Inside (imageLog.start + tail + 1) := by
  constructor
  · obtain ⟨past, s, path, reached⟩ := replay_reaches imageLog.step .start
      ([.beginOp 0, .beginOp 1, .beginOp 2] ++
        (List.range 29).flatMap (fun i => [.logWrite (i / 10) (60 + i), .append (i / 10)]) ++ [.logWrite 2 89])
      (fun past s => s.panicked = some "too big a transaction" ∧ past.all fun entry => decide (Modest entry.1 entry.2))
      (by decide +kernel)
    simp only [decide_eq_true_eq, List.all_eq_true] at reached
    exact ⟨past, s, path.restrict reached.2, reached.1⟩
  · obtain ⟨past, s, path, reached⟩ := replay_reaches imageLog.step .start
      ([.beginOp 0, .beginOp 1, .beginOp 2] ++
        (List.range 28).flatMap (fun i => [.logWrite ((i - 1) / 9) (60 + i), .append ((i - 1) / 9)]) ++
        [.logWrite 1 88, .logWrite 2 89, .append 1, .append 2, .endOp 0, .endOp 1, .endOp 2] ++ List.replicate 30 (.commit 2))
      (fun past s => s.pc 2 = .commit (.writeLog 29) ∧ 29 < s.n ∧ past.all fun entry => decide (Modest entry.1 entry.2))
      (by decide +kernel)
    simp only [decide_eq_true_eq, List.all_eq_true] at reached
    exact ⟨past, s, path.restrict reached.2.2, 2, 29, reached.1, reached.2.1, by decide⟩

end Xv6.Log
