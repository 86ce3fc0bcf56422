import Xv6.Library.Ledger

namespace Ledger

open Function

variable {F C ι : Type} [Fintype ι] [DecidableEq ι]
variable {managed : F → Prop} {pool : Pool F C} {acc : ι → Account F C} {t : ι} {b : Account F C}

/-- One reference is taken off the count; the last one puts the object back, overwritten with `junk`. -/
def Pool.release [DecidableEq F] (pool : Pool F C) (f : F) (junk : C) : Pool F C :=
  if pool.count f ≤ 1 then
    { free := f :: pool.free, count := update pool.count f 0, content := update pool.content f junk }
  else { pool with count := update pool.count f (pool.count f - 1) }

namespace Balanced

/-- Everything arithmetic needs about one object before and after the account of `t` becomes `b`. -/
theorem entries (h : Balanced managed pool acc) (t : ι) (b : Account F C) (f : F) :
    (pool.count f + total acc .uncounted f = totalHeld acc f + total acc .dropped f ∧
      2 * total acc .uncounted f ≤ total acc .reader f ∧
      2 * (acc t).tally .uncounted f ≤ (acc t).tally .reader f ∧
      (0 < (acc t).tally .writer f ∨ 0 < (acc t).tally .owner f → totalHeld acc f = 1)) ∧
    ((acc t).tally .reader f ≤ total acc .reader f ∧ (acc t).tally .writer f ≤ total acc .writer f ∧
      (acc t).tally .owner f ≤ total acc .owner f ∧ (acc t).tally .dropped f ≤ total acc .dropped f) ∧
    total (update acc t b) .reader f + (acc t).tally .reader f = total acc .reader f + b.tally .reader f ∧
    total (update acc t b) .writer f + (acc t).tally .writer f = total acc .writer f + b.tally .writer f ∧
    total (update acc t b) .owner f + (acc t).tally .owner f = total acc .owner f + b.tally .owner f ∧
    total (update acc t b) .uncounted f + (acc t).tally .uncounted f =
      total acc .uncounted f + b.tally .uncounted f ∧
    total (update acc t b) .dropped f + (acc t).tally .dropped f =
      total acc .dropped f + b.tally .dropped f := by
  refine ⟨⟨h.balance f, h.uncounted_le f, h.lag t f, fun exclusive => ?_⟩, ⟨tally_le_total acc t _ f,
    tally_le_total acc t _ f, tally_le_total acc t _ f, tally_le_total acc t _ f⟩,
    total_update acc t b _ f, total_update acc t b _ f, total_update acc t b _ f, total_update acc t b _ f,
    total_update acc t b _ f⟩
  rcases exclusive with writer | owner
  · exact h.alone t f (.inl writer)
  · exact h.alone t f (.inr (.inl owner))

/-- A move that leaves the free list and the contents alone and takes up no object anew. -/
theorem adjust (h : Balanced managed pool acc) (count : F → ℕ)
    (free : ∀ f, pool.count f = 0 → count f = 0)
    (books : ∀ f, count f + total (update acc t b) .uncounted f =
        totalHeld (update acc t b) f + total (update acc t b) .dropped f ∧
      2 * b.tally .uncounted f ≤ b.tally .reader f ∧
      (0 < b.tally .writer f ∨ 0 < b.tally .owner f → totalHeld (update acc t b) f = 1) ∧
      (0 < held b.tally f → 0 < held (acc t).tally f))
    (claims : ∀ f, b.claim f → totalHeld (update acc t b) f = 1 ∧ 0 < held b.tally f)
    (seen : b.seen = (acc t).seen) :
    Balanced managed { pool with count := count } (update acc t b) := by
  apply h.move
  constructor
  case nodup => exact h.nodup
  case free_managed => exact h.free_managed
  case free_count => exact fun f member => free f (h.free_count f member)
  case books => exact fun f => ⟨(books f).1, (books f).2.1, (books f).2.2.1, fun holds => .inl ((books f).2.2.2 holds)⟩
  case claims => exact claims
  case private_content => exact fun g changed => absurd rfl changed
  case seen => exact fun f holds => seen ▸ h.seen t f ((books f).2.2.2 holds)
  case managed => exact fun f holds => h.managed t f ((books f).2.2.2 holds)

theorem exchange (h : Balanced managed pool acc) (tally : b.tally = (acc t).tally)
    (claims : ∀ f, b.claim f → totalHeld acc f = 1 ∧ 0 < held (acc t).tally f) (seen : b.seen = (acc t).seen) :
    Balanced managed pool (update acc t b) := by
  apply h.adjust pool.count (fun _ zero => zero) ?_ ?_ seen
  · intro g
    have entries := h.entries t b g
    unfold totalHeld held at *
    simp only [tally] at entries ⊢
    omega
  · intro g claim
    have change := totalHeld_update acc t b g
    have only := claims g claim
    rw [tally] at change ⊢
    omega

theorem transfer {u : ι} {a : Account F C} (h : Balanced managed pool acc) (different : t ≠ u)
    (tally : ∀ k f, a.tally k f + b.tally k f = (acc t).tally k f + (acc u).tally k f)
    (settled : ∀ f, (acc t).tally .uncounted f = 0 ∧ (acc u).tally .uncounted f = 0)
    (noclaim : ∀ f, ¬ a.claim f ∧ ¬ b.claim f)
    (seen : ∀ f, (0 < held a.tally f → a.seen f = pool.content f) ∧ (0 < held b.tally f → b.seen f = pool.content f)) :
    Balanced managed pool (update (update acc t a) u b) := by
  have totals : ∀ k f, total (update (update acc t a) u b) k f = total acc k f := by
    intro k f
    have first := total_update acc t a k f
    have second := total_update (update acc t a) u b k f
    rw [update_of_ne different.symm] at second
    have both := tally k f
    omega
  have heldTotals : ∀ f, totalHeld (update (update acc t a) u b) f = totalHeld acc f :=
    fun f => by simp only [totalHeld, totals]
  have heldBy : ∀ f, 0 < held a.tally f ∨ 0 < held b.tally f → ∃ v, 0 < held (acc v).tally f := by
    intro f holds
    have reader := tally .reader f
    have writer := tally .writer f
    have owner := tally .owner f
    have either : 0 < held (acc t).tally f ∨ 0 < held (acc u).tally f := by
      unfold held at *
      omega
    rcases either with holds | holds
    · exact ⟨t, holds⟩
    · exact ⟨u, holds⟩
  have exclusive : ∀ k f, k = .writer ∨ k = .owner → 0 < a.tally k f ∨ 0 < b.tally k f → totalHeld acc f = 1 := by
    intro k f kind some
    have both := tally k f
    have either : 0 < (acc t).tally k f ∨ 0 < (acc u).tally k f := by omega
    rcases kind with rfl | rfl <;> rcases either with holds | holds
    · exact h.alone t f (.inl holds)
    · exact h.alone u f (.inl holds)
    · exact h.alone t f (.inr (.inl holds))
    · exact h.alone u f (.inr (.inl holds))
  have cases_of : ∀ v, v = u ∨ (v ≠ u ∧ v = t) ∨ (v ≠ u ∧ v ≠ t) := by
    intro v
    by_cases isU : v = u
    · exact .inl isU
    · by_cases isT : v = t
      · exact .inr (.inl ⟨isU, isT⟩)
      · exact .inr (.inr ⟨isU, isT⟩)
  constructor
  case nodup => exact h.nodup
  case free_managed => exact h.free_managed
  case free_count => exact h.free_count
  case balance =>
    intro f
    rw [totals, totals, heldTotals]
    exact h.balance f
  case lag =>
    intro v f
    have zero := settled f
    have both := tally .uncounted f
    rcases cases_of v with rfl | ⟨isU, rfl⟩ | ⟨isU, isT⟩
    · rw [update_self]
      omega
    · rw [update_of_ne isU, update_self]
      omega
    · rw [update_of_ne isU, update_of_ne isT]
      exact h.lag v f
  case alone =>
    intro v f
    rw [heldTotals]
    rcases cases_of v with rfl | ⟨isU, rfl⟩ | ⟨isU, isT⟩
    · rw [update_self]
      rintro (writer | owner | claim)
      · exact exclusive .writer f (.inl rfl) (.inr writer)
      · exact exclusive .owner f (.inr rfl) (.inr owner)
      · exact absurd claim (noclaim f).2
    · rw [update_of_ne isU, update_self]
      rintro (writer | owner | claim)
      · exact exclusive .writer f (.inl rfl) (.inl writer)
      · exact exclusive .owner f (.inr rfl) (.inl owner)
      · exact absurd claim (noclaim f).1
    · rw [update_of_ne isU, update_of_ne isT]
      exact h.alone v f
  case claimed =>
    intro v f
    rcases cases_of v with rfl | ⟨isU, rfl⟩ | ⟨isU, isT⟩
    · rw [update_self]
      exact fun claim => absurd claim (noclaim f).2
    · rw [update_of_ne isU, update_self]
      exact fun claim => absurd claim (noclaim f).1
    · rw [update_of_ne isU, update_of_ne isT]
      exact h.claimed v f
  case seen =>
    intro v f
    rcases cases_of v with rfl | ⟨isU, rfl⟩ | ⟨isU, isT⟩
    · rw [update_self]
      exact (seen f).2
    · rw [update_of_ne isU, update_self]
      exact (seen f).1
    · rw [update_of_ne isU, update_of_ne isT]
      exact h.seen v f
  case managed =>
    intro v f
    rcases cases_of v with rfl | ⟨isU, rfl⟩ | ⟨isU, isT⟩
    · rw [update_self]
      intro holds
      obtain ⟨w, held⟩ := heldBy f (.inr holds)
      exact h.managed w f held
    · rw [update_of_ne isU, update_self]
      intro holds
      obtain ⟨w, held⟩ := heldBy f (.inl holds)
      exact h.managed w f held
    · rw [update_of_ne isU, update_of_ne isT]
      exact h.managed v f

variable [DecidableEq F]

theorem alloc (h : Balanced managed pool acc) {f : F} {rest : List F} (free : pool.free = f :: rest)
    (tally : ∀ k g, b.tally k g = (acc t).tally k g + unit .owner f k g)
    (noclaim : ∀ g, ¬ b.claim g)
    (seen : ∀ g, b.seen g = if g = f then pool.content f else (acc t).seen g) :
    Balanced managed { pool with free := rest, count := update pool.count f 1 } (update acc t b) := by
  have member : f ∈ pool.free := by simp [free]
  have distinct : f ∉ rest ∧ rest.Nodup := by
    have nodup := h.nodup
    rw [free] at nodup
    exact List.nodup_cons.mp nodup
  have zero := h.zero_of_count_zero (h.free_count f member)
  apply h.move
  constructor
  case nodup => exact distinct.2
  case free_managed => exact fun g inside => h.free_managed g (by simp [free, inside])
  case free_count =>
    intro g inside
    have other : g ≠ f := ne_of_mem_of_not_mem inside distinct.1
    simpa [other] using h.free_count g (by simp [free, inside])
  case books =>
    intro g
    have entries := h.entries t b g
    unfold totalHeld held at *
    rcases eq_or_ne g f with rfl | other
    · simp only [tally, unit, reduceCtorEq, false_and, true_and, if_true, if_false, update_self] at entries ⊢
      omega
    · simp only [tally, unit, other, and_false, if_false, ne_eq, not_false_eq_true, update_of_ne] at entries ⊢
      omega
  case claims => exact fun g claim => absurd claim (noclaim g)
  case private_content => exact fun g changed => absurd rfl changed
  case seen =>
    intro g holds
    rw [seen]
    split
    · next same => rw [same]
    · next other =>
      apply h.seen
      simpa [held, tally, unit, other] using holds
  case managed =>
    intro g holds
    rcases eq_or_ne g f with rfl | other
    · exact h.free_managed g member
    · exact h.managed t g (by simpa [held, tally, unit, other] using holds)

theorem share (h : Balanced managed pool acc) {f : F} (reads : 0 < (acc t).tally .reader f)
    (settled : (acc t).tally .uncounted f = 0)
    (tally : ∀ k g, b.tally k g = (acc t).tally k g + unit .reader f k g + unit .uncounted f k g)
    (noclaim : ∀ g, ¬ b.claim g) (seen : b.seen = (acc t).seen) :
    Balanced managed pool (update acc t b) := by
  apply h.adjust pool.count (fun _ zero => zero) ?_ (fun g claim => absurd claim (noclaim g)) seen
  intro g
  have entries := h.entries t b g
  unfold totalHeld held at *
  rcases eq_or_ne g f with rfl | other
  · simp only [tally, unit, reduceCtorEq, false_and, true_and, if_true, if_false] at entries ⊢
    omega
  · simp only [tally, unit, other, and_false, if_false] at entries ⊢
    omega

theorem counted (h : Balanced managed pool acc) {f : F}
    (tally : ∀ k g, (acc t).tally k g = b.tally k g + unit .uncounted f k g)
    (noclaim : ∀ g, ¬ b.claim g) (seen : b.seen = (acc t).seen) :
    Balanced managed { pool with count := update pool.count f (pool.count f + 1) } (update acc t b) := by
  have reads : 0 < held (acc t).tally f := by
    have lag := h.lag t f
    have some := tally .uncounted f
    simp only [unit, and_self, if_true] at some
    unfold held
    omega
  have positive := h.count_pos reads
  apply h.adjust _ ?_ ?_ (fun g claim => absurd claim (noclaim g)) seen
  · intro g zero
    rcases eq_or_ne g f with rfl | other
    · omega
    · simpa [other] using zero
  · intro g
    have entries := h.entries t b g
    unfold totalHeld held at *
    rcases eq_or_ne g f with rfl | other
    · simp only [tally, unit, reduceCtorEq, false_and, true_and, if_true, if_false, update_self] at entries ⊢
      omega
    · simp only [tally, unit, other, and_false, if_false, ne_eq, not_false_eq_true, update_of_ne] at entries ⊢
      omega

theorem uncount (h : Balanced managed pool acc) {f : F}
    (tally : ∀ k g, (acc t).tally k g = b.tally k g + unit .dropped f k g)
    (noclaim : ∀ g, ¬ b.claim g) (seen : b.seen = (acc t).seen) :
    Balanced managed { pool with count := update pool.count f (pool.count f - 1) } (update acc t b) := by
  have drops : 0 < (acc t).tally .dropped f := by
    have some := tally .dropped f
    simp only [unit, and_self, if_true] at some
    omega
  have positive := h.count_pos_of_dropped drops
  apply h.adjust _ ?_ ?_ (fun g claim => absurd claim (noclaim g)) seen
  · intro g zero
    rcases eq_or_ne g f with rfl | other
    · omega
    · simpa [other] using zero
  · intro g
    have entries := h.entries t b g
    unfold totalHeld held at *
    rcases eq_or_ne g f with rfl | other
    · simp only [tally, unit, reduceCtorEq, false_and, true_and, if_true, if_false, update_self] at entries ⊢
      omega
    · simp only [tally, unit, other, and_false, if_false, ne_eq, not_false_eq_true, update_of_ne] at entries ⊢
      omega

/-- A reference changes its kind. One that was for reading must be the only one, and counted. -/
theorem change_kind (h : Balanced managed pool acc) {f : F} {old new : Kind} (was : old = .reader ∨ old = .writer ∨ old = .owner)
    (becomes : new = .reader ∨ new = .writer)
    (only : old = .reader → totalHeld acc f = 1 ∧ (acc t).tally .uncounted f = 0)
    (tally : ∀ k g, (acc t).tally k g + unit new f k g = b.tally k g + unit old f k g)
    (noclaim : ∀ g, ¬ b.claim g) (seen : b.seen = (acc t).seen) :
    Balanced managed pool (update acc t b) := by
  apply h.adjust pool.count (fun _ zero => zero) ?_ (fun g claim => absurd claim (noclaim g)) seen
  intro g
  have entries := h.entries t b g
  have tallies := And.intro (tally .reader g) (And.intro (tally .writer g) (And.intro (tally .owner g)
    (And.intro (tally .uncounted g) (tally .dropped g))))
  unfold totalHeld held at *
  rcases eq_or_ne g f with rfl | other
  · rcases was with rfl | rfl | rfl <;> rcases becomes with rfl | rfl
    all_goals
      simp only [unit, reduceCtorEq, false_and, true_and, if_true, if_false, forall_const, IsEmpty.forall_iff] at tallies only
      omega
  · simp only [unit, other, and_false, if_false] at tallies
    omega

theorem restrict (h : Balanced managed pool acc) {f : F}
    (tally : ∀ k g, (acc t).tally k g + unit .reader f k g = b.tally k g + unit .writer f k g)
    (noclaim : ∀ g, ¬ b.claim g) (seen : b.seen = (acc t).seen) :
    Balanced managed pool (update acc t b) :=
  h.change_kind (.inr (.inl rfl)) (.inl rfl) (fun reader => by cases reader) tally noclaim seen

theorem promote (h : Balanced managed pool acc) {f : F} (claim : (acc t).claim f)
    (settled : (acc t).tally .uncounted f = 0)
    (tally : ∀ k g, (acc t).tally k g + unit .writer f k g = b.tally k g + unit .reader f k g)
    (noclaim : ∀ g, ¬ b.claim g) (seen : b.seen = (acc t).seen) :
    Balanced managed pool (update acc t b) :=
  h.change_kind (.inl rfl) (.inr rfl) (fun _ => ⟨h.alone t f (.inr (.inr claim)), settled⟩) tally noclaim seen

theorem install (h : Balanced managed pool acc) {f : F} {k : Kind} (kind : k = .reader ∨ k = .writer)
    (tally : ∀ j g, (acc t).tally j g + unit k f j g = b.tally j g + unit .owner f j g)
    (noclaim : ∀ g, ¬ b.claim g) (seen : b.seen = (acc t).seen) :
    Balanced managed pool (update acc t b) :=
  h.change_kind (.inr (.inr rfl)) kind (fun reader => by cases reader) tally noclaim seen

/-- A reference moves from `f` to an owned copy; the count of `f` still has to follow. -/
theorem replace (h : Balanced managed pool acc) {f m : F} {k : Kind} (kind : k = .reader ∨ k = .writer)
    (settled : (acc t).tally .uncounted f = 0)
    (tally : ∀ j g, (acc t).tally j g + unit .writer m j g + unit .dropped f j g =
      b.tally j g + unit k f j g + unit .owner m j g)
    (noclaim : ∀ g, ¬ b.claim g) (seen : b.seen = (acc t).seen) :
    Balanced managed pool (update acc t b) := by
  apply h.adjust pool.count (fun _ zero => zero) ?_ (fun g claim => absurd claim (noclaim g)) seen
  intro g
  have entries := h.entries t b g
  have tallies := And.intro (tally .reader g) (And.intro (tally .writer g) (And.intro (tally .owner g)
    (And.intro (tally .uncounted g) (tally .dropped g))))
  unfold totalHeld held at *
  rcases kind with rfl | rfl
  all_goals
    rcases eq_or_ne g f with rfl | notOld
    · rcases eq_or_ne g m with rfl | notNew
      · simp only [unit, reduceCtorEq, false_and, true_and, if_true, if_false] at tallies
        omega
      · simp only [unit, notNew, reduceCtorEq, false_and, and_false, true_and, if_true, if_false] at tallies
        omega
    · rcases eq_or_ne g m with rfl | notNew
      · simp only [unit, notOld, reduceCtorEq, false_and, and_false, true_and, if_true, if_false] at tallies
        omega
      · simp only [unit, notOld, notNew, and_false, if_false] at tallies
        omega

theorem rewrite (h : Balanced managed pool acc) {f : F} (c : C)
    (exclusive : 0 < (acc t).tally .writer f ∨ 0 < (acc t).tally .owner f)
    (tally : b.tally = (acc t).tally) (noclaim : ∀ g, ¬ b.claim g) (seen : b.seen = update (acc t).seen f c) :
    Balanced managed { pool with content := update pool.content f c } (update acc t b) := by
  have only : totalHeld acc f = 1 := by
    rcases exclusive with writer | owner
    · exact h.alone t f (.inl writer)
    · exact h.alone t f (.inr (.inl owner))
  have bound := held_le_total acc t f
  apply h.move
  constructor
  case nodup => exact h.nodup
  case free_managed => exact h.free_managed
  case free_count => exact h.free_count
  case books =>
    intro g
    have entries := h.entries t b g
    unfold totalHeld held at *
    simp only [tally] at entries ⊢
    omega
  case claims => exact fun g claim => absurd claim (noclaim g)
  case private_content =>
    intro g changed
    rcases eq_or_ne g f with rfl | other
    · unfold held at *
      omega
    · simp [other] at changed
  case seen =>
    intro g holds
    rw [tally] at holds
    rcases eq_or_ne g f with rfl | other
    · simp [seen]
    · simpa [seen, other] using h.seen t g holds
  case managed => exact fun g holds => h.managed t g (by rwa [tally] at holds)

theorem release (h : Balanced managed pool acc) {f : F} {k : Kind}
    (kind : k = .reader ∨ k = .writer ∨ k = .owner) (settled : (acc t).tally .uncounted f = 0)
    (tally : ∀ j g, (acc t).tally j g = b.tally j g + unit k f j g)
    (noclaim : ∀ g, ¬ b.claim g) (seen : b.seen = (acc t).seen) (junk : C) :
    Balanced managed (pool.release f junk) (update acc t b) := by
  have holds : 0 < held (acc t).tally f := by
    unfold held
    rcases kind with rfl | rfl | rfl <;> simp [tally, unit]
  have positive := h.count_pos holds
  have fewer : ∀ g, held b.tally g ≤ held (acc t).tally g := by
    intro g
    simp only [held, tally]
    omega
  have books : ∀ g, update pool.count f (pool.count f - 1) g + total (update acc t b) .uncounted g =
        totalHeld (update acc t b) g + total (update acc t b) .dropped g ∧
      2 * b.tally .uncounted g ≤ b.tally .reader g ∧
      (0 < b.tally .writer g ∨ 0 < b.tally .owner g → totalHeld (update acc t b) g = 1) ∧
      (0 < held b.tally g → 0 < held (acc t).tally g) := by
    intro g
    have entries := h.entries t b g
    unfold totalHeld held at *
    rcases kind with rfl | rfl | rfl
    all_goals
      rcases eq_or_ne g f with rfl | other
      · simp only [tally, unit, reduceCtorEq, false_and, true_and, if_true, if_false, update_self] at entries settled ⊢
        omega
      · simp only [tally, unit, other, and_false, if_false, ne_eq, not_false_eq_true, update_of_ne] at entries ⊢
        omega
  unfold Pool.release
  split
  · next last =>
    have one : pool.count f = 1 := by omega
    have only := h.alone_of_count_one holds settled one
    have none : held b.tally f = 0 := by
      have bound := held_le_total acc t f
      unfold held at *
      rcases kind with rfl | rfl | rfl <;> simp [tally, unit] at bound <;> omega
    apply h.move
    constructor
    case nodup => exact List.nodup_cons.mpr ⟨h.not_free holds, h.nodup⟩
    case free_managed =>
      intro g inside
      rcases List.mem_cons.mp inside with rfl | inside
      · exact h.managed t g holds
      · exact h.free_managed g inside
    case free_count =>
      intro g inside
      rcases List.mem_cons.mp inside with rfl | inside
      · simp
      · have other : g ≠ f := ne_of_mem_of_not_mem inside (h.not_free holds)
        simpa [other] using h.free_count g inside
    case books =>
      intro g
      have zero : pool.count f - 1 = 0 := by omega
      have after := books g
      rw [zero] at after
      exact ⟨after.1, after.2.1, after.2.2.1, fun holds => .inl (after.2.2.2 holds)⟩
    case claims => exact fun g claim => absurd claim (noclaim g)
    case private_content =>
      intro g changed
      rcases eq_or_ne g f with rfl | other
      · have bound := held_le_total acc t g
        omega
      · simp [other] at changed
    case seen =>
      intro g holds
      have other : g ≠ f := fun same => by
        rw [same] at holds
        omega
      have before := h.seen t g (by have := fewer g; omega)
      simpa [seen, other] using before
    case managed => exact fun g holds => h.managed t g (by have := fewer g; omega)
  · next more =>
    apply h.adjust _ ?_ books (fun g claim => absurd claim (noclaim g)) seen
    intro g zero
    rcases eq_or_ne g f with rfl | other
    · omega
    · simpa [other] using zero

end Balanced

end Ledger
