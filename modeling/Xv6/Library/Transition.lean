import Mathlib.Data.List.Basic

namespace Transition

variable {σ α : Type} {step : σ → α → σ → Prop}

/-- A run with its history: every step taken, as the state before it and its label, the latest first. -/
inductive Path (step : σ → α → σ → Prop) (start : σ) : List (σ × α) → σ → Prop
  | nil : Path step start [] start
  | snoc {past : List (σ × α)} {s s' : σ} {a : α} :
    Path step start past s → step s a s' → Path step start ((s, a) :: past) s'

namespace Path

variable {start s s' : σ} {a : α} {past : List (σ × α)}

theorem mono {wider : σ → α → σ → Prop} (path : Path step start past s)
    (allowed : ∀ {x a y}, step x a y → wider x a y) : Path wider start past s := by
  induction path with
  | nil => exact .nil
  | snoc _ taken ih => exact .snoc ih (allowed taken)

theorem invariant {I : List (σ × α) → σ → Prop} (path : Path step start past s) (holds : I [] start)
    (kept : ∀ {past x a y}, Path step start past x → I past x → step x a y → I ((x, a) :: past) y) :
    I past s := by
  induction path with
  | nil => exact holds
  | snoc before taken ih => exact kept before ih taken

theorem always {I : σ → Prop} (path : Path step start past s) (holds : I start)
    (kept : ∀ {x a y}, I x → step x a y → I y) : I s :=
  path.invariant (I := fun _ x => I x) holds (fun _ held taken => kept held taken)

theorem cut {later : List (σ × α)} (path : Path step start (later ++ (s, a) :: past) s') :
    Path step start past s ∧ ∃ y, step s a y ∧ Path step y later s' := by
  induction later generalizing s' with
  | nil =>
    cases path with
    | snoc before taken => exact ⟨before, _, taken, .nil⟩
  | cons entry later ih =>
    cases path with
    | snoc before taken =>
      obtain ⟨early, y, first, rest⟩ := ih before
      exact ⟨early, y, first, .snoc rest taken⟩

theorem cons {y : σ} {later : List (σ × α)} (taken : step s a y) (path : Path step y later s') :
    Path step s (later ++ [(s, a)]) s' := by
  induction path with
  | nil => exact .snoc .nil taken
  | snoc _ next ih => exact .snoc ih next

theorem split (path : Path step start past s) {n : Nat} {entry : σ × α} (here : past[n]? = some entry) :
    Path step start (past.take n ++ entry :: past.drop (n + 1)) s := by
  obtain ⟨inside, eq⟩ := List.getElem?_eq_some_iff.mp here
  rwa [← eq, ← List.drop_eq_getElem_cons inside, List.take_append_drop]

theorem restrict {allowed : σ → α → Prop} (path : Path step start past s)
    (all : ∀ entry ∈ past, allowed entry.1 entry.2) : Path (fun x a y => step x a y ∧ allowed x a) start past s := by
  induction path with
  | nil => exact .nil
  | snoc _ taken ih => exact .snoc (ih fun entry member => all entry (.tail _ member)) ⟨taken, all _ (.head _)⟩

end Path

section Throughout

/-- Every step of a history meets a condition that may speak of the steps before it. -/
def Throughout (allowed : List (σ × α) → σ → α → Prop) : List (σ × α) → Prop
  | [] => True
  | (s, a) :: past => allowed past s a ∧ Throughout allowed past

variable {allowed : List (σ × α) → σ → α → Prop}

instance decidableThroughout [∀ past s a, Decidable (allowed past s a)] : (past : List (σ × α)) → Decidable (Throughout allowed past)
  | [] => .isTrue trivial
  | (s, a) :: past => @instDecidableAnd (allowed past s a) _ _ (decidableThroughout past)

theorem Path.invariant_throughout {I : List (σ × α) → σ → Prop} {start s : σ} {past : List (σ × α)}
    (path : Path step start past s) (meets : Throughout allowed past) (holds : I [] start)
    (kept : ∀ {past x a y}, I past x → allowed past x a → step x a y → I ((x, a) :: past) y) : I past s := by
  induction path with
  | nil => exact holds
  | snoc _ taken ih => exact kept (ih meets.2) meets.1 taken

end Throughout

section Replay

variable (next : σ → α → Option σ)

/-- A run computed from its labels, for a system given by a partial step function. -/
def replay : List α → List (σ × α) → σ → Option (List (σ × α) × σ)
  | [], past, s => some (past, s)
  | a :: labels, past, s => (next s a).bind (replay labels ((s, a) :: past))

variable {next}

theorem replay_path {start : σ} {labels : List α} {past past' : List (σ × α)} {s s' : σ}
    (path : Path (fun x a y => next x a = some y) start past s) (replayed : replay next labels past s = some (past', s')) :
    Path (fun x a y => next x a = some y) start past' s' := by
  induction labels generalizing past s with
  | nil =>
    cases replayed
    exact path
  | cons a labels ih =>
    obtain ⟨y, taken, rest⟩ := Option.bind_eq_some_iff.mp replayed
    exact ih (.snoc path taken) rest

theorem replay_reaches (next : σ → α → Option σ) (start : σ) (labels : List α) (test : List (σ × α) → σ → Bool)
    (passed : (replay next labels [] start).any (fun r => test r.1 r.2) = true) :
    ∃ past s, Path (fun x a y => next x a = some y) start past s ∧ test past s = true := by
  cases replayed : replay next labels [] start with
  | none =>
    rw [replayed] at passed
    cases passed
  | some r =>
    rw [replayed] at passed
    exact ⟨r.1, r.2, replay_path .nil replayed, passed⟩

end Replay

end Transition
