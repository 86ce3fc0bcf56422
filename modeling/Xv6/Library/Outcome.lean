import Mathlib.Tactic.Common
import Mathlib.Data.List.Basic

namespace Outcome

variable {σ τ ε α β : Type}

/-- A run from `s` returns with `post`, or stops with an error for which `stop` holds. -/
def Ends (x : StateT σ (Except ε) α) (s : σ) (post : α → σ → Prop) (stop : ε → Prop) : Prop :=
  match x s with
  | .ok (a, s') => post a s'
  | .error e => stop e

variable {x : StateT σ (Except ε) α} {f : α → StateT σ (Except ε) β} {s s' : σ} {a : α} {e : ε}
  {post post' : α → σ → Prop} {stop stop' : ε → Prop}

theorem ends_of_ok (ran : x s = .ok (a, s')) : Ends x s post stop ↔ post a s' := by
  rw [Ends, ran]

theorem ends_of_error (failed : x s = .error e) : Ends x s post stop ↔ stop e := by
  rw [Ends, failed]

theorem Ends.ok (ends : Ends x s post stop) (ran : x s = .ok (a, s')) : post a s' := (ends_of_ok ran).mp ends

theorem Ends.error (ends : Ends x s post stop) (failed : x s = .error e) : stop e := (ends_of_error failed).mp ends

theorem Ends.mono (ends : Ends x s post stop) (implies : ∀ a s', post a s' → post' a s')
    (fails : ∀ e, stop e → stop' e) : Ends x s post' stop' := by
  cases ran : x s with
  | ok r => exact (ends_of_ok ran).mpr (implies _ _ (ends.ok ran))
  | error e => exact (ends_of_error ran).mpr (fails e (ends.error ran))

theorem Ends.weaken (ends : Ends x s post stop) (implies : ∀ a s', post a s' → post' a s') : Ends x s post' stop :=
  ends.mono implies fun _ => id

theorem ends_bind {post : β → σ → Prop} :
    Ends (x >>= f) s post stop ↔ Ends x s (fun a s' => Ends (f a) s' post stop) stop := by
  unfold Ends
  dsimp only [bind, StateT.bind, Except.bind]
  cases x s <;> rfl

@[simp] theorem ends_pure : Ends (pure a) s post stop ↔ post a s := Iff.rfl

@[simp] theorem ends_throw : Ends (throw e : StateT σ (Except ε) α) s post stop ↔ stop e := Iff.rfl

@[simp] theorem ends_get {post : σ → σ → Prop} : Ends (get : StateT σ (Except ε) σ) s post stop ↔ post s s := Iff.rfl

@[simp] theorem ends_set {post : PUnit → σ → Prop} :
    Ends (set s' : StateT σ (Except ε) PUnit) s post stop ↔ post ⟨⟩ s' := Iff.rfl

@[simp] theorem ends_modify {g : σ → σ} {post : PUnit → σ → Prop} :
    Ends (modify g : StateT σ (Except ε) PUnit) s post stop ↔ post ⟨⟩ (g s) := Iff.rfl

theorem ends_liftExcept {y : Except ε α} :
    Ends (liftM y : StateT σ (Except ε) α) s post stop ↔ match y with | .ok a => post a s | .error e => stop e := by
  unfold Ends
  cases y <;> rfl

theorem ends_ite {c : Prop} [Decidable c] {y : StateT σ (Except ε) α} :
    Ends (if c then x else y) s post stop ↔ (c → Ends x s post stop) ∧ (¬ c → Ends y s post stop) := by
  by_cases holds : c
  · simp [holds]
  · simp [holds]

theorem ends_forM {items : List β} {body : β → StateT σ (Except ε) PUnit} (I : List β → σ → Prop) (holds : I [] s)
    (kept : ∀ done b rest t, done ++ b :: rest = items → I done t → Ends (body b) t (fun _ t' => I (done ++ [b]) t') stop) :
    Ends (items.forM body) s (fun _ s' => I items s') stop := by
  have suffixes : ∀ rest done t, done ++ rest = items → I done t → Ends (rest.forM body) t (fun _ t' => I items t') stop := by
    intro rest
    induction rest with
    | nil =>
      rintro done t rfl inv
      rwa [List.append_nil]
    | cons b rest ih =>
      intro done t all inv
      show Ends (body b >>= fun _ => rest.forM body) t _ stop
      rw [ends_bind]
      apply (kept done b rest t all inv).weaken
      intro _ t' inv'
      exact ih (done ++ [b]) t' (by rw [← all, List.append_assoc]; rfl) inv'
  exact suffixes items [] s rfl holds

end Outcome

namespace Loops

variable {α σ ε : Type} {f : σ → α → Except ε σ} {s s' : σ}

/-- The rule for a loop over a list that cannot fail: the invariant speaks of the elements that are done. -/
theorem foldlM_ok {I : List α → σ → Prop} (l : List α) (start : I [] s)
    (step : ∀ done a rest s, l = done ++ a :: rest → I done s → ∃ s', f s a = .ok s' ∧ I (done ++ [a]) s') :
    ∃ s', l.foldlM f s = .ok s' ∧ I l s' := by
  have rest : ∀ todo done s, l = done ++ todo → I done s → ∃ s', todo.foldlM f s = .ok s' ∧ I l s' := by
    intro todo
    induction todo with
    | nil =>
      intro done s eq held
      rw [List.append_nil] at eq
      exact ⟨s, rfl, eq ▸ held⟩
    | cons a todo ih =>
      intro done s eq held
      obtain ⟨s', ran, held'⟩ := step done a todo s eq held
      obtain ⟨s'', ran', held''⟩ := ih (done ++ [a]) s' (by rw [eq, List.append_assoc]; rfl) held'
      refine ⟨s'', ?_, held''⟩
      rw [List.foldlM_cons, ran]
      exact ran'
  exact rest l [] s rfl start

theorem foldlM_done {I : List α → σ → Prop} {l : List α} (ran : l.foldlM f s = .ok s') (start : I [] s)
    (step : ∀ done a rest s s', l = done ++ a :: rest → I done s → f s a = .ok s' → I (done ++ [a]) s') : I l s' := by
  have rest : ∀ todo done s, l = done ++ todo → I done s → todo.foldlM f s = .ok s' → I l s' := by
    intro todo
    induction todo with
    | nil =>
      intro done s eq held ran
      rw [List.append_nil] at eq
      cases ran
      exact eq ▸ held
    | cons a todo ih =>
      intro done s eq held ran
      rw [List.foldlM_cons] at ran
      cases first : f s a with
      | error e =>
        rw [first] at ran
        cases ran
      | ok t =>
        rw [first] at ran
        exact ih (done ++ [a]) t (by rw [eq, List.append_assoc]; rfl) (step done a todo s t eq held first) ran
  exact rest l [] s rfl start ran

end Loops

namespace Tracing

variable {ω ε α β : Type}

/-- What a computation that can fail has reported, and how it ended. -/
structure Traced (ω ε α : Type) where
  trace : List ω
  result : Except ε α

def emit (item : ω) : Traced ω ε Unit := ⟨[item], .ok ()⟩

def quiet (result : Except ε α) : Traced ω ε α := ⟨[], result⟩

def Traced.gather (x : Traced ω ε α) : Traced (List ω) ε α := ⟨[x.trace], x.result⟩

/-- A failure ends the trace, and keeps what is there. -/
def Traced.bind (x : Traced ω ε α) (f : α → Traced ω ε β) : Traced ω ε β :=
  match x.result with
  | .ok a => ⟨x.trace ++ (f a).trace, (f a).result⟩
  | .error e => ⟨x.trace, .error e⟩

instance : Monad (Traced ω ε) where
  pure a := quiet (.ok a)
  bind := Traced.bind

variable {x : Traced ω ε α} {f : α → Traced ω ε β} {item : ω} {a : α}

@[simp] theorem result_bind : (x >>= f).result = x.result >>= fun a => (f a).result := by
  show (x.bind f).result = _
  unfold Traced.bind
  cases x.result <;> rfl

@[simp] theorem result_ite {c : Prop} [Decidable c] {y : Traced ω ε α} :
    (if c then x else y).result = if c then x.result else y.result := by
  split <;> rfl

/-- The computation returns with `post`, or fails with `stop`, of the trace up to there. -/
def Reports (x : Traced ω ε α) (post : List ω → α → Prop) (stop : List ω → ε → Prop) : Prop :=
  match x.result with
  | .ok a => post x.trace a
  | .error e => stop x.trace e

variable {post post' : List ω → α → Prop} {stop stop' : List ω → ε → Prop}

@[simp] theorem reports_pure : Reports (pure a : Traced ω ε α) post stop ↔ post [] a := Iff.rfl

@[simp] theorem reports_emit {post : List ω → Unit → Prop} :
    Reports (emit item : Traced ω ε Unit) post stop ↔ post [item] () := Iff.rfl

theorem reports_quiet {y : Except ε α} :
    Reports (quiet y : Traced ω ε α) post stop ↔ match y with | .ok a => post [] a | .error e => stop [] e := Iff.rfl

theorem reports_bind {post : List ω → β → Prop} : Reports (x >>= f) post stop ↔
    Reports x (fun t a => Reports (f a) (fun u => post (t ++ u)) fun u => stop (t ++ u)) stop := by
  show Reports (x.bind f) post stop ↔ _
  unfold Reports Traced.bind
  cases x.result <;> rfl

theorem reports_gather {post : List (List ω) → α → Prop} {stop : List (List ω) → ε → Prop} :
    Reports x.gather post stop ↔ Reports x (fun t => post [t]) fun t => stop [t] := Iff.rfl

theorem reports_ite {c : Prop} [Decidable c] {y : Traced ω ε α} :
    Reports (if c then x else y) post stop ↔ (c → Reports x post stop) ∧ (¬ c → Reports y post stop) := by
  by_cases holds : c
  · simp [holds]
  · simp [holds]

theorem Reports.imp (reports : Reports x post stop) (implies : ∀ t a, x.result = .ok a → post t a → post' t a)
    (fails : ∀ t e, x.result = .error e → stop t e → stop' t e) : Reports x post' stop' := by
  unfold Reports at *
  cases ran : x.result with
  | ok a =>
    rw [ran] at reports
    exact implies _ _ ran reports
  | error e =>
    rw [ran] at reports
    exact fails _ _ ran reports

theorem Reports.trace {P : List ω → Prop} (reports : Reports x (fun t _ => P t) fun t _ => P t) : P x.trace := by
  unfold Reports at reports
  split at reports <;> exact reports

end Tracing
