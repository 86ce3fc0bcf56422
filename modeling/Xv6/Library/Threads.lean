import Mathlib.Logic.Function.Basic
import Xv6.Library.Program

namespace CommandProgram

open Program

variable {Sg : Signature} {E Sh Lo Gh ι α β : Type} [DecidableEq ι]

/-- Threads share `Sh` and each has a part `Lo` of its own. The invariant sees beside every
    thread's part a ghost value, which no program reads. Only runs whose commands are permitted where they
    are issued matter; `stops` are the errors a thread may end in. -/
structure Discipline (Sg : Signature) (E Sh Lo Gh ι : Type) where
  exec : Semantics Sg (Sh × Lo)
  inv : Sh → (ι → Lo × Gh) → Prop
  permits : Sg.Cmd → Sh → Prop
  stops : E → Prop

namespace Discipline

variable (D : Discipline Sg E Sh Lo Gh ι)

/-- One command keeps the invariant whichever thread issues it and whatever the others are doing,
    if the ghost value of that thread may be chosen again. -/
def Atomic (command : Sg.Cmd) (lo : Lo) (gh : Gh) (post : Sg.Resp command → Lo → Gh → Prop) : Prop :=
  ∀ (sh : Sh) (t : ι) (env : ι → Lo × Gh), env t = (lo, gh) → D.inv sh env → D.permits command sh →
    ∃ gh', D.inv (D.exec command (sh, lo)).2.1
        (Function.update env t ((D.exec command (sh, lo)).2.2, gh')) ∧
      post (D.exec command (sh, lo)).1 (D.exec command (sh, lo)).2.2 gh'

/-- The program can be run command by command under the invariant and ends in `post`. -/
def Outline : Program Sg E α → Lo → Gh → (α → Lo → Gh → Prop) → Prop
  | .ret value, lo, gh, post => post value lo gh
  | .fail error, _, _, _ => D.stops error
  | .call command next, lo, gh, post =>
    D.Atomic command lo gh (fun answer lo' gh' => Outline (next answer) lo' gh' post)

variable {D}

@[simp] theorem outline_ret {value : α} {lo : Lo} {gh : Gh} {post : α → Lo → Gh → Prop} :
    D.Outline (.ret value) lo gh post ↔ post value lo gh := Iff.rfl

@[simp] theorem outline_fail {error : E} {lo : Lo} {gh : Gh} {post : α → Lo → Gh → Prop} :
    D.Outline (.fail error) lo gh post ↔ D.stops error := Iff.rfl

theorem outline_call {command : Sg.Cmd} {next : Sg.Resp command → Program Sg E α} {lo : Lo} {gh : Gh}
    {post : α → Lo → Gh → Prop} :
    D.Outline (.call command next) lo gh post ↔
      D.Atomic command lo gh (fun answer lo' gh' => D.Outline (next answer) lo' gh' post) := Iff.rfl

theorem Atomic.mono {command : Sg.Cmd} {lo : Lo} {gh : Gh} {post weaker : Sg.Resp command → Lo → Gh → Prop}
    (atomic : D.Atomic command lo gh post)
    (implies : ∀ answer lo' gh', post answer lo' gh' → weaker answer lo' gh') :
    D.Atomic command lo gh weaker := by
  intro sh t env at_t held permitted
  obtain ⟨gh', kept, ended⟩ := atomic sh t env at_t held permitted
  exact ⟨gh', kept, implies _ _ _ ended⟩

theorem Outline.mono {program : Program Sg E α} {lo : Lo} {gh : Gh} {post weaker : α → Lo → Gh → Prop}
    (outline : D.Outline program lo gh post)
    (implies : ∀ value lo' gh', post value lo' gh' → weaker value lo' gh') :
    D.Outline program lo gh weaker := by
  induction program generalizing lo gh with
  | ret value => exact implies _ _ _ outline
  | fail error => exact outline
  | call command next ih => exact Atomic.mono outline (fun answer _ _ rest => ih answer rest)

theorem Outline.bind {program : Program Sg E α} {rest : α → Program Sg E β} {lo : Lo} {gh : Gh}
    {post : β → Lo → Gh → Prop}
    (outline : D.Outline program lo gh (fun value lo' gh' => D.Outline (rest value) lo' gh' post)) :
    D.Outline (program >>= rest) lo gh post := by
  induction program generalizing lo gh with
  | ret value => exact outline
  | fail error => exact outline
  | call command next ih => exact Atomic.mono outline (fun answer _ _ tail => ih answer tail)

/-- What an outline says of a thread that runs alone from one state to the end. -/
theorem Outline.run {program : Program Sg E α} {lo : Lo} {gh : Gh} {post : α → Lo → Gh → Prop}
    (outline : D.Outline program lo gh post) {sh : Sh} {t : ι} {env : ι → Lo × Gh}
    (at_t : env t = (lo, gh)) (held : D.inv sh env) {reached : α → Sh × Lo → Prop}
    (permitted : Along D.exec (fun command s => D.permits command s.1) reached program (sh, lo)) {result : Except E α} {sh' : Sh} {lo' : Lo}
    (done : Program.run D.exec program (sh, lo) = (result, (sh', lo'))) :
    (∃ value gh', result = .ok value ∧ D.inv sh' (Function.update env t (lo', gh')) ∧ post value lo' gh') ∨
      ∃ error, result = .error error ∧ D.stops error := by
  induction program generalizing lo gh sh env with
  | ret value =>
    simp only [run_ret, Prod.mk.injEq] at done
    obtain ⟨rfl, rfl, rfl⟩ := done
    refine .inl ⟨value, gh, rfl, ?_, outline⟩
    rwa [← at_t, Function.update_eq_self]
  | fail error =>
    simp only [run_fail, Prod.mk.injEq] at done
    exact .inr ⟨error, done.1.symm, outline⟩
  | call command next ih =>
    rw [along_call] at permitted
    obtain ⟨gh₁, kept, tail⟩ := outline sh t env at_t held permitted.1
    have finished := ih _ tail (Function.update_self t _ env) kept permitted.2 done
    simpa only [Function.update_idem] using finished

/-- A thread that runs alone from one state on finds the invariant again after each command. -/
theorem Outline.along {program : Program Sg E α} {lo : Lo} {gh : Gh} {post : α → Lo → Gh → Prop}
    (outline : D.Outline program lo gh post) {sh : Sh} {t : ι} {env : ι → Lo × Gh}
    (at_t : env t = (lo, gh)) (held : D.inv sh env) {reached : α → Sh × Lo → Prop}
    (permitted : Along D.exec (fun command s => D.permits command s.1) reached program (sh, lo)) :
    Along D.exec (fun command s => ∃ env, D.inv (D.exec command s).2.1 env) reached program (sh, lo) := by
  induction program generalizing lo gh sh env with
  | ret value => exact along_ret.mpr (along_ret.mp permitted)
  | fail error => exact along_fail
  | call command next ih =>
    rw [along_call] at permitted ⊢
    obtain ⟨gh₁, kept, tail⟩ := outline sh t env at_t held permitted.1
    exact ⟨⟨_, kept⟩, ih _ tail (Function.update_self t _ env) kept permitted.2⟩

-- a proof goes on by the rules of the commands, not by unfolding the program that is left
attribute [irreducible] Outline

end Discipline

/-- The threads at one moment: each has its own part and what is left of its current operation.
    A thread with nothing left is `ret ()`. -/
structure Threads (Sg : Signature) (E Sh Lo ι : Type) where
  shared : Sh
  own : ι → Lo
  left : ι → Program Sg E Unit

namespace Threads

/-- Thread `t` executes one command. -/
def issue (exec : Semantics Sg (Sh × Lo)) (c : Threads Sg E Sh Lo ι) (t : ι) (command : Sg.Cmd)
    (next : Sg.Resp command → Program Sg E Unit) : Threads Sg E Sh Lo ι :=
  let outcome := exec command (c.shared, c.own t)
  { shared := outcome.2.1
    own := Function.update c.own t outcome.2.2
    left := Function.update c.left t (next outcome.1) }

/-- Every thread is on an outline under one common choice of ghost values. -/
def Sound (D : Discipline Sg E Sh Lo Gh ι) (rest : Lo → Gh → Prop) (c : Threads Sg E Sh Lo ι) : Prop :=
  ∃ gh : ι → Gh, D.inv c.shared (fun t => (c.own t, gh t)) ∧
    ∀ t, D.Outline (c.left t) (c.own t) (gh t) (fun _ lo g => rest lo g)

variable {D : Discipline Sg E Sh Lo Gh ι} {rest : Lo → Gh → Prop}

theorem Sound.issue {c : Threads Sg E Sh Lo ι} (sound : c.Sound D rest) {t : ι} {command : Sg.Cmd}
    {next : Sg.Resp command → Program Sg E Unit} (current : c.left t = .call command next)
    (permitted : D.permits command c.shared) : (c.issue D.exec t command next).Sound D rest := by
  obtain ⟨gh, held, outlines⟩ := sound
  have atomic := outlines t
  rw [current, Discipline.outline_call] at atomic
  obtain ⟨gh', kept, tail⟩ := atomic c.shared t _ rfl held permitted
  refine ⟨Function.update gh t gh', ?_, ?_⟩
  · have pairs : (fun u => ((c.issue D.exec t command next).own u, Function.update gh t gh' u)) =
        Function.update (fun u => (c.own u, gh u)) t
          ((D.exec command (c.shared, c.own t)).2.2, gh') := by
      funext u
      by_cases same : u = t
      · subst same
        simp [Threads.issue]
      · simp [Threads.issue, same]
    rw [pairs]
    exact kept
  · intro u
    by_cases same : u = t
    · subst same
      simpa [Threads.issue] using tail
    · simpa [Threads.issue, same] using outlines u

/-- An idle thread may start any operation that has an outline from what idle threads know. -/
theorem Sound.start {c : Threads Sg E Sh Lo ι} (sound : c.Sound D rest) {t : ι} {program : Program Sg E Unit}
    (idle : c.left t = .ret ())
    (outline : ∀ gh, rest (c.own t) gh → D.Outline program (c.own t) gh (fun _ lo g => rest lo g)) :
    ({ c with left := Function.update c.left t program } : Threads Sg E Sh Lo ι).Sound D rest := by
  obtain ⟨gh, held, outlines⟩ := sound
  refine ⟨gh, held, fun u => ?_⟩
  by_cases same : u = t
  · subst same
    have resting := outlines u
    rw [idle, Discipline.outline_ret] at resting
    simpa using outline (gh u) resting
  · simpa [same] using outlines u

end Threads

end CommandProgram
