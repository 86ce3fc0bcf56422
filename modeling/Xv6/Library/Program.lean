import Mathlib.Logic.Function.Basic

namespace CommandProgram

/-- The atomic commands of a machine, with the type of the answer to each. -/
structure Signature where
  Cmd : Type
  Resp : Cmd → Type

/-- A program issues commands one at a time and may look at every answer. -/
inductive Program (Sg : Signature) (E : Type) (α : Type) : Type where
  | ret (value : α)
  | fail (error : E)
  | call (command : Sg.Cmd) (next : Sg.Resp command → Program Sg E α)

namespace Program

variable {Sg : Signature} {E S α β γ : Type}

def bind : Program Sg E α → (α → Program Sg E β) → Program Sg E β
  | ret value, rest => rest value
  | fail error, _ => fail error
  | call command next, rest => call command (fun answer => (next answer).bind rest)

instance : Monad (Program Sg E) where
  pure := ret
  bind := bind

/-- The program that issues one command and returns its answer. -/
def issue (command : Sg.Cmd) : Program Sg E (Sg.Resp command) := call command ret

@[simp] theorem pure_eq (value : α) : (pure value : Program Sg E α) = ret value := rfl

@[simp] theorem ret_bind (value : α) (rest : α → Program Sg E β) : ret value >>= rest = rest value := rfl

@[simp] theorem fail_bind (error : E) (rest : α → Program Sg E β) :
    (fail error : Program Sg E α) >>= rest = fail error := rfl

@[simp] theorem call_bind (command : Sg.Cmd) (next : Sg.Resp command → Program Sg E α)
    (rest : α → Program Sg E β) :
    call command next >>= rest = call command (fun answer => next answer >>= rest) := rfl

@[simp] theorem issue_bind (command : Sg.Cmd) (rest : Sg.Resp command → Program Sg E β) :
    issue command >>= rest = call command rest := rfl

theorem bind_ret (program : Program Sg E α) : program >>= ret = program := by
  induction program with
  | ret value => rfl
  | fail error => rfl
  | call command next ih => exact congrArg (call command) (funext ih)

theorem bind_bind (program : Program Sg E α) (f : α → Program Sg E β) (g : β → Program Sg E γ) :
    (program >>= f) >>= g = program >>= fun value => f value >>= g := by
  induction program with
  | ret value => rfl
  | fail error => rfl
  | call command next ih => exact congrArg (call command) (funext ih)

instance : LawfulMonad (Program Sg E) :=
  LawfulMonad.mk' (Program Sg E) bind_ret (fun _ _ => rfl) bind_bind

/-- How a machine answers a command and changes its state. -/
abbrev Semantics (Sg : Signature) (S : Type) := (command : Sg.Cmd) → S → Sg.Resp command × S

def run (exec : Semantics Sg S) : Program Sg E α → S → Except E α × S
  | ret value, s => (.ok value, s)
  | fail error, s => (.error error, s)
  | call command next, s => run exec (next (exec command s).1) (exec command s).2

@[simp] theorem run_ret (exec : Semantics Sg S) (value : α) (s : S) :
    run exec (ret value : Program Sg E α) s = (.ok value, s) := rfl

@[simp] theorem run_fail (exec : Semantics Sg S) (error : E) (s : S) :
    run exec (fail error : Program Sg E α) s = (.error error, s) := rfl

@[simp] theorem run_call (exec : Semantics Sg S) (command : Sg.Cmd)
    (next : Sg.Resp command → Program Sg E α) (s : S) :
    run exec (call command next) s = run exec (next (exec command s).1) (exec command s).2 := rfl

theorem run_bind_error {exec : Semantics Sg S} {program : Program Sg E α} {rest : α → Program Sg E β}
    {s result : S} {error : E} (failed : run exec program s = (.error error, result)) :
    run exec (program >>= rest) s = (.error error, result) := by
  induction program generalizing s with
  | ret value => simp at failed
  | fail _ =>
    simp only [run_fail, Prod.mk.injEq, Except.error.injEq] at failed
    simp [failed]
  | call command next ih => exact ih _ failed

theorem run_bind_ok {exec : Semantics Sg S} {program : Program Sg E α} {rest : α → Program Sg E β}
    {s result : S} {value : α} (done : run exec program s = (.ok value, result)) :
    run exec (program >>= rest) s = run exec (rest value) result := by
  induction program generalizing s with
  | ret _ =>
    simp only [run_ret, Prod.mk.injEq, Except.ok.injEq] at done
    simp [done]
  | fail _ => simp at done
  | call command next ih => exact ih _ done

theorem exists_of_run_bind {exec : Semantics Sg S} {program : Program Sg E α} {rest : α → Program Sg E β} {s result : S}
    {value : β} (done : run exec (program >>= rest) s = (.ok value, result)) :
    ∃ a middle, run exec program s = (.ok a, middle) ∧ run exec (rest a) middle = (.ok value, result) := by
  rcases first : run exec program s with ⟨error | a, middle⟩
  · rw [run_bind_error first] at done
    cases done
  · rw [run_bind_ok first] at done
    exact ⟨a, middle, rfl, done⟩

/-- Turning the result of a program into another one does not change how it runs. -/
theorem run_map {exec : Semantics Sg S} (program : Program Sg E α) (g : α → β) (s : S) :
    run exec (program >>= fun value => ret (g value)) s =
      ((run exec program s).1.map g, (run exec program s).2) := by
  induction program generalizing s with
  | ret value => rfl
  | fail error => rfl
  | call command next ih => exact ih _ _

/-- Every command the program can ever issue is allowed. -/
def Uses (allowed : Sg.Cmd → Prop) : Program Sg E α → Prop
  | ret _ => True
  | fail _ => True
  | call command next => allowed command ∧ ∀ answer, (next answer).Uses allowed

@[simp] theorem uses_ret {allowed : Sg.Cmd → Prop} {value : α} : (ret value : Program Sg E α).Uses allowed := trivial

@[simp] theorem uses_fail {allowed : Sg.Cmd → Prop} {error : E} : (fail error : Program Sg E α).Uses allowed := trivial

theorem uses_call {allowed : Sg.Cmd → Prop} {command : Sg.Cmd} {next : Sg.Resp command → Program Sg E α} :
    (call command next).Uses allowed ↔ allowed command ∧ ∀ answer, (next answer).Uses allowed := Iff.rfl

theorem Uses.mono {allowed weaker : Sg.Cmd → Prop} {program : Program Sg E α} (uses : program.Uses allowed)
    (implies : ∀ command, allowed command → weaker command) : program.Uses weaker := by
  induction program with
  | ret value => trivial
  | fail error => trivial
  | call command next ih => exact ⟨implies command uses.1, fun answer => ih answer (uses.2 answer)⟩

theorem uses_bind {allowed : Sg.Cmd → Prop} {program : Program Sg E α} {rest : α → Program Sg E β}
    (first : program.Uses allowed) (second : ∀ value, (rest value).Uses allowed) :
    (program >>= rest).Uses allowed := by
  induction program with
  | ret value => exact second value
  | fail error => trivial
  | call command next ih => exact ⟨first.1, fun answer => ih answer (first.2 answer)⟩

/-- Every command issued in the run from `s` meets the condition in the state it is issued in, and a
    result is returned in a state that satisfies `post`. -/
def Along (exec : Semantics Sg S) (condition : Sg.Cmd → S → Prop) (post : α → S → Prop) :
    Program Sg E α → S → Prop
  | ret value, s => post value s
  | fail _, _ => True
  | call command next, s =>
    condition command s ∧ Along exec condition post (next (exec command s).1) (exec command s).2

section

variable {exec : Semantics Sg S} {condition : Sg.Cmd → S → Prop}

@[simp] theorem along_ret {post : α → S → Prop} {value : α} {s : S} :
    Along exec condition post (ret value : Program Sg E α) s ↔ post value s := Iff.rfl

@[simp] theorem along_fail {post : α → S → Prop} {error : E} {s : S} :
    Along exec condition post (fail error : Program Sg E α) s := trivial

theorem along_call {post : α → S → Prop} {command : Sg.Cmd} {next : Sg.Resp command → Program Sg E α} {s : S} :
    Along exec condition post (call command next) s ↔
      condition command s ∧ Along exec condition post (next (exec command s).1) (exec command s).2 := Iff.rfl

theorem Along.mono {post weaker : α → S → Prop} {program : Program Sg E α} {s : S}
    (along : Along exec condition post program s) (implies : ∀ value s, post value s → weaker value s) :
    Along exec condition weaker program s := by
  induction program generalizing s with
  | ret value => exact implies value s along
  | fail error => trivial
  | call command next ih => exact ⟨along.1, ih _ along.2⟩

theorem Along.weaken {weaker : Sg.Cmd → S → Prop} {post : α → S → Prop} {program : Program Sg E α} {s : S}
    (along : Along exec condition post program s) (implies : ∀ command s, condition command s → weaker command s) :
    Along exec weaker post program s := by
  induction program generalizing s with
  | ret value => exact along
  | fail error => trivial
  | call command next ih => exact ⟨implies command s along.1, ih _ along.2⟩

theorem along_bind {post : β → S → Prop} {program : Program Sg E α} {rest : α → Program Sg E β} {s : S} :
    Along exec condition post (program >>= rest) s ↔
      Along exec condition (fun value s => Along exec condition post (rest value) s) program s := by
  induction program generalizing s with
  | ret value => exact Iff.rfl
  | fail error => exact Iff.rfl
  | call command next ih => exact and_congr_right fun _ => ih _

theorem Along.bind {post : β → S → Prop} {program : Program Sg E α} {rest : α → Program Sg E β} {s : S}
    (along : Along exec condition (fun value s => Along exec condition post (rest value) s) program s) :
    Along exec condition post (program >>= rest) s := along_bind.mpr along

theorem Along.result {post : α → S → Prop} {program : Program Sg E α} {s result : S} {value : α}
    (along : Along exec condition post program s) (done : run exec program s = (.ok value, result)) :
    post value result := by
  induction program generalizing s with
  | ret _ =>
    simp only [run_ret, Prod.mk.injEq, Except.ok.injEq] at done
    obtain ⟨rfl, rfl⟩ := done
    exact along
  | fail _ => simp at done
  | call command next ih => exact ih _ along.2 done

theorem along_true (program : Program Sg E α) (s : S) :
    Along exec (fun _ _ => True) (fun _ _ => True) program s := by
  induction program generalizing s with
  | ret value => trivial
  | fail error => trivial
  | call command next ih => exact ⟨trivial, ih _ _⟩

theorem Uses.along {allowed : Sg.Cmd → Prop} (safe : ∀ command s, allowed command → condition command s)
    {program : Program Sg E α} (uses : program.Uses allowed) (s : S) :
    Along exec condition (fun _ _ => True) program s := by
  induction program generalizing s with
  | ret value => trivial
  | fail error => trivial
  | call command next ih => exact ⟨safe command s uses.1, ih _ (uses.2 _) _⟩

theorem Along.and {other : Sg.Cmd → S → Prop} {post after : α → S → Prop} {program : Program Sg E α} {s : S}
    (first : Along exec condition post program s) (second : Along exec other after program s) :
    Along exec (fun command s => condition command s ∧ other command s) post program s := by
  induction program generalizing s with
  | ret value => exact first
  | fail error => trivial
  | call command next ih => exact ⟨⟨first.1, second.1⟩, ih _ first.2 second.2⟩

/-- A state property that every permitted command keeps holds at the end of the run. -/
theorem Along.invariant {post : α → S → Prop} {property : S → Prop}
    (step : ∀ command s, property s → condition command s → property (exec command s).2)
    {program : Program Sg E α} {s : S} (along : Along exec condition post program s) (holds : property s) :
    property (run exec program s).2 := by
  induction program generalizing s with
  | ret value => exact holds
  | fail error => exact holds
  | call command next ih => exact ih _ along.2 (step command s holds along.1)

end

-- a proof goes on by the rules above, not by unfolding the program that is left
attribute [irreducible] Uses Along

end Program

end CommandProgram
