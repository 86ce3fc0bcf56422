import Xv6.Library.Program

namespace CommandProgram

namespace Program

variable {Sg : Signature} {E S α β : Type}

/-- Every value that the program can return is of the kind. -/
def Returns (kind : α → Prop) : Program Sg E α → Prop
  | ret value => kind value
  | fail _ => True
  | call _ next => ∀ answer, (next answer).Returns kind

/-- Once an answer has refused something to it, the program returns only values that say that it failed. -/
def Heeds (refuses : (command : Sg.Cmd) → Sg.Resp command → Prop) (failed : α → Prop) : Program Sg E α → Prop
  | ret _ => True
  | fail _ => True
  | call command next => ∀ answer,
    (refuses command answer → (next answer).Returns failed) ∧ (next answer).Heeds refuses failed

section

variable {refuses : (command : Sg.Cmd) → Sg.Resp command → Prop} {kind failed : α → Prop} {kind' failed' : β → Prop}
variable {program : Program Sg E α} {rest : α → Program Sg E β}

theorem returns_ret {value : α} (holds : kind value) : (ret value : Program Sg E α).Returns kind := holds

theorem returns_any (program : Program Sg E α) : program.Returns fun _ => True := by
  induction program with
  | ret value => trivial
  | fail error => trivial
  | call command next ih => exact ih

theorem returns_bind (first : program.Returns kind) (second : ∀ value, kind value → (rest value).Returns kind') :
    (program >>= rest).Returns kind' := by
  induction program with
  | ret value => exact second value first
  | fail error => trivial
  | call command next ih => exact fun answer => ih answer (first answer)

theorem Returns.result {exec : Semantics Sg S} {s result : S} {value : α} (returns : program.Returns kind)
    (done : run exec program s = (.ok value, result)) : kind value := by
  induction program generalizing s with
  | ret _ =>
    cases done
    exact returns
  | fail _ => cases done
  | call command next ih => exact ih _ (returns _) done

theorem heeds_ret {value : α} : (ret value : Program Sg E α).Heeds refuses failed := trivial

theorem heeds_fail {error : E} : (fail error : Program Sg E α).Heeds refuses failed := trivial

theorem heeds_issue {command : Sg.Cmd} {failed : Sg.Resp command → Prop}
    (fails : ∀ answer, refuses command answer → failed answer) :
    (issue command : Program Sg E (Sg.Resp command)).Heeds refuses failed :=
  fun answer => ⟨fun refused => fails answer refused, trivial⟩

/-- The first part may say by its value that it failed; then the second has to fail, whatever it is told. -/
theorem heeds_bind (first : program.Heeds refuses failed)
    (gives_up : ∀ value, failed value → (rest value).Returns failed') (second : ∀ value, (rest value).Heeds refuses failed') :
    (program >>= rest).Heeds refuses failed' := by
  induction program with
  | ret value => exact second value
  | fail error => trivial
  | call command next ih =>
    intro answer
    obtain ⟨stops, goes_on⟩ := first answer
    exact ⟨fun refused => returns_bind (stops refused) gives_up, ih answer goes_on⟩

/-- A program that issues only commands that nothing refuses has nothing to heed. -/
theorem Uses.heeds {allowed : Sg.Cmd → Prop} (granted : ∀ command answer, allowed command → ¬ refuses command answer)
    (uses : program.Uses allowed) : program.Heeds refuses failed := by
  induction program with
  | ret value => trivial
  | fail error => trivial
  | call command next ih =>
    obtain ⟨issued, others⟩ := uses_call.mp uses
    exact fun answer => ⟨fun refused => absurd refused (granted command answer issued), ih answer (others answer)⟩

/-- If the value does not say that the program failed then nothing was refused on the way. -/
theorem Heeds.granted {exec : Semantics Sg S} {s result : S} {value : α} (heeds : program.Heeds refuses failed)
    (done : run exec program s = (.ok value, result)) (well : ¬ failed value) :
    Along exec (fun command state => ¬ refuses command (exec command state).1) (fun _ _ => True) program s := by
  induction program generalizing s with
  | ret _ => exact along_ret.mpr trivial
  | fail _ => cases done
  | call command next ih =>
    obtain ⟨stops, goes_on⟩ := heeds (exec command s).1
    have later : run exec (next (exec command s).1) (exec command s).2 = (.ok value, result) := done
    exact along_call.mpr ⟨fun refused => well ((stops refused).result later), ih _ goes_on later⟩

end

-- as with `Uses`, a proof goes on by the rules
attribute [irreducible] Returns Heeds

end Program

end CommandProgram
