import Xv6.Library.Failure
import Xv6.Memory.Supply

namespace Xv6

open CommandProgram Program

/-- The answer of a `kalloc` that found nothing. -/
def NoPage : (command : Cmd) → sig.Resp command → Prop
  | .kalloc, answer => answer = none
  | _, _ => False

theorem granted_of_ne {command : Cmd} {answer : sig.Resp command} (other : command ≠ .kalloc) : ¬ NoPage command answer := by
  cases command with
  | kalloc => exact absurd rfl other
  | _ => exact id

theorem stocked_of_granted {κ : Kernel} {command : Cmd} {state : Shared × Proc}
    (granted : ¬ NoPage command (execute κ command state).1) : Stocked command state := by
  rintro rfl empty
  apply granted
  show (state.1.kalloc κ).1 = none
  simp [Shared.kalloc, empty]

variable {α β : Type} {failed : α → Prop} {failed' : β → Prop}

theorem heeds_ask {command : Cmd} (other : command ≠ .kalloc) {failed : sig.Resp command → Prop} :
    (ask command).Heeds NoPage failed := heeds_issue fun _ refused => absurd refused (granted_of_ne other)

theorem heeds_kalloc : kalloc.Heeds NoPage (· = none) :=
  @heeds_issue sig Halt NoPage .kalloc (· = none) fun _ refused => refused

theorem heeds_after {command : Cmd} {rest : sig.Resp command → Vm β} (other : command ≠ .kalloc)
    (second : ∀ answer, (rest answer).Heeds NoPage failed') : (ask command >>= rest).Heeds NoPage failed' := by
  have first : (ask command).Heeds NoPage fun _ => False := heeds_ask other
  exact heeds_bind first (fun _ wrong => wrong.elim) second

theorem heeds_option {γ : Type} {program : Vm (Option γ)} {rest : Option γ → Vm β} (first : program.Heeds NoPage (· = none))
    (stops : (rest none).Returns failed') (stopped : (rest none).Heeds NoPage failed')
    (second : ∀ value, (rest (some value)).Heeds NoPage failed') : (program >>= rest).Heeds NoPage failed' := by
  apply heeds_bind first
  · rintro _ rfl
    exact stops
  · rintro (_ | value)
    · exact stopped
    · exact second value

theorem heeds_bool {program : Vm Bool} {rest : Bool → Vm β} (first : program.Heeds NoPage (· = false))
    (stops : (rest false).Returns failed') (stopped : (rest false).Heeds NoPage failed')
    (second : (rest true).Heeds NoPage failed') : (program >>= rest).Heeds NoPage failed' := by
  apply heeds_bind first
  · rintro _ rfl
    exact stops
  · rintro (_ | _)
    · exact stopped
    · exact second

theorem Freeing.heeds {program : Vm α} (uses : program.Uses Freeing) : program.Heeds NoPage failed :=
  uses.heeds fun command answer freeing => granted_of_ne (by rintro rfl; exact freeing)

theorem walk_heeds {pgdir va : Nat} : (walkpgdir pgdir va true).Heeds NoPage (· = none) := by
  unfold walkpgdir
  apply heeds_after (by simp)
  rintro (_ | pa)
  · refine heeds_option heeds_kalloc ?_ heeds_ret fun pa => ?_
    · exact returns_ret rfl
    · exact heeds_after (by simp) fun _ => heeds_ret
  · exact heeds_ret

theorem mapLoop_heeds {pgdir last n a pa : Nat} {perm : Perm} : (mapLoop pgdir last perm n a pa).Heeds NoPage (· = false) := by
  induction n generalizing a pa with
  | zero => exact heeds_fail
  | succ n ih =>
    unfold mapLoop
    refine heeds_option walk_heeds ?_ heeds_ret fun v => ?_
    · exact returns_ret rfl
    · apply heeds_after (by simp)
      intro old
      split
      · exact heeds_fail
      · apply heeds_after (by simp)
        intro _
        split
        · exact heeds_ret
        · exact ih

theorem mappages_heeds {pgdir va size pa : Nat} {perm : Perm} : (mappages pgdir va size pa perm).Heeds NoPage (· = false) :=
  mapLoop_heeds

theorem mapRows_heeds {pgdir : Nat} {rows : List (Nat × Nat × Nat × Perm)} :
    (mapRows pgdir rows).Heeds NoPage (· = false) := by
  induction rows with
  | nil => exact heeds_ret
  | cons row rest ih => exact heeds_bool mappages_heeds (returns_ret rfl) heeds_ret ih

variable [KernelImage]

theorem freed_returns {pgdir : Nat} {value : β} (stops : failed' value) :
    (freevm pgdir >>= fun _ => pure value).Returns failed' :=
  returns_bind (returns_any _) fun _ _ => returns_ret stops

theorem freed_heeds {pgdir : Nat} {value : β} : (freevm pgdir >>= fun _ => pure value).Heeds NoPage failed' :=
  Freeing.heeds (uses_bind freevm_uses fun _ => uses_pure)

theorem setupkvm_heeds : setupkvm.Heeds NoPage (· = none) := by
  unfold setupkvm
  refine heeds_option heeds_kalloc ?_ heeds_ret fun pgdir => ?_
  · exact returns_ret rfl
  · apply heeds_after (by simp)
    intro _
    split
    · exact heeds_fail
    · refine heeds_bool mapRows_heeds ?_ freed_heeds heeds_ret
      exact freed_returns rfl

theorem counted {pa : Nat} {rest : Unit → Vm β} (second : (rest ()).Heeds NoPage failed') :
    (iRCount pa >>= rest).Heeds NoPage failed' := by
  unfold iRCount
  split
  · exact heeds_after (by simp) fun _ => second
  · exact heeds_fail

theorem shareLoop_heeds {pgdir d n i : Nat} : (shareLoop pgdir d n i).Heeds NoPage (· = false) := by
  induction n generalizing i with
  | zero => exact heeds_ret
  | succ n ih =>
    unfold shareLoop
    have walk : (walkpgdir pgdir (i * pgSize) false).Heeds NoPage fun _ => False := Freeing.heeds walk_uses
    apply heeds_bind walk (fun _ wrong => wrong.elim)
    rintro (_ | v)
    · exact heeds_fail
    · apply heeds_after (by simp)
      intro e
      split
      · apply heeds_after (by simp)
        intro _
        refine heeds_bool mappages_heeds (freed_returns rfl) freed_heeds ?_
        exact counted ih
      · exact heeds_fail

theorem copyuvm_heeds {pgdir sz : Nat} : (copyuvm .cow pgdir sz).Heeds NoPage (· = none) := by
  unfold copyuvm
  refine heeds_option setupkvm_heeds ?_ heeds_ret fun d => ?_
  · exact returns_ret rfl
  · refine heeds_bool shareLoop_heeds ?_ heeds_ret heeds_ret
    exact returns_ret rfl

end Xv6
