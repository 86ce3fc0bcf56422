import Xv6.System.Fault

namespace Xv6

open CommandProgram

variable [KernelImage] {κ : Kernel} {s s' : Shared} {p p' : Proc} {va : Nat} {byte : UInt8}

/-- A write of user code succeeds: at once, or after `COW_FAULT` has made the page writable or has copied it. -/
def Writable (s : Shared) (p : Proc) (va : Nat) : Prop :=
  (p.entry va).allows true .write = true ∨ p.killed = false ∧ Countable s p va ∧
    ((s.kmem.page_rCount (p.entry va).addr = 1 ∧ (p.entry va).p = true ∧ (p.entry va).u = true) ∨
      (1 < s.kmem.page_rCount (p.entry va).addr ∧ s.kmem.freelist ≠ []))

def Shared.written (s : Shared) (p : Proc) (va : Nat) (byte : UInt8) : Shared :=
  s.setPage (p.entry va).addr ((s.ram (p.entry va).addr).store (va % pgSize) [byte])

omit [KernelImage] in
theorem userWrite_entry : Program.run (execute κ) (userWrite p.pgdir va byte) (s, p) =
    if (p.entry va).allows true .write then (.ok true, (s.written p va byte, p)) else (.ok false, (s, p)) := by
  have same : (p.entry va).allows true .write = ((p.entry va).p && (p.entry va).w && (p.entry va).u) := by
    simp [Pte.allows]
  rw [same]
  exact userWrite_run

theorem touchWrite_granted (granted : (p.entry va).allows true .write = true) :
    Program.run (execute κ) (touchWrite κ p.pgdir va byte) (s, p) = (.ok .written, (s.written p va byte, p)) := by
  have first : Program.run (execute κ) (userWrite p.pgdir va byte) (s, p) = _ := userWrite_entry
  rw [if_pos granted] at first
  unfold touchWrite
  rw [Program.run_bind_ok first]
  rfl

theorem touchWrite_retried (refused : (p.entry va).allows true .write = false)
    (fault : Program.run (execute .cow) (cowFault p.pgdir va) (s, p) = (.ok (), (s', p'))) (same : p'.pgdir = p.pgdir) :
    Program.run (execute .cow) (touchWrite .cow p.pgdir va byte) (s, p) =
      if p'.killed then (.ok .exits, (s', p'))
      else if (p'.entry va).allows true .write then (.ok .written, (s'.written p' va byte, p'))
      else (.ok .faults, (s', p')) := by
  have first : Program.run (execute .cow) (userWrite p.pgdir va byte) (s, p) = _ := userWrite_entry
  rw [if_neg (by rw [refused]; decide)] at first
  have trapped : Program.run (execute .cow) (trap .cow true p.pgdir va) (s, p) = _ := trap_run fault
  have again : Program.run (execute .cow) (userWrite p.pgdir va byte) (s', p') = _ := same ▸ userWrite_entry
  unfold touchWrite
  rw [Program.run_bind_ok first, if_neg (by decide), Program.run_bind_ok trapped]
  cases dead : p'.killed
  · rw [if_neg (by decide), if_neg (by decide)]
    by_cases granted : (p'.entry va).allows true .write = true
    · rw [if_pos granted] at again ⊢
      rw [Program.run_bind_ok again]
      rfl
    · rw [if_neg granted] at again ⊢
      rw [Program.run_bind_ok again]
      rfl
  · rfl

theorem touchWrite_halted {halt : Halt} (refused : (p.entry va).allows true .write = false)
    (fault : Program.run (execute .cow) (cowFault p.pgdir va) (s, p) = (.error halt, (s', p'))) :
    Program.run (execute .cow) (touchWrite .cow p.pgdir va byte) (s, p) = (.error halt, (s', p')) := by
  have first : Program.run (execute .cow) (userWrite p.pgdir va byte) (s, p) = _ := userWrite_entry
  rw [if_neg (by rw [refused]; decide)] at first
  have trapped : Program.run (execute .cow) (trap .cow true p.pgdir va) (s, p) = _ := trap_run fault
  unfold touchWrite
  rw [Program.run_bind_ok first, if_neg (by decide)]
  exact Program.run_bind_error trapped

/-- How the write ends is decided before it, and a page with one user is not copied for it. -/
theorem touchWrite_cases (s : Shared) (p : Proc) (va : Nat) (byte : UInt8) :
    ∃ result s₁ p₁, Program.run (execute .cow) (touchWrite .cow p.pgdir va byte) (s, p) = (result, (s₁, p₁)) ∧
      (result = .ok .written ↔ Writable s p va) ∧ (s.kmem.page_rCount (p.entry va).addr = 1 → s₁.kmem = s.kmem) := by
  by_cases granted : (p.entry va).allows true .write = true
  · exact ⟨_, _, _, touchWrite_granted granted, ⟨fun _ => .inl granted, fun _ => rfl⟩, fun _ => rfl⟩
  have refused := Bool.eq_false_iff.mpr granted
  obtain ⟨result, s', p', run, fault⟩ := cowFault_run s p va
  have countable := fault.countable
  cases result with
  | error halt =>
    refine ⟨_, _, _, touchWrite_halted refused run, ⟨fun wrong => by simp at wrong, fun writable => ?_⟩, fun one => ?_⟩
    · rcases writable with direct | ⟨-, counted, -⟩
      · exact absurd direct granted
      · exact absurd (countable.mpr counted) (by simp)
    · cases fault <;> rfl
  | ok done =>
    have counted := countable.mp rfl
    cases fault with
    | promoted has managed one =>
      have retried : Program.run (execute .cow) (touchWrite .cow p.pgdir va byte) (s, p) = _ :=
        touchWrite_retried refused run rfl
      rw [Proc.entry_setEntry has, Pte.allows_opened, Proc.killed_setEntry] at retried
      cases dead : p.killed
      · cases both : (p.entry va).p && (p.entry va).u
        · refine ⟨_, _, _, by simpa [dead, both] using retried, ⟨fun wrong => by simp at wrong, fun writable => ?_⟩, fun _ => rfl⟩
          rcases writable with direct | ⟨-, -, ⟨-, present, user⟩ | ⟨several, -⟩⟩
          · exact absurd direct granted
          · simp [present, user] at both
          · omega
        · simp only [dead, both, Bool.not_true, Bool.false_or, Bool.false_eq_true, if_false, if_true] at retried
          refine ⟨_, _, _, retried, ⟨fun _ => ?_, fun _ => rfl⟩, fun _ => rfl⟩
          exact .inr ⟨dead, counted, .inl ⟨one, by simpa using both⟩⟩
      · refine ⟨_, _, _, by simpa [dead] using retried, ⟨fun wrong => by simp at wrong, fun writable => ?_⟩, fun _ => rfl⟩
        rcases writable with direct | ⟨alive, -⟩
        · exact absurd direct granted
        · exact absurd (alive.symm.trans dead) (by decide)
    | copied mem rest has managed several free =>
      have retried : Program.run (execute .cow) (touchWrite .cow p.pgdir va byte) (s, p) = _ :=
        touchWrite_retried refused run rfl
      rw [Proc.entry_setEntry has, Proc.killed_setEntry, if_pos (c := (Pte.make mem permWU).allows true .write = true) rfl] at retried
      cases dead : p.killed
      · refine ⟨_, _, _, by simpa [dead] using retried, ⟨fun _ => ?_, fun _ => rfl⟩, fun one => by omega⟩
        exact .inr ⟨dead, counted, .inr ⟨several, by simp [free]⟩⟩
      · refine ⟨_, _, _, by simpa [dead] using retried, ⟨fun wrong => by simp at wrong, fun writable => ?_⟩, fun one => by omega⟩
        rcases writable with direct | ⟨alive, -⟩
        · exact absurd direct granted
        · exact absurd (alive.symm.trans dead) (by decide)
    | exhausted has managed several free =>
      have retried : Program.run (execute .cow) (touchWrite .cow p.pgdir va byte) (s, p) = _ :=
        touchWrite_retried refused run rfl
      refine ⟨_, _, _, retried.trans (if_pos rfl), ⟨fun wrong => by simp at wrong, fun writable => ?_⟩, fun one => by omega⟩
      rcases writable with direct | ⟨-, -, ⟨one, -⟩ | ⟨-, some⟩⟩
      · exact absurd direct granted
      · omega
      · exact absurd free some

end Xv6
