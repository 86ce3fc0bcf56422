import Xv6.Cow.Restored
import Xv6.System.Rights

namespace Xv6

open CommandProgram Function

section Uses

variable [KernelImage] {pgdir : Nat}

theorem fork_uses {κ : Kernel} {sz : Nat} : (fork κ pgdir sz).Uses Harmless := by
  unfold fork
  refine Program.uses_bind (uses_ask ⟨⟩) fun page => ?_
  cases page
  · exact uses_pure
  · refine Program.uses_bind (uses_ask ⟨⟩) fun _ => Program.uses_bind copyuvm_uses fun new => ?_
    cases new
    · exact Program.uses_bind (uses_ask ⟨⟩) fun _ => Program.uses_bind (Freeing.uses kfree_uses) fun _ => uses_pure
    · exact uses_pure

theorem userinit_uses {init : List UInt8} : (userinit init).Uses Harmless := by
  unfold userinit
  refine Program.uses_bind (uses_ask ⟨⟩) fun page => ?_
  cases page
  · exact Program.uses_fail
  · refine Program.uses_bind (uses_ask ⟨⟩) fun _ => Program.uses_bind setupkvm_uses fun new => ?_
    cases new
    · exact uses_panic
    · refine Program.uses_bind ?_ fun _ => Program.uses_bind (uses_ask ⟨⟩) fun _ => uses_pure
      unfold inituvm
      split
      · exact uses_panic
      · refine Program.uses_bind (uses_ask ⟨⟩) fun page => ?_
        cases page
        · exact Program.uses_fail
        · exact Program.uses_bind (uses_ask ⟨⟩) fun _ => Program.uses_bind (mappages_free .harmless) fun _ => uses_ask ⟨⟩

theorem loadLoop_uses {addr offset sz k i : Nat} {ip : Inode} : (loadLoop pgdir addr ip offset sz k i).Uses Harmless := by
  induction k generalizing i with
  | zero => exact uses_pure
  | succ k ih =>
    unfold loadLoop
    refine Program.uses_bind (Freeing.uses walk_uses) fun pte => ?_
    cases pte
    · exact uses_panic
    · refine Program.uses_bind (uses_ask ⟨⟩) fun e => Program.uses_bind (uses_ask ⟨⟩) fun _ => ?_
      split
      · exact ih
      · exact uses_pure

theorem copyout_uses {k va : Nat} {bytes : List UInt8} : (copyout pgdir k va bytes).Uses Harmless := by
  induction k generalizing va bytes with
  | zero =>
    unfold copyout
    split
    · exact uses_pure
    · exact Program.uses_fail
  | succ k ih =>
    unfold copyout
    split
    · exact uses_pure
    · refine Program.uses_bind ?_ fun page => ?_
      · unfold uva2ka
        refine Program.uses_bind (Freeing.uses walk_uses) fun pte => ?_
        cases pte
        · exact Program.uses_fail
        · refine Program.uses_bind (uses_ask ⟨⟩) fun e => ?_
          split
          · exact uses_pure
          · exact uses_pure
      · cases page
        · exact uses_pure
        · exact Program.uses_bind (uses_ask ⟨⟩) fun _ => ih

theorem segments_uses {ip : Inode} {k i sz : Nat} : (segments pgdir ip k i sz).Uses Harmless := by
  induction k generalizing i sz with
  | zero => exact uses_pure
  | succ k ih =>
    unfold segments
    cases ip.ph i with
    | none => exact uses_pure
    | some ph =>
      dsimp only
      split
      · exact ih
      · split
        · exact uses_pure
        · split
          · exact uses_pure
          · refine Program.uses_bind allocuvm_uses fun grown => ?_
            split
            · exact uses_pure
            · split
              · exact uses_pure
              · refine Program.uses_bind ?_ fun loaded => ?_
                · unfold loaduvm
                  split
                  · exact uses_panic
                  · exact loadLoop_uses
                · split
                  · exact ih
                  · exact uses_pure

theorem pushArgs_uses {argv : List (List UInt8)} {sp : Nat} {pointers : List Nat} : (pushArgs pgdir argv sp pointers).Uses Harmless := by
  induction argv generalizing sp pointers with
  | nil => exact uses_pure
  | cons arg rest ih =>
    unfold pushArgs
    split
    · exact uses_pure
    · refine Program.uses_bind copyout_uses fun copied => ?_
      split
      · exact ih
      · exact uses_pure

theorem image_uses {ip : Inode} {phnum : Nat} {argv : List (List UInt8)} : (image pgdir ip phnum argv).Uses Harmless := by
  unfold image
  refine Program.uses_bind segments_uses fun loaded => ?_
  cases loaded
  · exact uses_pure
  · refine Program.uses_bind allocuvm_uses fun sz => ?_
    split
    · exact uses_pure
    · refine Program.uses_bind clearpteu_uses fun _ => Program.uses_bind pushArgs_uses fun pushed => ?_
      rcases pushed with _ | ⟨sp, pointers⟩
      · exact uses_pure
      · refine Program.uses_bind copyout_uses fun copied => ?_
        split
        · exact uses_pure
        · exact uses_pure

theorem exec_uses {ip : Option Inode} {argv : List (List UInt8)} : (exec pgdir ip argv).Uses Harmless := by
  unfold exec
  rcases ip.bind _ with _ | ⟨ip, elf⟩
  · exact uses_pure
  · dsimp only
    split
    · exact uses_pure
    · refine Program.uses_bind setupkvm_uses fun new => ?_
      cases new
      · exact uses_pure
      · refine Program.uses_bind image_uses fun loaded => ?_
        cases loaded
        · exact Program.uses_bind (Freeing.uses freevm_uses) fun _ => uses_pure
        · exact Program.uses_bind (uses_ask ⟨⟩) fun _ => Program.uses_bind (Freeing.uses freevm_uses) fun _ => uses_pure

end Uses

section Touches

variable [KernelImage] {s s' : Shared} {p p' : Proc} {va : Nat} {byte : UInt8} {touch : Touch}

/-- What an access leaves is what it found, or what `COW_FAULT` left, with a byte written at most. -/
def Touched (va : Nat) (s : Shared) (p : Proc) (s' : Shared) (p' : Proc) : Prop :=
  ∃ s₁, ((s₁, p') = (s, p) ∨ Program.run (execute .cow) (cowFault p.pgdir va) (s, p) = (.ok (), (s₁, p'))) ∧ s'.kmem = s₁.kmem

theorem touchRead_touched (done : Program.run (execute .cow) (touchRead .cow p.pgdir va) (s, p) = (.ok touch, (s', p'))) :
    Touched va s p s' p' := by
  by_cases accessible : p.Accessible va
  · rw [touchRead_granted accessible] at done
    cases done
    exact ⟨_, .inl rfl, rfl⟩
  · obtain ⟨result, s₁, p₁, run, fault⟩ := cowFault_run s p va
    cases result with
    | error halt =>
      rw [touchRead_halted accessible run] at done
      cases done
    | ok value =>
      rw [touchRead_retried accessible run fault.pgdir] at done
      split at done
      · cases done
        exact ⟨_, .inr run, rfl⟩
      · split at done <;> cases done <;> exact ⟨_, .inr run, rfl⟩

theorem touchWrite_touched (done : Program.run (execute .cow) (touchWrite .cow p.pgdir va byte) (s, p) = (.ok touch, (s', p'))) :
    Touched va s p s' p' := by
  cases granted : (p.entry va).allows true .write
  · obtain ⟨result, s₁, p₁, run, fault⟩ := cowFault_run s p va
    cases result with
    | error halt =>
      rw [touchWrite_halted granted run] at done
      cases done
    | ok value =>
      rw [touchWrite_retried granted run fault.pgdir] at done
      split at done
      · cases done
        exact ⟨_, .inr run, rfl⟩
      · split at done <;> cases done <;> exact ⟨_, .inr run, rfl⟩
  · rw [touchWrite_granted granted] at done
    cases done
    exact ⟨_, .inl rfl, rfl⟩

end Touches

variable [KernelImage] {ι : Type} [Fintype ι] [DecidableEq ι]
variable {S : Setting ι} {c c' : System ι} {s : Shared} {p : Proc} {t : ι} {va : Nat} {a : Action ι} {answer : Answer}

theorem Complete.of_kmem {s s' : Shared} (complete : Complete s) (same : s'.kmem = s.kmem) : Complete s' := by
  unfold Complete
  rw [same]
  exact complete

omit [DecidableEq ι] in
theorem fault_complete (sane : Sane S c) (cow : S.kernel = .cow) (complete : Complete c.shared)
    (run : Program.run (execute .cow) (cowFault (c.proc t).pgdir va) (c.shared, c.proc t) = (.ok (), (s, p))) : Complete s := by
  obtain ⟨mark, calm⟩ := sane.calm
  have in_use : (((c.proc t).dir (c.proc t).pgdir).pte (pageOf va)).addr ∉ c.shared.kmem.freelist := by
    intro free
    have zero := ((calm.free_iff cow complete).mp free).2
    obtain ⟨result, s', p', run', fault⟩ := cowFault_run c.shared (c.proc t) va
    rw [run] at run'
    cases run'
    have counted := (fault.countable.mp rfl).2.2
    unfold Proc.entry at counted
    omega
  have along := cowFault_lossless (s := c.shared) (p := c.proc t) in_use
  have kept := along.invariant (fun _ (state : Shared × Proc) (whole : Complete state.1) lossless =>
    execute_complete whole lossless) complete
  rwa [run] at kept

omit [DecidableEq ι] in
theorem Touched.complete (touched : Touched va c.shared (c.proc t) s p) (sane : Sane S c) (cow : S.kernel = .cow)
    (complete : Complete c.shared) : Complete s := by
  obtain ⟨s₁, same | run, kmem⟩ := touched
  · cases same
    exact complete.of_kmem kmem
  · exact (fault_complete sane cow complete run).of_kmem kmem

omit [KernelImage] [Fintype ι] in
@[simp] theorem settle_shared (outcome : Outcome) : (c.settle a outcome s p).shared = s := by
  unfold System.settle
  split <;> rfl

theorem act_complete (sane : Sane S c) (cow : S.kernel = .cow) (complete : Complete c.shared)
    (done : c.act .cow a = .ok (answer, c')) : Complete c'.shared := by
  have harmless : ∀ {α : Type} {operation : Vm α} {outcome : α → Outcome}, operation.Uses Harmless →
      a.program .cow c = operation >>= (fun value => pure (outcome value)) → Complete c'.shared := by
    intro α operation outcome uses program
    obtain ⟨value, s, p, run, rfl, rfl⟩ := (act_iff program).mp done
    rw [settle_shared]
    exact complete.ran uses run
  cases a with
  | fork t u => exact harmless (show (fork .cow (c.proc t).pgdir (c.proc t).sz).Uses Harmless from fork_uses) rfl
  | sbrk t n => exact harmless growproc_uses rfl
  | read t va =>
    obtain ⟨touch, s, p, run, rfl, rfl⟩ := (act_iff (a := .read t va) (c := c) rfl).mp done
    rw [settle_shared]
    exact (touchRead_touched run).complete sane cow complete
  | write t va byte =>
    obtain ⟨touch, s, p, run, rfl, rfl⟩ := (act_iff (a := .write t va byte) (c := c) rfl).mp done
    rw [settle_shared]
    exact (touchWrite_touched run).complete sane cow complete
  | exec t ip argv => exact harmless exec_uses rfl
  | exit t =>
    rw [act_exit] at done
    split at done
    · cases done
    · cases done
      exact complete
  | wait t u => exact harmless (Freeing.uses wait_uses) wait_program

theorem Guarded.complete {g : ι → Set Nat} (guards : Guarded Considerate c g) : Complete c.shared := by
  induction guards with
  | boot fresh =>
    cases fresh with
    | boot done => exact (booted_complete _).ran userinit_uses done
    | act _ _ allowed _ => exact allowed.elim
  | act guards legal considerate done ih => exact act_complete guards.sound.1 rfl ih done

end Xv6
