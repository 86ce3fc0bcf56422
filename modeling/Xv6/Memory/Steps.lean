import Xv6.Memory.Process

namespace Xv6

open CommandProgram

variable {κ : Kernel} {α : Type} {s : Shared} {p : Proc}

section Runs

theorem run_pure (value : α) : Program.run (execute κ) (pure value : Vm α) (s, p) = (.ok value, (s, p)) := rfl

theorem run_ask {command : Cmd} (rest : sig.Resp command → Vm α) :
    Program.run (execute κ) (ask command >>= rest) (s, p) =
      Program.run (execute κ) (rest (execute κ command (s, p)).1) (execute κ command (s, p)).2 := rfl

theorem run_pte {pgdir v : Nat} (rest : Pte → Vm α) :
    Program.run (execute κ) (ask (.pte pgdir v) >>= rest) (s, p) =
      Program.run (execute κ) (rest ((p.dir pgdir).pte v)) (s, p) := rfl

theorem run_pde {pgdir i : Nat} (rest : Option Nat → Vm α) :
    Program.run (execute κ) (ask (.pde pgdir i) >>= rest) (s, p) =
      Program.run (execute κ) (rest ((p.dir pgdir).pde i)) (s, p) := rfl

theorem run_setPde {pgdir i pa : Nat} (rest : Unit → Vm α) :
    Program.run (execute κ) (ask (.setPde pgdir i pa) >>= rest) (s, p) =
      Program.run (execute κ) (rest ()) (s, p.setDir pgdir ((p.dir pgdir).setPde i pa)) := rfl

theorem run_setPte {pgdir v : Nat} {e : Pte} (rest : Unit → Vm α) :
    Program.run (execute κ) (ask (.setPte pgdir v e) >>= rest) (s, p) =
      Program.run (execute κ) (rest ()) (s, p.setDir pgdir ((p.dir pgdir).setPte v e)) := rfl

theorem run_freePte {pgdir v pa : Nat} (rest : Unit → Vm α) :
    Program.run (execute κ) (ask (.freePte pgdir v pa) >>= rest) (s, p) =
      Program.run (execute κ) (rest ()) (s.kfree κ pa, p.setDir pgdir ((p.dir pgdir).setPte v .zero)) := rfl

theorem run_retire {pgdir : Nat} (rest : List (Option Nat) → Vm α) :
    Program.run (execute κ) (ask (.retire pgdir) >>= rest) (s, p) =
      Program.run (execute κ) (rest ((List.range npdEntries).map (p.dir pgdir).pde)) (s, p.dropDir pgdir) := by
  rw [run_ask]
  simp only [execute]

theorem run_kalloc (rest : Option Nat → Vm α) :
    Program.run (execute κ) (ask .kalloc >>= rest) (s, p) =
      Program.run (execute κ) (rest (s.kalloc κ).1) ((s.kalloc κ).2, p) := rfl

theorem run_store {pa off : Nat} {bytes : List UInt8} (rest : Unit → Vm α) :
    Program.run (execute κ) (ask (.store pa off bytes) >>= rest) (s, p) =
      Program.run (execute κ) (rest ()) (s.setPage pa ((s.ram pa).store off bytes), p) := rfl

theorem walk_eq (pgdir va : Nat) : walkpgdir pgdir va false =
    ask (.pde pgdir (pageOf va / npdEntries)) >>= fun pde => pure (pde.map fun _ => pageOf va) := by
  unfold walkpgdir
  congr
  funext pde
  cases pde <;> rfl

theorem run_walk {pgdir va : Nat} (rest : Option Nat → Vm α) :
    Program.run (execute κ) (walkpgdir pgdir va false >>= rest) (s, p) =
      Program.run (execute κ) (rest (if (p.dir pgdir).Has (pageOf va) then some (pageOf va) else none)) (s, p) := by
  have read : Program.run (execute κ) (walkpgdir pgdir va false) (s, p) =
      (.ok (((p.dir pgdir).pde (pageOf va / npdEntries)).map fun _ => pageOf va), (s, p)) := by
    rw [walk_eq]
    rfl
  rw [Program.run_bind_ok read]
  by_cases has : (p.dir pgdir).Has (pageOf va)
  · obtain ⟨pa, entry⟩ := Option.ne_none_iff_exists'.mp has
    rw [if_pos has, entry, Option.map_some]
  · rw [if_neg has, Classical.not_not.mp has, Option.map_none]

theorem userRead_run {d va : Nat} :
    Program.run (execute κ) (userRead d va) (s, p) =
      if ((p.dir d).pte (pageOf va)).p && ((p.dir d).pte (pageOf va)).u then
        (.ok (some (s.ram ((p.dir d).pte (pageOf va)).addr (va % pgSize))), (s, p))
      else (.ok none, (s, p)) := by
  unfold userRead
  rw [run_pte]
  split
  · rfl
  · rw [run_pure]

/-- A user write stores through the entry that the hardware finds, or faults. -/
theorem userWrite_run {d va : Nat} {byte : UInt8} :
    Program.run (execute κ) (userWrite d va byte) (s, p) =
      if ((p.dir d).pte (pageOf va)).p && ((p.dir d).pte (pageOf va)).w && ((p.dir d).pte (pageOf va)).u then
        (.ok true, (s.setPage ((p.dir d).pte (pageOf va)).addr
          ((s.ram ((p.dir d).pte (pageOf va)).addr).store (va % pgSize) [byte]), p))
      else (.ok false, (s, p)) := by
  unfold userWrite
  rw [run_pte]
  split
  · rw [run_store, run_pure]
  · rw [run_pure]

end Runs

section Alongs

variable {condition : Cmd → Shared × Proc → Prop} {post : α → Shared × Proc → Prop}

theorem along_ask {command : Cmd} {rest : sig.Resp command → Vm α} (holds : condition command (s, p))
    (continues : Program.Along (execute κ) condition post (rest (execute κ command (s, p)).1)
      (execute κ command (s, p)).2) :
    Program.Along (execute κ) condition post (ask command >>= rest) (s, p) :=
  Program.along_call.mpr ⟨holds, continues⟩

theorem along_pde {pgdir i : Nat} {rest : Option Nat → Vm α} (holds : condition (.pde pgdir i) (s, p))
    (continues : Program.Along (execute κ) condition post (rest ((p.dir pgdir).pde i)) (s, p)) :
    Program.Along (execute κ) condition post (ask (.pde pgdir i) >>= rest) (s, p) := along_ask holds continues

theorem along_pte {pgdir v : Nat} {rest : Pte → Vm α} (holds : condition (.pte pgdir v) (s, p))
    (continues : Program.Along (execute κ) condition post (rest ((p.dir pgdir).pte v)) (s, p)) :
    Program.Along (execute κ) condition post (ask (.pte pgdir v) >>= rest) (s, p) := along_ask holds continues

theorem along_count {pa : Nat} {rest : Nat → Vm α} (holds : condition (.getRCount pa) (s, p))
    (continues : Program.Along (execute κ) condition post (rest (s.kmem.page_rCount pa)) (s, p)) :
    Program.Along (execute κ) condition post (ask (.getRCount pa) >>= rest) (s, p) := along_ask holds continues

theorem along_kalloc {rest : Option Nat → Vm α} (holds : condition .kalloc (s, p))
    (continues : Program.Along (execute κ) condition post (rest (s.kalloc κ).1) ((s.kalloc κ).2, p)) :
    Program.Along (execute κ) condition post (kalloc >>= rest) (s, p) := along_ask holds continues

theorem along_pure {value : α} {state : Shared × Proc} (done : post value state) :
    Program.Along (execute κ) condition post (pure value : Vm α) state := Program.along_ret.mpr done

theorem along_panic {message : String} {state : Shared × Proc} :
    Program.Along (execute κ) condition post (panic message : Vm α) state := Program.along_fail

theorem along_walk {pgdir va : Nat} {rest : Option Nat → Vm α}
    (holds : condition (.pde pgdir (pageOf va / npdEntries)) (s, p))
    (found : (p.dir pgdir).Has (pageOf va) → Program.Along (execute κ) condition post (rest (some (pageOf va))) (s, p))
    (missing : ¬ (p.dir pgdir).Has (pageOf va) → Program.Along (execute κ) condition post (rest none) (s, p)) :
    Program.Along (execute κ) condition post (walkpgdir pgdir va false >>= rest) (s, p) := by
  rw [walk_eq, bind_assoc]
  apply along_ask holds
  show Program.Along _ _ _ (pure (((p.dir pgdir).pde (pageOf va / npdEntries)).map fun _ => pageOf va) >>= rest) (s, p)
  rw [pure_bind]
  cases entry : (p.dir pgdir).pde (pageOf va / npdEntries) with
  | some pa => exact found (by simp [PgDir.Has, entry])
  | none => exact missing (fun has => has entry)

end Alongs

section Fault

variable [KernelImage]

/-- What `COW_FAULT` looks at before it acts: the page, its entry and the count of the frame. -/
def cowLook (pgdir va : Nat) : Vm (Nat × Pte × Nat) := do
  let pte ← walkpgdir pgdir va false
  match pte with
  | none => .fail .nullDeref
  | some v =>
    let e ← ask (.pte pgdir v)
    let refCount ← getRCount e.addr
    return (v, e, refCount)

/-- What `COW_FAULT` does then. -/
def cowAct (pgdir : Nat) (look : Nat × Pte × Nat) : Vm Unit :=
  if look.2.2 < 1 then panic "Error in COW_FAULT: Incorrect Reference Count"
  else if look.2.2 = 1 then
    ask (.setPte pgdir look.1 { look.2.1 with w := true })
  else do
    let page ← kalloc
    match page with
    | some mem =>
      ask (.memmove mem look.2.1.addr)
      ask (.setPte pgdir look.1 (.make mem permWU))
      dRCount look.2.1.addr
    | none => ask .kill

theorem cowFault_eq (pgdir va : Nat) : cowFault pgdir va = cowLook pgdir va >>= cowAct pgdir := by
  unfold cowFault cowLook
  rw [bind_assoc]
  congr
  funext pte
  cases pte with
  | none => rfl
  | some v =>
    simp only [bind_assoc, pure_bind]
    rfl

variable {pgdir va : Nat} {x : PgDir}

/-- Looking changes nothing, and ends well on a managed frame whose page table exists. -/
theorem run_cowLook : Program.run (execute κ) (cowLook pgdir va) (s, p) =
    (if ¬ (p.dir pgdir).Has (pageOf va) then .error .nullDeref
      else if ¬ Managed ((p.dir pgdir).pte (pageOf va)).addr then .error (.panic "getReferenceCount")
      else .ok (pageOf va, (p.dir pgdir).pte (pageOf va),
        s.kmem.page_rCount ((p.dir pgdir).pte (pageOf va)).addr), (s, p)) := by
  unfold cowLook
  rw [run_walk]
  by_cases has : (p.dir pgdir).Has (pageOf va)
  · rw [if_pos has, if_neg (by simpa using has)]
    show Program.run (execute κ) (ask (.pte pgdir (pageOf va)) >>= _) (s, p) = _
    rw [run_pte]
    generalize (p.dir pgdir).pte (pageOf va) = e
    unfold getRCount
    by_cases managed : Managed e.addr
    · rw [if_pos managed, if_neg (by simpa using managed)]
      rfl
    · rw [if_neg managed, if_pos managed]
      rfl
  · rw [if_neg has, if_pos has]
    rfl

/-- Memory after the copying branch, with `mem` the page it gets. -/
def Shared.copied (s : Shared) (mem src : Nat) : Shared :=
  ((s.kalloc .cow).2.setPage mem (s.ram src)).dRCount src

variable {v n : Nat} {e : Pte}

theorem run_cowAct_promote :
    Program.run (execute κ) (cowAct pgdir (v, e, 1)) (s, p) =
      (.ok (), (s, p.setDir pgdir ((p.dir pgdir).setPte v { e with w := true }))) := rfl

theorem run_cowAct_kill (several : 1 < n) (none : s.kmem.freelist = []) :
    Program.run (execute .cow) (cowAct pgdir (v, e, n)) (s, p) = (.ok (), (s, { p with killed := true })) := by
  unfold cowAct
  dsimp only
  rw [if_neg (by omega), if_neg (by omega)]
  show Program.run (execute .cow) (ask .kalloc >>= _) (s, p) = _
  rw [run_kalloc]
  simp only [Shared.kalloc, none]
  rfl

theorem run_cowAct_copy {r : Nat} {next : List Nat} (several : 1 < n) (free : s.kmem.freelist = r :: next)
    (managed : Managed e.addr) :
    Program.run (execute .cow) (cowAct pgdir (v, e, n)) (s, p) =
      (.ok (), (s.copied r e.addr, p.setDir pgdir ((p.dir pgdir).setPte v (.make r permWU)))) := by
  unfold cowAct dRCount
  dsimp only
  rw [if_neg (by omega), if_neg (by omega), if_pos managed]
  show Program.run (execute .cow) (ask .kalloc >>= _) (s, p) = _
  rw [run_kalloc]
  simp only [Shared.copied, Shared.kalloc, free]
  rfl

theorem run_cowAct_zero :
    Program.run (execute κ) (cowAct pgdir (v, e, 0)) (s, p) =
      (.error (.panic "Error in COW_FAULT: Incorrect Reference Count"), (s, p)) := rfl

end Fault

end Xv6
