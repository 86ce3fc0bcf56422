import Xv6.Exec.Outline
import Xv6.Fork.Writes
import Xv6.System.Resize
import Xv6.System.Touch
import Xv6.System.View

namespace Xv6

open CommandProgram Function Ledger

variable [KernelImage] {ι : Type} [Fintype ι] [DecidableEq ι]
variable {S : Setting ι} {c : System ι} {s s' : Shared} {p p' : Proc} {t u : ι} {x x' : PgDir} {mark mark' : Nat → Mark} {gh' : Gh}

def PgDir.Opened (x : PgDir) : Prop := ∀ v, v < userPages → (x.pte v).p = true → (x.pte v).u = true → (x.pte v).w = true

section

omit [KernelImage]

theorem PgDir.memory_isSome {v : Nat} (user : v < userPages) : (x.memory s v).isSome = (x.pte v).p := by
  unfold PgDir.memory
  cases present : (x.pte v).p
  · rw [if_neg fun both => Bool.false_ne_true both.2]
    rfl
  · rw [if_pos ⟨user, rfl⟩]
    rfl

theorem PgDir.present_of_memory {v : Nat} (shown : (x.memory s v).isSome = true) : (x.pte v).p = true := by
  unfold PgDir.memory at shown
  split at shown
  · rename_i mapped
    exact mapped.2
  · cases shown

theorem PgDir.memory_absent {v : Nat} (absent : (x.pte v).p = false) : x.memory s v = none :=
  if_neg fun both => Bool.false_ne_true (absent.symm.trans both.2)

theorem PgDir.memory_kernel {v : Nat} (kernel : userPages ≤ v) : x.memory s v = none :=
  if_neg fun both => absurd both.1 (Nat.not_lt.mpr kernel)

end

/-- Process `t` has run: it has memory `m` now, and all else is as before. -/
structure Leaves (S : Setting ι) (c : System ι) (t : ι) (s : Shared) (p : Proc) (m : Cells) (sz : Nat) : Prop where
  sane : Sane S (c.ran t s p)
  memory : (c.ran t s p).memory = update c.memory t m
  size : p.sz = sz
  opened : S.kernel = .eager → (c.table t).Opened → p.table.Opened

theorem Sane.leaves (sane : Sane S c) (calm : S.Calm c.shared c.proc mark)
    (change : S.Change c.shared c.proc mark t s p gh' mark') (used : c.state t ≠ .unused) (occupied : Occupied p x')
    (alive : c.state t = .live → p.killed = false) {m : Cells} (memory : x'.memory s = m)
    (opened : S.kernel = .eager → (c.table t).Opened → x'.Opened) : Leaves S c t s p m p.sz where
  sane := sane.ran change.calm used occupied alive
  memory := by
    funext w
    by_cases here : w = t
    · subst here
      rw [update_self, ← memory]
      simp only [System.memory, System.table, update_self, occupied.table]
    · rw [update_of_ne here]
      exact sane.memory_others calm change here
  size := rfl
  opened eager open' := by
    rw [occupied.table]
    exact opened eager open'

section Sbrk

omit [KernelImage] in
theorem asked_user {sz : Nat} {n : Int} (small : asked sz n < kernBase) : pgRoundUp (asked sz n) ≤ userPages :=
  roundUp_user (Nat.le_of_lt small)

theorem sbrk_leaves {n : Int} (sane : Sane S c) (live : c.state t = .live) (below : Cells.Below (c.memory t) (c.proc t).sz)
    (fits : n < 2 ^ 31) (supplied : Sustained S (growproc (c.proc t).pgdir (c.proc t).sz n) c t) {grown : Bool}
    (done : Program.run (execute S.kernel) (growproc (c.proc t).pgdir (c.proc t).sz n) (c.shared, c.proc t) = (.ok grown, (s, p))) :
    ∃ m sz, Leaves S c t s p m sz ∧ Regrown S.scarce (c.memory t) (c.proc t).sz n grown m sz := by
  have used : c.state t ≠ .unused := by simp [live]
  obtain ⟨x, occupied⟩ := sane.occupied t used
  obtain ⟨mark, calm⟩ := sane.calm
  have old : c.memory t = x.memory c.shared := by rw [System.memory, System.table, occupied.table]
  have absent : ∀ v, v < userPages → pgRoundUp (c.proc t).sz ≤ v → (x.pte v).p = false := by
    intro v user high
    rw [← PgDir.memory_isSome (s := c.shared) user, ← old]
    exact Bool.eq_false_iff.mpr fun some => absurd (below v some) (Nat.not_lt.mpr high)
  have outline : S.Outline (growproc (c.proc t).pgdir (c.proc t).sz n) (c.proc t) (.calm c.shared mark) _ :=
    growproc_outline occupied.at_pgdir rfl rfl occupied.size fits (fun _ claim => claim) (fun _ => rfl)
      fun _ v high user => absent v user high
  obtain ⟨gh', mark', ⟨-, -, sees, x', sz', own, outcome⟩, change⟩ :=
    calm.change outline supplied (fun _ _ _ post => ⟨post.1, post.2.1⟩) done
  have own : p = { (c.proc t).setDir (c.proc t).pgdir x' with sz := sz' } := own
  have at_pgdir : p.dirs (c.proc t).pgdir = some x' := by
    rw [own]
    exact update_self ..
  have left : ∀ {m : Cells}, (∀ v, userPages ≤ v → x'.pte v = x.pte v) → sz' ≤ kernBase →
      (∀ v, v < userPages → (x'.pte v).p = true → x'.pte v = x.pte v ∨ (x'.pte v).w = true) →
      (∀ v, x'.memory s v = m v) → Leaves S c t s p m sz' := by
    intro m kernel bound entries memory
    have kept := occupied.setDir kernel
    have occupied' : Occupied p x' := by
      rw [own]
      exact ⟨kept.dirs, occupied.kpages, bound, kept.kernel⟩
    have size : p.sz = sz' := by rw [own]
    have alive : c.state t = .live → p.killed = false := by
      rw [own]
      exact sane.alive t
    rw [← size]
    refine sane.leaves calm change used occupied' alive (funext memory) fun _ opened v user present privilege => ?_
    rcases entries v user present with same | writable
    · rw [same] at present privilege ⊢
      rw [System.table, occupied.table] at opened
      exact opened v user present privilege
    · exact writable
  have cell : ∀ v, x'.pte v = x.pte v → x'.memory s v = c.memory t v := by
    intro v same
    rw [old]
    exact change.cell_kept calm occupied at_pgdir same sees
  split at outcome
  · rename_i grows
    obtain ⟨outside, inside⟩ := outcome
    have user := asked_user grows.2
    have kernel : ∀ v, userPages ≤ v → x'.pte v = x.pte v := fun v high => outside v (by omega)
    rcases inside with ⟨rfl, rfl, inside⟩ | ⟨rfl, scarce, rfl, inside⟩
    · refine ⟨_, _, left kernel (Nat.le_of_lt grows.2) (fun v _ _ => ?_) (fun v => ?_), .grew grows⟩
      · by_cases new : pgRoundUp (c.proc t).sz ≤ v ∧ v < pgRoundUp (asked (c.proc t).sz n)
        · exact .inr (inside v new.1 new.2).writable
        · exact .inl (outside v new)
      · by_cases new : pgRoundUp (c.proc t).sz ≤ v ∧ v < pgRoundUp (asked (c.proc t).sz n)
        · have page := inside v new.1 new.2
          rw [Cells.extended, if_pos new, PgDir.memory, if_pos ⟨by omega, page.present⟩, page.unprivileged,
            change.page at_pgdir (by omega) page.present, page.zero]
        · rw [Cells.extended, if_neg new]
          exact cell v (outside v new)
    · refine ⟨_, _, left kernel occupied.size (fun v _ present => .inl (outside v fun new => ?_)) (fun v => ?_), .failed grows scarce⟩
      · rw [inside v new.1 new.2] at present
        exact Bool.false_ne_true present
      · by_cases new : pgRoundUp (c.proc t).sz ≤ v ∧ v < pgRoundUp (asked (c.proc t).sz n)
        · rw [PgDir.memory_absent (inside v new.1 new.2), old, PgDir.memory_absent (absent v (by omega) new.1)]
        · exact cell v (outside v new)
  · rename_i still
    split at outcome
    · rename_i shrinks
      obtain ⟨cleared, rfl, rfl⟩ := outcome
      have user := roundUp_user occupied.size
      have other : ∀ v, ¬ (pgRoundUp (asked (c.proc t).sz n) ≤ v ∧ v < pgRoundUp (c.proc t).sz) → x'.pte v = x.pte v := by
        intro v outside
        rw [cleared, PgDir.cleared, if_neg fun gone => outside ⟨gone.1, gone.2.1⟩]
      have gone : ∀ v, pgRoundUp (asked (c.proc t).sz n) ≤ v → v < pgRoundUp (c.proc t).sz → (x'.pte v).p = false := by
        intro v low high
        rw [cleared, PgDir.cleared]
        by_cases present : (x.pte v).p = true
        · rw [if_pos ⟨low, high, present⟩]
          rfl
        · rw [if_neg fun all => present all.2.2]
          exact Bool.eq_false_iff.mpr present
      have size := occupied.size
      refine ⟨_, _, left (fun v high => other v (by omega)) (by split <;> omega) (fun v _ present => ?_) (fun v => ?_), .shrank shrinks⟩
      · by_cases range : pgRoundUp (asked (c.proc t).sz n) ≤ v ∧ v < pgRoundUp (c.proc t).sz
        · rw [gone v range.1 range.2] at present
          exact absurd present Bool.false_ne_true
        · exact .inl (other v range)
      · by_cases range : pgRoundUp (asked (c.proc t).sz n) ≤ v ∧ v < pgRoundUp (c.proc t).sz
        · rw [Cells.dropped, if_pos range, PgDir.memory_absent (gone v range.1 range.2)]
        · rw [Cells.dropped, if_neg range]
          exact cell v (other v range)
    · rename_i stays
      obtain ⟨same, rfl, rfl⟩ := outcome
      exact ⟨_, _, left (fun v _ => congrFun same v) occupied.size (fun v _ _ => .inl (congrFun same v))
        (fun v => cell v (congrFun same v)), .stayed still stays⟩

end Sbrk

section Touch

variable {va : Nat} {byte : UInt8}

omit [DecidableEq ι] in
theorem supplied_freeing {α : Type} {program : Vm α} (uses : program.Uses Freeing) (state : Shared × Proc) :
    Program.Along (execute S.kernel) S.Supplied (fun _ _ => True) program state := by
  apply uses.along
  rintro command _ freeing rfl
  exact freeing.elim

/-- A page that one entry lets user code write is behind no other entry of the table. -/
theorem Setting.Calm.sole {own : ι → Proc} (calm : S.Calm s own mark) {d v w : Nat} (at_d : (own t).dirs d = some x)
    (user : v < userPages) (user' : w < userPages) (present : (x.pte v).p = true) (present' : (x.pte w).p = true)
    (writable : (x.pte v).w = true) (same : (x.pte w).addr = (x.pte v).addr) : w = v := by
  obtain ⟨count, inv⟩ := calm
  exact (inv.writer_alone (t := t) (u := t) at_d at_d user user' present present' writable same).2.2

omit [KernelImage] in
theorem Pte.allows_write {e : Pte} (granted : e.allows true .write = true) : e.p = true ∧ e.w = true ∧ e.u = true := by
  simpa [Pte.allows, and_assoc] using granted

theorem write_leaves (sane : Sane S c) (live : c.state t = .live)
    (granted : ((c.proc t).entry va).allows true .write = true) :
    Leaves S c t (c.shared.written (c.proc t) va byte) (c.proc t) (Cells.written (c.memory t) va byte) (c.proc t).sz := by
  have used : c.state t ≠ .unused := by simp [live]
  obtain ⟨x, occupied⟩ := sane.occupied t used
  obtain ⟨mark, calm⟩ := sane.calm
  obtain ⟨present, writable, privilege⟩ := Pte.allows_write granted
  have user : pageOf va < userPages := occupied.accessible_user ⟨present, privilege⟩
  have outline : S.Outline (userWrite (c.proc t).pgdir va byte) (c.proc t) (.calm c.shared mark) _ :=
    userWrite_outline (by rw [occupied.at_pgdir]; exact Option.some_ne_none _) user (Gh.resting_rested _)
  have ran : Program.run (execute S.kernel) (userWrite (c.proc t).pgdir va byte) (c.shared, c.proc t) = _ := userWrite_entry
  rw [if_pos granted] at ran
  obtain ⟨gh', mark', -, change⟩ := calm.change outline (supplied_freeing userWrite_uses _) (fun _ _ _ rested => rested) ran
  have old : c.memory t = x.memory c.shared := by rw [System.memory, System.table, occupied.table]
  rw [occupied.entry_eq] at present writable privilege
  refine sane.leaves calm change used occupied (fun _ => sane.alive t live) (funext fun v => ?_) fun _ opened => ?_
  · unfold Cells.written
    by_cases faulted : v = pageOf va
    · subst faulted
      rw [update_self, old, PgDir.memory, PgDir.memory, if_pos ⟨user, present⟩, if_pos ⟨user, present⟩, Shared.written,
        occupied.entry_eq, Shared.setPage, Option.map_some]
      dsimp only
      rw [update_self]
    · rw [update_of_ne faulted, old]
      unfold PgDir.memory
      by_cases mapped : v < userPages ∧ (x.pte v).p = true
      · have apart : (x.pte v).addr ≠ (x.pte (pageOf va)).addr :=
          fun same => faulted (calm.sole occupied.at_pgdir user mapped.1 present mapped.2 writable same)
        rw [if_pos mapped, if_pos mapped, Shared.written, occupied.entry_eq, Shared.setPage]
        dsimp only
        rw [update_of_ne apart]
      · rw [if_neg mapped, if_neg mapped]
  · rwa [System.table, occupied.table] at opened

omit [KernelImage] [Fintype ι] in
theorem System.ran_ran : (c.ran t s p).ran t s' p' = c.ran t s' p' := by
  simp only [System.ran, update_idem]

theorem Leaves.trans {m m' : Cells} {sz sz' : Nat} (first : Leaves S c t s p m sz) (second : Leaves S (c.ran t s p) t s' p' m' sz') :
    Leaves S c t s' p' m' sz' where
  sane := System.ran_ran (c := c) ▸ second.sane
  memory := by
    have memory := second.memory
    rw [System.ran_ran, first.memory, update_idem] at memory
    exact memory
  size := second.size
  opened eager opened := by
    apply second.opened eager
    simp only [System.table, update_self]
    exact first.opened eager opened

theorem AfterFault.leaves (after : AfterFault S c t va s p) (cow : S.kernel = .cow) (sane : Sane S c) (used : c.state t ≠ .unused)
    (alive : c.state t = .live → p.killed = false) : Leaves S c t s p (c.memory t) (c.proc t).sz where
  sane := by
    obtain ⟨mark, calm⟩ := after.calm
    obtain ⟨x, occupied⟩ := after.occupied
    exact sane.ran calm used occupied alive
  memory := by
    rw [update_eq_self]
    exact funext after.memory
  size := after.size
  opened eager := by
    rw [cow] at eager
    cases eager

section Runs

variable {κ : Kernel} {sh : Shared} {q : Proc}

omit [KernelImage] in
theorem userRead_entry : Program.run (execute κ) (userRead q.pgdir va) (sh, q) =
    if (q.entry va).p && (q.entry va).u then (.ok (some (sh.ram (q.entry va).addr (va % pgSize))), (sh, q))
    else (.ok none, (sh, q)) :=
  userRead_run

theorem touchRead_granted (accessible : q.Accessible va) : Program.run (execute κ) (touchRead κ q.pgdir va) (sh, q) =
    (.ok (.byte (sh.ram (q.entry va).addr (va % pgSize))), (sh, q)) := by
  have first : Program.run (execute κ) (userRead q.pgdir va) (sh, q) = _ := userRead_entry
  rw [if_pos (by simpa [Proc.Accessible] using accessible)] at first
  unfold touchRead
  rw [Program.run_bind_ok first]
  rfl

theorem touchRead_retried (refused : ¬ q.Accessible va)
    (fault : Program.run (execute .cow) (cowFault q.pgdir va) (sh, q) = (.ok (), (s', p'))) (same : p'.pgdir = q.pgdir) :
    Program.run (execute .cow) (touchRead .cow q.pgdir va) (sh, q) =
      if p'.killed then (.ok .exits, (s', p'))
      else if (p'.entry va).p && (p'.entry va).u then (.ok (.byte (s'.ram (p'.entry va).addr (va % pgSize))), (s', p'))
      else (.ok .faults, (s', p')) := by
  have first : Program.run (execute .cow) (userRead q.pgdir va) (sh, q) = _ := userRead_entry
  rw [if_neg (by simpa [Proc.Accessible] using refused)] at first
  have trapped : Program.run (execute .cow) (trap .cow true q.pgdir va) (sh, q) = _ := trap_run fault
  have again : Program.run (execute .cow) (userRead q.pgdir va) (s', p') = _ := same ▸ userRead_entry
  unfold touchRead
  rw [Program.run_bind_ok first, Program.run_bind_ok trapped]
  cases dead : p'.killed
  · rw [if_neg (by decide), if_neg (by decide)]
    by_cases granted : ((p'.entry va).p && (p'.entry va).u) = true
    · rw [if_pos granted] at again ⊢
      rw [Program.run_bind_ok again]
      rfl
    · rw [if_neg granted] at again ⊢
      rw [Program.run_bind_ok again]
      rfl
  · rfl

theorem touchRead_halted {halt : Halt} (refused : ¬ q.Accessible va)
    (fault : Program.run (execute .cow) (cowFault q.pgdir va) (sh, q) = (.error halt, (s', p'))) :
    Program.run (execute .cow) (touchRead .cow q.pgdir va) (sh, q) = (.error halt, (s', p')) := by
  have first : Program.run (execute .cow) (userRead q.pgdir va) (sh, q) = _ := userRead_entry
  rw [if_neg (by simpa [Proc.Accessible] using refused)] at first
  have trapped : Program.run (execute .cow) (trap .cow true q.pgdir va) (sh, q) = _ := trap_run fault
  unfold touchRead
  rw [Program.run_bind_ok first]
  exact Program.run_bind_error trapped

end Runs

theorem FaultRun.pgdir {sh : Shared} {q : Proc} {result : Except Halt Unit} (fault : FaultRun sh q va result s' p') :
    p'.pgdir = q.pgdir := by
  cases fault <;> rfl

/-- A page that user code may read can be written after the fault, unless the process ends. -/
theorem FaultRun.opens {sh : Shared} {q : Proc} (fault : FaultRun sh q va (.ok ()) s' p') (accessible : q.Accessible va) :
    p'.killed = true ∨ (p'.entry va).allows true .write = true := by
  cases fault with
  | promoted has managed one =>
    rw [Proc.entry_setEntry has, Pte.allows_opened]
    exact .inr (by simp [accessible.1, accessible.2])
  | copied mem rest has managed several free =>
    rw [Proc.entry_setEntry has]
    exact .inr rfl
  | exhausted has managed several free => exact .inl rfl

omit [DecidableEq ι] in
theorem fault_kills (supplied : Sustained S (cowFault (c.proc t).pgdir va) c t) (alive : (c.proc t).killed = false)
    {result : Except Halt Unit} (fault : FaultRun c.shared (c.proc t) va result s p) (killed : p.killed = true) :
    S.scarce := by
  cases fault with
  | absent missing => rw [alive] at killed; cases killed
  | foreign has outside => rw [alive] at killed; cases killed
  | uncounted has managed zero => rw [alive] at killed; cases killed
  | promoted has managed one => rw [Proc.killed_setEntry, alive] at killed; cases killed
  | copied mem rest has managed several free => rw [Proc.killed_setEntry, alive] at killed; cases killed
  | exhausted has managed several free =>
    have look : Program.run (execute S.kernel) (cowLook (c.proc t).pgdir va) (c.shared, c.proc t) =
        (.ok (pageOf va, (c.proc t).entry va, c.shared.kmem.page_rCount ((c.proc t).entry va).addr), (c.shared, c.proc t)) := by
      rw [run_cowLook, if_neg (not_not.mpr has), if_neg]
      · rfl
      · exact not_not.mpr managed
    rw [Sustained, cowFault_eq, Program.along_bind] at supplied
    have later := supplied.result look
    unfold cowAct at later
    rw [if_neg (by dsimp only; omega), if_neg (by dsimp only; omega)] at later
    exact ((Program.along_call.mp later).1 rfl).resolve_right (not_not.mpr free)

/-- A read by user code that faults leaves its memory as it was; a process that goes on has not been killed. -/
theorem read_after (cow : S.kernel = .cow) (sane : Sane S c) (live : c.state t = .live) (decent : Decent c.shared (c.proc t) va)
    (refused : ¬ (c.proc t).Accessible va) (supplied : Sustained S (cowFault (c.proc t).pgdir va) c t) {touch : Touch}
    (done : Program.run (execute .cow) (touchRead .cow (c.proc t).pgdir va) (c.shared, c.proc t) = (.ok touch, (s, p))) :
    AfterFault S c t va s p ∧ (touch = .exits ∨ p.killed = false ∧ (touch = .faults ∨ p.Accessible va)) := by
  have used : c.state t ≠ .unused := by simp [live]
  obtain ⟨result, s', p', run, fault⟩ := cowFault_run c.shared (c.proc t) va
  cases result with
  | error halt =>
    rw [touchRead_halted refused run] at done
    cases done
  | ok value =>
    have after := fault_after cow sane used decent supplied run
    rw [touchRead_retried refused run fault.pgdir] at done
    cases dead : p'.killed
    · rw [dead, if_neg Bool.false_ne_true] at done
      split at done
      · rename_i both
        cases done
        exact ⟨after, .inr ⟨dead, .inr (by simpa [Proc.Accessible] using both)⟩⟩
      · cases done
        exact ⟨after, .inr ⟨dead, .inl rfl⟩⟩
    · rw [dead, if_pos rfl] at done
      cases done
      exact ⟨after, .inl rfl⟩

/-- How a write by user code that faults ends, from what `COW_FAULT` leaves. -/
inductive WriteEnd (S : Setting ι) (q : Proc) (va : Nat) (byte : UInt8) (s : Shared) (p : Proc) : Touch → Shared → Proc → Prop
  | exits (why : S.scarce) : WriteEnd S q va byte s p .exits s p
  | faults (alive : p.killed = false) (hidden : ¬ q.Accessible va) : WriteEnd S q va byte s p .faults s p
  | written (alive : p.killed = false) (granted : (p.entry va).allows true .write = true) :
    WriteEnd S q va byte s p .written (s.written p va byte) p

theorem write_after (cow : S.kernel = .cow) (sane : Sane S c) (live : c.state t = .live) (decent : Decent c.shared (c.proc t) va)
    (refused : ((c.proc t).entry va).allows true .write = false) (supplied : Sustained S (cowFault (c.proc t).pgdir va) c t)
    {touch : Touch}
    (done : Program.run (execute .cow) (touchWrite .cow (c.proc t).pgdir va byte) (c.shared, c.proc t) = (.ok touch, (s, p))) :
    ∃ s' p', AfterFault S c t va s' p' ∧ WriteEnd S (c.proc t) va byte s' p' touch s p := by
  have used : c.state t ≠ .unused := by simp [live]
  obtain ⟨result, s', p', run, fault⟩ := cowFault_run c.shared (c.proc t) va
  cases result with
  | error halt =>
    rw [touchWrite_halted refused run] at done
    cases done
  | ok value =>
    refine ⟨s', p', fault_after cow sane used decent supplied run, ?_⟩
    rw [touchWrite_retried refused run fault.pgdir] at done
    cases dead : p'.killed
    · rw [dead, if_neg Bool.false_ne_true] at done
      split at done
      · cases done
        exact .written dead ‹_›
      · cases done
        refine .faults dead fun accessible => ?_
        rcases fault.opens accessible with killed | granted
        · rw [dead] at killed
          cases killed
        · contradiction
    · rw [dead, if_pos rfl] at done
      cases done
      exact .exits (fault_kills supplied (sane.alive t live) fault dead)

theorem AfterFault.written_leaves (after : AfterFault S c t va s p) (cow : S.kernel = .cow) (sane : Sane S c)
    (live : c.state t = .live) (alive : p.killed = false) (granted : (p.entry va).allows true .write = true) :
    Leaves S c t (s.written p va byte) p (Cells.written (c.memory t) va byte) (c.proc t).sz := by
  have first := after.leaves cow sane (by simp [live]) fun _ => alive
  have proc : (c.ran t s p).proc t = p := update_self ..
  have second : Leaves S (c.ran t s p) t (s.written ((c.ran t s p).proc t) va byte) ((c.ran t s p).proc t) _ _ :=
    write_leaves first.sane live (by rw [proc]; exact granted)
  rw [proc, first.memory, update_self] at second
  rw [← after.size]
  exact first.trans second

end Touch

section Ends

theorem Sane.exited (sane : Sane S c) (calm : S.Calm s (update c.proc t p) mark) (used : c.state t ≠ .unused)
    (occupied : Occupied p x) : Sane S ((c.ran t s p).exit t) where
  calm := ⟨mark, calm⟩
  occupied w used' := by
    by_cases here : w = t
    · subst here
      exact ⟨x, by simpa [System.exit] using occupied⟩
    · have used'' : c.state w ≠ .unused := by simpa [System.exit, here] using used'
      simpa [System.exit, here] using sane.occupied w used''
  vacant w unused := by
    have other : w ≠ t := by
      rintro rfl
      simp [System.exit] at unused
    have unused' : c.state w = .unused := by simpa [System.exit, other] using unused
    simpa [System.exit, other] using sane.vacant w unused'
  alive w live := by
    have other : w ≠ t := by
      rintro rfl
      simp [System.exit] at live
    have live' : c.state w = .live := by simpa [System.exit, other] using live
    simpa [System.exit, other] using sane.alive w live'

/-- `wait` takes a zombie's page table and kernel stack away. -/
structure Reaped (S : Setting ι) (c c' : System ι) (u : ι) : Prop where
  sane : Sane S c'
  memory : c'.memory = update c.memory u fun _ => none
  procs : ∀ w, w ≠ u → c'.proc w = c.proc w
  size : (c'.proc u).sz = (c.proc u).sz

theorem wait_uses {kstack pgdir : Nat} : (wait kstack pgdir).Uses Freeing := by
  unfold wait
  exact Program.uses_bind (uses_ask ⟨⟩) fun _ => Program.uses_bind kfree_uses fun _ => freevm_uses

theorem wait_leaves (sane : Sane S c) (used : c.state u ≠ .unused)
    (done : Program.run (execute S.kernel) (wait (c.proc u).kstack (c.proc u).pgdir) (c.shared, c.proc u) = (.ok (), (s, p))) :
    Reaped S c ((c.ran u s p).reap u) u := by
  obtain ⟨x, occupied⟩ := sane.occupied u used
  obtain ⟨mark, calm⟩ := sane.calm
  have kept : (c.proc u).kstack ∈ (c.proc u).kpages := by
    rw [occupied.kpages]
    exact List.mem_singleton_self _
  have outline : S.Outline (wait (c.proc u).kstack (c.proc u).pgdir) (c.proc u) (.calm c.shared mark) _ :=
    wait_outline occupied.at_pgdir kept fun _ => rfl
  obtain ⟨gh', mark', ⟨-, -, own⟩, change⟩ :=
    calm.change outline (supplied_freeing wait_uses _) (fun _ _ _ post => ⟨post.1, post.2.1⟩) done
  have vacant : Vacant p := by
    rw [own]
    constructor
    · show update (c.proc u).dirs (c.proc u).pgdir none = _
      rw [occupied.dirs, update_idem, update_eq_self_iff]
    · show (c.proc u).kpages.erase (c.proc u).kstack = []
      rw [occupied.kpages]
      simp
  have at_u : ((c.ran u s p).reap u).proc u = { p with kstack := 0, killed := false } := by simp [System.reap]
  have others : ∀ w, w ≠ u → ((c.ran u s p).reap u).proc w = c.proc w := by
    intro w other
    simp [System.reap, other]
  have states : ∀ w, w ≠ u → ((c.ran u s p).reap u).state w = c.state w := fun w other => update_of_ne other ..
  constructor
  case sane =>
    constructor
    case calm =>
      refine ⟨mark', change.calm.fields fun w => ?_⟩
      by_cases here : w = u
      · subst here
        rw [at_u, update_self]
        exact ⟨rfl, rfl⟩
      · rw [others w here, update_of_ne here]
        exact ⟨rfl, rfl⟩
    case occupied =>
      intro w used'
      have other : w ≠ u := by
        rintro rfl
        simp [System.reap] at used'
      rw [others w other]
      exact sane.occupied w (by rwa [states w other] at used')
    case vacant =>
      intro w unused
      by_cases here : w = u
      · subst here
        rw [at_u]
        exact ⟨vacant.dirs, vacant.kpages⟩
      · rw [others w here]
        exact sane.vacant w (by rwa [states w here] at unused)
    case alive =>
      intro w live
      have other : w ≠ u := by
        rintro rfl
        simp [System.reap] at live
      rw [others w other]
      exact sane.alive w (by rwa [states w other] at live)
  case memory =>
    funext w
    by_cases here : w = u
    · subst here
      have vacant' : Vacant { p with kstack := 0, killed := false } := ⟨vacant.dirs, vacant.kpages⟩
      rw [update_self, System.memory, System.table, at_u, vacant'.table]
      funext v
      exact PgDir.memory_absent (by rw [PgDir.pte_empty]; rfl)
    · rw [update_of_ne here, ← sane.memory_others calm change here]
      simp only [System.memory, System.table, others w here, update_of_ne here]
      rfl
  case procs => exact others
  case size =>
    rw [at_u, own]
    rfl

end Ends

section Exec

variable {ip : Option Inode} {argv : List (List UInt8)}

/-- After `exec`: all is as before, or the process has the table of a program ready to run. -/
theorem exec_leaves (sane : Sane S c) (live : c.state t = .live) (lax : ¬ S.strict)
    (supplied : Sustained S (exec (c.proc t).pgdir ip argv) c t) {replaced : Bool}
    (done : Program.run (execute S.kernel) (exec (c.proc t).pgdir ip argv) (c.shared, c.proc t) = (.ok replaced, (s, p))) :
    Sane S (c.ran t s p) ∧ (∀ w, w ≠ t → (c.ran t s p).memory w = c.memory w) ∧
      if replaced then ∃ y, Occupied p y ∧ Loaded y p.sz else (c.ran t s p).memory t = c.memory t ∧ p = c.proc t := by
  have used : c.state t ≠ .unused := by simp [live]
  obtain ⟨x, occupied⟩ := sane.occupied t used
  obtain ⟨mark, calm⟩ := sane.calm
  have outline : S.Outline (exec (c.proc t).pgdir ip argv) (c.proc t) (.calm c.shared mark) _ :=
    exec_outline occupied.at_pgdir (fun _ claim => claim) (fun _ => rfl) lax
  obtain ⟨gh', mark', ⟨-, -, ended⟩, change⟩ :=
    calm.change outline supplied (fun _ _ _ post => ⟨post.1, post.2.1⟩) done
  have others : ∀ w, w ≠ t → (c.ran t s p).memory w = c.memory w := fun w other => sane.memory_others calm change other
  cases replaced with
  | false =>
    obtain ⟨own, sees⟩ := ended
    have own : p = c.proc t := own
    rw [own] at change sees ⊢
    have same := change.memory_kept calm occupied occupied.at_pgdir (fun _ _ => ⟨rfl, rfl, rfl⟩) sees
    refine ⟨sane.ran change.calm used occupied fun _ => sane.alive t live, own ▸ others, ?_⟩
    refine ⟨?_, rfl⟩
    simp only [System.memory, System.table, update_self, occupied.table]
    exact same
  | true =>
    obtain ⟨d, y, sz, absent, loaded, own⟩ := ended
    have own : p = { ((c.proc t).setDir d y).dropDir (c.proc t).pgdir with pgdir := d, sz := sz } := own
    have apart : d ≠ (c.proc t).pgdir := by
      rintro rfl
      have at_pgdir := occupied.at_pgdir
      rw [show (c.proc t).dirs (c.proc t).pgdir = none from absent] at at_pgdir
      cases at_pgdir
    have occupied' : Occupied p y := by
      rw [own]
      constructor
      case dirs =>
        show update (update (c.proc t).dirs d (some y)) (c.proc t).pgdir none = update (fun _ => none) d (some y)
        rw [update_comm apart, occupied.dirs, update_idem, update_eq_self_iff.mpr rfl]
      case kpages => exact occupied.kpages
      case size => exact Nat.le_of_lt loaded.bound
      case kernel => exact loaded.kernel
    have alive : p.killed = false := by
      rw [own]
      exact sane.alive t live
    refine ⟨sane.ran change.calm used occupied' fun _ => alive, others, ?_⟩
    rw [if_pos rfl]
    refine ⟨y, occupied', ?_⟩
    rw [own]
    exact loaded

end Exec

end Xv6
