import Xv6.Cow.Clients
import Xv6.Memory.Steps

namespace Xv6

open CommandProgram Function Ledger

variable [KernelImage] {ι : Type} [Fintype ι] [DecidableEq ι]

section Entries

variable {p : Proc} {d d' v v' f : Nat} {x x' : PgDir}

section

omit [KernelImage]

theorem held_entry {e : Pte} (present : e.p = true) : held e.refs e.addr = 1 := by
  rw [Pte.refs_present present]
  cases e.w <;> simp [held, unit]

theorem held_le_of_le {a b : Tally Nat} (le : ∀ k, a k f ≤ b k f) : held a f ≤ held b f := by
  have reader := le .reader
  have writer := le .writer
  have owner := le .owner
  unfold held
  omega

theorem held_entry_le (user : v < userPages) : held (x.pte v).refs f ≤ held (x.refs d) f :=
  held_le_of_le fun k => PgDir.pte_refs_le user d k f

theorem held_entries_le (different : v ≠ v') (user : v < userPages) (user' : v' < userPages) :
    held (x.pte v).refs f + held (x.pte v').refs f ≤ held (x.refs d) f := by
  have pair : ∀ k, (x.pte v).refs k f + (x.pte v').refs k f ≤ x.refs d k f := by
    intro k
    have sum := FiniteSums.pair_le_sum (fun v => (x.pte v).refs k f) different (Finset.mem_range.mpr user)
      (Finset.mem_range.mpr user')
    unfold PgDir.refs
    omega
  have reader := pair .reader
  have writer := pair .writer
  have owner := pair .owner
  unfold held
  omega

theorem held_tables_le (different : d ≠ d') (bound : d < frames) (bound' : d' < frames)
    (at_d : p.dirs d = some x) (at_d' : p.dirs d' = some x') :
    held (x.refs d) f + held (x'.refs d') f ≤ held p.refs f := by
  have pair : ∀ k, x.refs d k f + x'.refs d' k f ≤ p.refs k f := by
    intro k
    have sum := FiniteSums.pair_le_sum (fun d => dirRefs d (p.dirs d) k f) different (Finset.mem_range.mpr bound)
      (Finset.mem_range.mpr bound')
    have own : dirRefs d (p.dirs d) k f = x.refs d k f := by rw [at_d, dirRefs]
    have other : dirRefs d' (p.dirs d') k f = x'.refs d' k f := by rw [at_d', dirRefs]
    unfold Proc.refs
    omega
  have reader := pair .reader
  have writer := pair .writer
  have owner := pair .owner
  unfold held
  omega

theorem held_refs_le_account (g : Gh) : held p.refs f ≤ held (account p g).tally f :=
  held_le_of_le fun k => by simp only [account]; omega

end

end Entries

variable {S : Setting ι} {s : Shared} {env : ι → Proc × Gh} {count : Nat → ℕ} {mark : Nat → Mark}

theorem Setting.Inv.writer_alone (inv : S.Inv s env count mark) {t u : ι} {d d' v v' : Nat} {x x' : PgDir}
    (at_d : (env t).1.dirs d = some x) (at_d' : (env u).1.dirs d' = some x') (user : v < userPages)
    (user' : v' < userPages) (present : (x.pte v).p = true) (present' : (x'.pte v').p = true)
    (writable : (x.pte v).w = true) (same : (x'.pte v').addr = (x.pte v).addr) : u = t ∧ d' = d ∧ v' = v := by
  have bound := (inv.tidy t).bound d (by simp [at_d])
  have bound' := (inv.tidy u).bound d' (by simp [at_d'])
  have writes : 0 < (account (env t).1 (env t).2).tally .writer (x.pte v).addr :=
    tally_of_pte bound at_d user present (by simp [writable])
  have only := inv.books.alone t _ (.inl writes)
  have one := held_entry present
  have one' := held_entry present'
  rw [same] at one'
  by_cases process : t = u
  · subst process
    have mine := held_le_total (fun u => account (env u).1 (env u).2) t (x.pte v).addr
    have refs := held_refs_le_account (p := (env t).1) (f := (x.pte v).addr) (env t).2
    by_cases table : d = d'
    · subst table
      rw [at_d] at at_d'
      cases at_d'
      by_cases page : v = v'
      · exact ⟨rfl, rfl, page.symm⟩
      · have entries := held_entries_le (x := x) (d := d) (f := (x.pte v).addr) page user user'
        have tables := held_le_of_le (f := (x.pte v).addr) fun k => Proc.dir_refs_le bound at_d k (x.pte v).addr
        omega
    · have entry := held_entry_le (x := x) (d := d) (f := (x.pte v).addr) user
      have entry' := held_entry_le (x := x') (d := d') (f := (x.pte v).addr) user'
      have tables := held_tables_le (f := (x.pte v).addr) table bound bound' at_d at_d'
      omega
  · have mine : 0 < held (account (env t).1 (env t).2).tally (x.pte v).addr := held_of_pte bound at_d user present
    have other : 0 < held (account (env u).1 (env u).2).tally (x'.pte v').addr :=
      held_of_pte bound' at_d' user' present'
    have none := other_held_zero process mine only
    rw [same] at other
    omega

omit [DecidableEq ι] in
theorem Setting.Inv.mapped_not_free (inv : S.Inv s env count mark) {t : ι} {d v : Nat} {x : PgDir}
    (at_d : (env t).1.dirs d = some x) (user : v < userPages) (present : (x.pte v).p = true) :
    (x.pte v).addr ∉ s.kmem.freelist :=
  inv.books.not_free (held_of_pte ((inv.tidy t).bound d (by simp [at_d])) at_d user present)

/-- Whatever step a process takes, the bytes that another reads through its entries stay the same. -/
theorem Run.bytes_kept {permits : Cmd → Shared → Prop} {c : Clients ι} (run : Run permits c) {t : ι} {command : Cmd}
    {next : sig.Resp command → Vm Unit} (current : c.left t = .call command next)
    {u : ι} (other : u ≠ t) {d v : Nat} {e : Pte} (mapped : Mapped c.own u d v e) :
    (c.issue (execute .cow) t command next).shared.ram e.addr = c.shared.ram e.addr := by
  obtain ⟨gh, ⟨count, mark, inv⟩, outlines⟩ := run.sound
  obtain ⟨user, present, x, at_d, rfl⟩ := mapped
  have holds : Held (c.own u, gh u) (x.pte v).addr :=
    held_of_pte ((inv.tidy u).bound d (by simp [at_d])) at_d user present
  have before := inv.seen_of_held rfl holds
  have atomic := outlines t
  rw [current, Discipline.outline_call] at atomic
  obtain ⟨gh', ⟨count', mark', inv'⟩, _⟩ := atomic c.shared t _ rfl ⟨count, mark, inv⟩ (fun _ => .inl trivial)
  have after := inv'.seen_of_held (update_of_ne other _ _) holds
  rw [before] at after
  exact (congrArg Prod.fst after).symm

/-- No writable user entry shares its frame, no mapped frame is on the free list, no step of one process
    changes bytes that another has mapped, and a user write changes what no other entry at all shows. -/
structure Isolated (c : Clients ι) : Prop where
  sole : ∀ t d v e, Mapped c.own t d v e → e.w = true →
    ∀ u d' v' e', Mapped c.own u d' v' e' → e'.addr = e.addr → u = t ∧ d' = d ∧ v' = v
  in_use : ∀ t d v e, Mapped c.own t d v e → e.addr ∉ c.shared.kmem.freelist
  step : ∀ t command next, c.left t = .call command next → ∀ u, u ≠ t → ∀ d v e, Mapped c.own u d v e →
    (c.issue (execute .cow) t command next).shared.ram e.addr = c.shared.ram e.addr
  write : ∀ t d va byte written s' p', (c.own t).dirs d ≠ none → pageOf va < userPages →
    Program.run (execute .cow) (userWrite d va byte) (c.shared, c.own t) = (.ok written, (s', p')) →
    ∀ u d' v' e', Mapped c.own u d' v' e' → (u, d', v') ≠ (t, d, pageOf va) →
      s'.ram e'.addr = c.shared.ram e'.addr

theorem Run.sole {permits : Cmd → Shared → Prop} {c : Clients ι} (run : Run permits c) {t u : ι} {d d' v v' : Nat}
    {e e' : Pte} (mapped : Mapped c.own t d v e) (writable : e.w = true) (mapped' : Mapped c.own u d' v' e')
    (same : e'.addr = e.addr) : u = t ∧ d' = d ∧ v' = v := by
  obtain ⟨gh, ⟨count, mark, inv⟩, _⟩ := run.sound
  obtain ⟨user, present, x, at_d, rfl⟩ := mapped
  obtain ⟨user', present', x', at_d', rfl⟩ := mapped'
  exact inv.writer_alone at_d at_d' user user' present present' writable same

end Xv6
