import Xv6.Programs.Runs

namespace Xv6.Umalloc

open Function Transition

variable {program : Program} {s s' : State} {e : Event} {l : List Nat} {grant : Nat → Bool} {nbytes : Nat}

namespace Event

/-- A step of a program whose requests suit `malloc`. -/
def proceed (base : Nat) (s : State) (e : Event) (s' : State) : Prop := e.Permitted base s ∧ e.run base s = some s'

theorem step_proceed (taken : e.step program.base s s') : e.proceed program.base s s' := by
  obtain ⟨allowed, ran⟩ := Option.ite_none_right_eq_some.mp taken
  exact ⟨allowed.permitted, ran⟩

end Event

/-- A block behind the program's own memory, all bytes asked for before the end of the heap, none of them in another block. -/
structure Served (program : Program) (s : State) (nbytes ap : Nat) (h' : Heap) : Prop where
  rounds : nbytes + 7 < 2 ^ 32
  above : program.brk < ap
  inside : ap + nbytes ≤ h'.brk
  proper : ∃ l, Proper program ⟨h', (ap, nbytes) :: s.live⟩ l

/-- `malloc` returns nothing or a block of the size asked for, and `sbrk` gets the product itself, as a positive amount. -/
structure Sized (program : Program) (s : State) (grant : Nat → Bool) (nbytes : Nat) : Prop where
  ends : ∃ r h', s.heap.malloc program.base grant nbytes = some (r, h') ∧ ∀ ap, r = some ap → Served program s nbytes ap h'
  asks : ∀ nu ∈ s.heap.asked program.base grant nbytes, nu * 8 < 2 ^ 31

theorem Inv.served {h' : Heap} {ap : Nat} (inv : Inv program ⟨h', (ap, nbytes) :: s.live⟩ l) (rounds : nbytes + 7 < 2 ^ 32) :
    Served program s nbytes ap h' := by
  have place := inv.live_above (x := (ap, nbytes)) (List.mem_cons_self ..)
  have kept := inv.holds.kept (block (ap, nbytes)) (List.mem_map_of_mem (List.mem_cons_self ..))
  have enough := inv.enough (ap, nbytes) (List.mem_cons_self ..)
  dsimp only at place kept enough
  constructor
  · exact rounds
  · omega
  · omega
  · exact ⟨l, inv.proper⟩

theorem amount_lt {nu : Nat} (bound : nu < 2 ^ 28) : Heap.amount nu * 8 < 2 ^ 31 := by
  unfold Heap.amount
  split_ifs <;> omega

theorem sized_of_small (ready : Ready program s l) (grant : Nat → Bool) (small : nbytes ≤ largest) :
    Sized program s grant nbytes := by
  obtain ⟨positive, bound, fits⟩ := nunits_spec small
  obtain ⟨r, h', ended⟩ := ready.malloc grant positive bound
  constructor
  · refine ⟨r, h', ended.ran, fun ap some => ?_⟩
    obtain ⟨l', inv⟩ := ended.gave fits ap some
    apply inv.served
    unfold largest at small
    omega
  · intro nu member
    rw [ended.asked nu member]
    exact amount_lt bound

theorem not_sized_of_large (ready : Ready program s l) (grant : Nat → Bool) (large : largest < nbytes)
    (below : nbytes < 2 ^ 32 - 7) : ¬ Sized program s grant nbytes := by
  intro sized
  have units : 2 ^ 28 ≤ Heap.nunits nbytes := by
    have rounded : (nbytes + 7) % 2 ^ 32 = nbytes + 7 := Nat.mod_eq_of_lt (by omega)
    unfold largest at large
    unfold Heap.nunits
    rw [rounded]
    omega
  have short := sized.asks _ (ready.holds.requests_large grant units)
  have amount : Heap.amount (Heap.nunits nbytes) = Heap.nunits nbytes := if_neg (by omega)
  omega

theorem sized_wrapped (ready : Ready program s l) (grant : Nat → Bool) (word : nbytes < 2 ^ 32) (large : 2 ^ 32 - 7 ≤ nbytes) :
    Sized program s grant nbytes ↔ Bare program.base s.heap ∧ ¬ s.heap.Gives grant 32768 := by
  have one := nunits_wrapped word large
  obtain ⟨r, h', ended⟩ := ready.malloc (n := nbytes) grant (by omega) (by omega)
  have refused := ended.refused
  rw [one, ready.bare_iff] at refused
  constructor
  · intro sized
    obtain ⟨r', h'', ran, served⟩ := sized.ends
    obtain ⟨rfl, rfl⟩ := Prod.mk.inj (Option.some.inj (ran.symm.trans ended.ran))
    apply refused.mp
    cases r' with
    | none => rfl
    | some ap =>
      have rounds := (served ap rfl).rounds
      omega
  · intro nothing
    constructor
    · refine ⟨r, h', ended.ran, fun ap some => ?_⟩
      rw [refused.mpr nothing] at some
      cases some
    · intro nu member
      rw [ended.asked nu member, one]
      decide

/-- In every run whose requests suited `malloc`, the next one gets what it asks for just when it suits it, too. -/
theorem malloc_sized {mem : Nat → Header} {past : List (State × Event)}
    (path : Path (Event.proceed program.base) (start program mem) past s) (grant : Nat → Bool) (word : nbytes < 2 ^ 32) :
    Sized program s grant nbytes ↔ Suited program.base s.heap grant nbytes := by
  have settled : Settled program s := path.always (.inl ⟨rfl, rfl, rfl⟩) (by
    intro s e s' settled taken
    obtain ⟨t, ran, settled'⟩ := step_ends settled taken.1
    rw [taken.2] at ran
    cases ran
    exact settled')
  obtain ⟨l, ready⟩ := settled.ready
  by_cases small : nbytes ≤ largest
  · exact iff_of_true (sized_of_small ready grant small) (.inl small)
  · by_cases wrapped : 2 ^ 32 - 7 ≤ nbytes
    · rw [sized_wrapped ready grant word wrapped, Suited, or_iff_right small, and_iff_right wrapped]
    · apply iff_of_false
      · exact not_sized_of_large ready grant (by omega) (by omega)
      · rintro (small' | wrapped')
        · exact small small'
        · exact wrapped wrapped'.1

/-- The second request gets the end of the block that the first one has left. -/
theorem malloc_sized_of_second : ∃ program past s, Path (Event.proceed (Program.base program)) (start program fun _ => ⟨0, 0⟩) past s ∧
    s.live = [(98288, 10)] ∧ Sized program s (fun _ => false) 100 := by
  let program : Program := ⟨4096, 65536, by decide, by decide, by decide⟩
  obtain ⟨past, s, path, test⟩ := replay_reaches (Event.next 4096) (start program fun _ => ⟨0, 0⟩) [.malloc 10 fun _ => true]
    (fun _ s => s.live = [(98288, 10)]) (by decide +kernel)
  have path : Path (Event.step program.base) (start program fun _ => ⟨0, 0⟩) past s := path
  have path : Path (Event.proceed program.base) (start program fun _ => ⟨0, 0⟩) past s := path.mono Event.step_proceed
  refine ⟨program, past, s, path, of_decide_eq_true test, ?_⟩
  exact (malloc_sized path _ (by decide)).mpr (.inl (by decide))

/-- The largest request gets a block without a byte, and one for half of the address space asks `sbrk` for a negative amount. -/
theorem malloc_too_small : ∃ program : Program,
    (∃ h', (start program fun _ => ⟨0, 0⟩).heap.malloc program.base (fun _ => true) 0xFFFFFFFF = some (some h'.brk, h')) ∧
    ¬ Sized program (start program fun _ => ⟨0, 0⟩) (fun _ => true) 0xFFFFFFFF ∧
    (start program fun _ => ⟨0, 0⟩).heap.asked program.base (fun _ => true) 0x80000000 = [2 ^ 28 + 1] := by
  let program : Program := ⟨4096, 65536, by decide, by decide, by decide⟩
  have ends : ((start program fun _ => ⟨0, 0⟩).heap.malloc program.base (fun _ => true) 0xFFFFFFFF).map
      (fun x => (x.1, x.2.brk)) = some (some 98304, 98304) := by decide +kernel
  obtain ⟨⟨r, h'⟩, ran, same⟩ := Option.map_eq_some_iff.mp ends
  obtain ⟨rfl, brk⟩ := Prod.mk.inj same
  dsimp only at brk ran
  refine ⟨program, ⟨h', by rw [ran, brk]⟩, fun sized => ?_, by decide +kernel⟩
  obtain ⟨r', h'', ran', served⟩ := sized.ends
  obtain ⟨rfl, rfl⟩ := Prod.mk.inj (Option.some.inj (ran'.symm.trans ran))
  have inside := (served 98304 rfl).inside
  omega

end Xv6.Umalloc
