import Xv6.Programs.Malloc
import Xv6.Library.Transition

namespace Xv6.Umalloc

open Function Links Transition

variable {program : Program} {s s' : State} {e : Event} {l : List Nat}

def block (x : Nat × Nat) : Nat := x.1 - 8

/-- `l` is the free list: a ring in the order of addresses, with a gap behind each block. Free and live blocks share no
unit, live ones are as large as asked for, and no unit is lost. -/
structure Proper (program : Program) (s : State) (l : List Nat) : Prop where
  first : l ≠ [] → l.head? = some program.base
  ring : l ≠ [] → s.heap.freep ∈ l ∧ Segment s.heap.ptr program.base l program.base
  unused : l = [] → s.heap.freep = 0 ∧ s.live = []
  order : l.Pairwise fun a b => a + 8 * s.heap.size a < b
  separate : ∀ a ∈ l, ∀ x ∈ s.live, Apart s.heap.size a (block x)
  apart : (s.live.map block).Pairwise (Apart s.heap.size)
  enough : ∀ x ∈ s.live, x.2 ≤ 8 * (s.heap.size (block x) - 1)
  sum : program.brk + 8 * ((l.map s.heap.size).sum + ((s.live.map block).map s.heap.size).sum) = s.heap.brk

structure Inv (program : Program) (s : State) (l : List Nat) : Prop where
  holds : Holds program.base program.brk s.heap l (s.live.map block)
  enough : ∀ x ∈ s.live, x.2 ≤ 8 * (s.heap.size (block x) - 1)

def Fresh (program : Program) (s : State) : Prop := s.heap.freep = 0 ∧ s.heap.brk = program.brk ∧ s.live = []

/-- Up to this request the units, as bytes, are a positive amount for `sbrk`. -/
def largest : Nat := 2 ^ 31 - 16

theorem nunits_spec {n : Nat} (small : n ≤ largest) :
    0 < Heap.nunits n ∧ Heap.nunits n < 2 ^ 28 ∧ n ≤ 8 * (Heap.nunits n - 1) := by
  unfold largest at small
  have rounded : (n + 7) % 2 ^ 32 = n + 7 := Nat.mod_eq_of_lt (by omega)
  unfold Heap.nunits
  rw [rounded]
  omega

namespace Inv

theorem freep_pos (inv : Inv program s l) : s.heap.freep ≠ 0 := by
  have := program.data
  have := inv.holds.base_le inv.holds.freep
  omega

theorem proper (inv : Inv program s l) : Proper program s l where
  first _ := inv.holds.first
  ring _ := ⟨inv.holds.freep, inv.holds.ring⟩
  unused none := by
    have member := inv.holds.base_mem
    rw [none] at member
    cases member
  order := inv.holds.order
  separate a member x member' := inv.holds.separate a member (block x) (List.mem_map_of_mem member')
  apart := inv.holds.apart
  enough := inv.enough
  sum := inv.holds.sum

theorem live_above (inv : Inv program s l) {x : Nat × Nat} (member : x ∈ s.live) : x.1 = block x + 8 := by
  have := (inv.holds.kept (block x) (List.mem_map_of_mem member)).1
  have := program.above
  unfold block at *
  omega

theorem free (inv : Inv program s l) {ap : Nat} (live : ∃ x ∈ s.live, x.1 = ap) :
    ∃ h', s.heap.free ap = some h' ∧ ∃ l', Inv program ⟨h', s.live.eraseP fun x => x.1 = ap⟩ l' := by
  obtain ⟨y, member, same⟩ := live
  obtain ⟨x, l₁, l₂, _, found, eq, erased⟩ := List.exists_of_eraseP (p := fun x => decide (x.1 = ap)) member (decide_eq_true same)
  have found : x.1 = ap := of_decide_eq_true found
  have place := inv.live_above (x := x) (by rw [eq]; simp)
  have moved : (s.live.map block).Perm (block x :: (l₁ ++ l₂).map block) := by
    rw [eq, ← List.map_cons]
    exact List.perm_middle.map block
  obtain ⟨h', l', ran, holds', _, same, _⟩ := (inv.holds.perm moved).free_holds
  refine ⟨h', ?_, l', ?_⟩
  · rw [← found, place]
    exact ran
  · rw [erased]
    refine ⟨holds', ?_⟩
    intro y member
    show y.2 ≤ 8 * (h'.size (block y) - 1)
    rw [same (block y) (List.mem_map_of_mem member)]
    apply inv.enough y
    rw [eq]
    simp only [List.mem_append, List.mem_cons] at member ⊢
    tauto

theorem store (inv : Inv program s l) {p : Nat} {v : Header} (allowed : (Event.store p v).Allowed s) :
    Inv program { s with heap := { s.heap with mem := update s.heap.mem p v } } l := by
  obtain ⟨x, member, low, inside, i, offset⟩ := allowed
  obtain rfl : p = x.1 + 8 * i := by omega
  have member' : block x ∈ s.live.map block := List.mem_map_of_mem member
  have place := inv.live_above member
  have kept := inv.holds.kept (block x) member'
  have enough := inv.enough x member
  have free : ∀ a ∈ l, a ≠ x.1 + 8 * i := by
    intro a member
    have apart := inv.holds.separate a member (block x) member'
    unfold Apart at apart
    have := inv.holds.bound member
    omega
  have other : ∀ a ∈ s.live.map block, a ≠ x.1 + 8 * i := by
    intro a member
    by_cases here : a = block x
    · omega
    · have apart := inv.holds.apart.forall member member' here
      have inside := inv.holds.kept a member
      unfold Apart at apart
      omega
  have same : ∀ a, a ≠ x.1 + 8 * i → update s.heap.mem (x.1 + 8 * i) v a = s.heap.mem a := fun a ne => update_of_ne ne ..
  constructor
  · apply inv.holds.frame
    · exact fun a member => congrArg Header.ptr (same a (free a member))
    · rintro a (member | member)
      · exact congrArg Header.size (same a (free a member))
      · exact congrArg Header.size (same a (other a member))
    · exact inv.holds.freep
    · rfl
  · intro y member
    have size : Heap.size { s.heap with mem := update s.heap.mem (x.1 + 8 * i) v } (block y) = s.heap.size (block y) :=
      congrArg Header.size (same (block y) (other (block y) (List.mem_map_of_mem member)))
    show y.2 ≤ 8 * (Heap.size _ (block y) - 1)
    rw [size]
    exact inv.enough y member

end Inv

namespace Fresh

theorem proper (fresh : Fresh program s) : Proper program s [] where
  first nonempty := absurd rfl nonempty
  ring nonempty := absurd rfl nonempty
  unused _ := ⟨fresh.1, fresh.2.2⟩
  order := .nil
  separate _ member := nomatch member
  apart := by
    rw [fresh.2.2]
    exact .nil
  enough := by
    rw [fresh.2.2]
    exact fun _ member => nomatch member
  sum := by
    rw [fresh.2.2]
    exact fresh.2.1.symm

end Fresh

def Settled (program : Program) (s : State) : Prop := Fresh program s ∨ ∃ l, Inv program s l

def Bare (base : Nat) (h : Heap) : Prop := h.freep = 0 ∨ h.ptr base = base

instance (base : Nat) (h : Heap) : Decidable (Bare base h) := inferInstanceAs (Decidable (h.freep = 0 ∨ h.ptr base = base))

structure Ready (program : Program) (s : State) (l : List Nat) : Prop where
  holds : Holds program.base program.brk (s.heap.ready program.base) l (s.live.map block)
  enough : ∀ x ∈ s.live, x.2 ≤ 8 * ((s.heap.ready program.base).size (block x) - 1)
  brk : (s.heap.ready program.base).brk = s.heap.brk
  bare : l = [program.base] ↔ Bare program.base s.heap

/-- How `malloc` ends, if the units are an amount that `sbrk` understands. -/
structure Ended (program : Program) (s : State) (grant : Nat → Bool) (n : Nat) (l : List Nat) (r : Option Nat) (h' : Heap) : Prop where
  ran : s.heap.malloc program.base grant n = some (r, h')
  failed : r = none → ∃ l', Inv program ⟨h', s.live⟩ l'
  gave : n ≤ 8 * (Heap.nunits n - 1) → ∀ ap, r = some ap → ∃ l', Inv program ⟨h', (ap, n) :: s.live⟩ l'
  refused : r = none ↔ (∀ a ∈ l, (s.heap.ready program.base).size a < Heap.nunits n) ∧
    ¬ s.heap.Gives grant (8 * Heap.amount (Heap.nunits n))
  asked : ∀ nu ∈ s.heap.asked program.base grant n, nu = Heap.amount (Heap.nunits n)

theorem Inv.ready (inv : Inv program s l) : Ready program s l := by
  have same : s.heap.ready program.base = s.heap := if_neg inv.freep_pos
  constructor
  · rw [same]
    exact inv.holds
  · rw [same]
    exact inv.enough
  · rw [same]
  · have ring := inv.holds.ring
    constructor
    · intro single
      rw [single] at ring
      exact .inr ring.2
    · rintro (zero | loop)
      · exact absurd zero inv.freep_pos
      · obtain ⟨rest, rfl⟩ := inv.holds.exists_cons
        cases rest with
        | nil => rfl
        | cons x rest =>
          have next : s.heap.ptr program.base = x := ring.2.1
          have order := (List.pairwise_cons.mp inv.holds.order).1 x (List.mem_cons_self ..)
          omega

theorem Fresh.ready (fresh : Fresh program s) : Ready program s [program.base] := by
  obtain ⟨zero, brk, none⟩ := fresh
  have made : s.heap.ready program.base = _ := if_pos zero
  constructor
  · rw [made, none]
    exact .init brk program.above program.user
  · rw [none]
    exact fun _ member => nomatch member
  · rw [made]
  · exact iff_of_true rfl (.inl zero)

namespace Settled

theorem ready (settled : Settled program s) : ∃ l, Ready program s l := by
  rcases settled with fresh | ⟨l, inv⟩
  · exact ⟨_, fresh.ready⟩
  · exact ⟨l, inv.ready⟩

end Settled

theorem Ready.malloc {n : Nat} (ready : Ready program s l) (grant : Nat → Bool) (positive : 0 < Heap.nunits n)
    (bound : Heap.nunits n < 2 ^ 28) : ∃ r h', Ended program s grant n l r h' := by
  obtain ⟨r, h', ran, taken, refused, asked⟩ := ready.holds.mallocLoop grant positive bound
  have kept : ∀ x ∈ s.live, x.2 ≤ 8 * (h'.size (block x) - 1) := by
    intro x member
    rw [taken.size (block x) (List.mem_map_of_mem member)]
    exact ready.enough x member
  refine ⟨r, h', ran, ?_, ?_, ?_, asked⟩
  · intro none
    obtain ⟨l', holds'⟩ := taken.none none
    exact ⟨l', holds', kept⟩
  · intro fits ap some
    obtain ⟨b, l', rfl, holds', size⟩ := taken.some ap some
    refine ⟨l', holds', ?_⟩
    intro x member
    rcases List.mem_cons.mp member with rfl | member
    · show n ≤ 8 * (h'.size b - 1)
      rw [size]
      exact fits
    · exact kept x member
  · rw [refused, Heap.Gives, Heap.Gives, ready.brk]

/-- The requests that `malloc` answers well: up to the largest, or so large that their units are wrapped, if there is nothing
that it could take for them. -/
def Suited (base : Nat) (h : Heap) (grant : Nat → Bool) (nbytes : Nat) : Prop :=
  nbytes ≤ largest ∨ 2 ^ 32 - 7 ≤ nbytes ∧ Bare base h ∧ ¬ h.Gives grant 32768

instance (base : Nat) (h : Heap) (grant : Nat → Bool) (nbytes : Nat) : Decidable (Suited base h grant nbytes) :=
  inferInstanceAs (Decidable (nbytes ≤ largest ∨ 2 ^ 32 - 7 ≤ nbytes ∧ Bare base h ∧ ¬ h.Gives grant 32768))

namespace Event

/-- As `Allowed`, with every request that suits `malloc`. -/
def Permitted (base : Nat) (s : State) : Event → Prop
  | malloc nbytes grant => nbytes < 2 ^ 32 ∧ Suited base s.heap grant nbytes
  | free ap => (free ap).Allowed s
  | store p v => (store p v).Allowed s

theorem Allowed.permitted (allowed : e.Allowed s) : e.Permitted program.base s := by
  cases e with
  | malloc nbytes grant =>
    have small : nbytes < 2 ^ 28 := allowed
    refine ⟨by omega, .inl ?_⟩
    unfold largest
    omega
  | free ap => exact allowed
  | store p v => exact allowed

end Event

theorem nunits_wrapped {n : Nat} (word : n < 2 ^ 32) (large : 2 ^ 32 - 7 ≤ n) : Heap.nunits n = 1 := by
  unfold Heap.nunits
  omega

theorem Ready.bare_iff (ready : Ready program s l) :
    (∀ a ∈ l, (s.heap.ready program.base).size a < 1) ↔ Bare program.base s.heap := by
  rw [← ready.bare]
  constructor
  · intro none
    obtain ⟨rest, rfl⟩ := ready.holds.exists_cons
    cases rest with
    | nil => rfl
    | cons x rest =>
      have member : x ∈ program.base :: x :: rest := by simp
      have order := (List.pairwise_cons.mp ready.holds.order).1 x (List.mem_cons_self ..)
      have := none x member
      have := ready.holds.free x member (by omega)
      omega
  · rintro rfl a member
    rw [List.mem_singleton.mp member, ready.holds.empty]
    exact Nat.zero_lt_one

/-- Every step the program may take comes to its end, in a state of the same kind. -/
theorem step_ends (settled : Settled program s) (permitted : e.Permitted program.base s) :
    ∃ s', e.run program.base s = some s' ∧ Settled program s' := by
  cases e with
  | malloc nbytes grant =>
    obtain ⟨word, suited⟩ := permitted
    obtain ⟨l, ready⟩ := settled.ready
    rcases suited with small | ⟨large, bare, refused⟩
    · obtain ⟨positive, bound, fits⟩ := nunits_spec small
      obtain ⟨r, h', ended⟩ := ready.malloc grant positive bound
      simp only [Event.run, ended.ran]
      cases r with
      | none => exact ⟨_, rfl, .inr (ended.failed rfl)⟩
      | some ap => exact ⟨_, rfl, .inr (ended.gave fits ap rfl)⟩
    · have one := nunits_wrapped word large
      obtain ⟨r, h', ended⟩ := ready.malloc (n := nbytes) grant (by omega) (by omega)
      have none : r = none := by
        rw [ended.refused, one]
        exact ⟨ready.bare_iff.mpr bare, refused⟩
      subst none
      simp only [Event.run, ended.ran]
      exact ⟨_, rfl, .inr (ended.failed rfl)⟩
  | free ap =>
    rcases settled with ⟨_, _, none⟩ | ⟨l, inv⟩
    · obtain ⟨_, member, _⟩ := permitted
      rw [none] at member
      cases member
    · obtain ⟨h', ran, l', inv'⟩ := inv.free permitted
      refine ⟨_, ?_, .inr ⟨l', inv'⟩⟩
      simp only [Event.run, ran]
      rfl
  | store p v =>
    refine ⟨_, rfl, ?_⟩
    rcases settled with ⟨_, _, none⟩ | ⟨l, inv⟩
    · obtain ⟨x, member, _⟩ := permitted
      rw [none] at member
      cases member
    · exact .inr ⟨l, inv.store permitted⟩

/-- For every run of a program: the free list is proper, and every call comes to its end. -/
theorem user_heap_proper {mem : Nat → Header} {past : List (State × Event)}
    (path : Path (Event.step program.base) (start program mem) past s) :
    (∃ l, Proper program s l) ∧ ∀ e : Event, e.Allowed s → ∃ s', e.run program.base s = some s' := by
  have inv := path.always (I := Settled program) (.inl ⟨rfl, rfl, rfl⟩) (by
    intro s e s' inv taken
    obtain ⟨allowed, ran⟩ := Option.ite_none_right_eq_some.mp taken
    obtain ⟨t, ran', inv'⟩ := step_ends inv allowed.permitted
    rw [ran] at ran'
    cases ran'
    exact inv')
  constructor
  · rcases inv with fresh | ⟨l, inv⟩
    · exact ⟨[], fresh.proper⟩
    · exact ⟨l, inv.proper⟩
  · intro e allowed
    obtain ⟨s', ran, _⟩ := step_ends inv allowed.permitted
    exact ⟨s', ran⟩

/-- Blocks of two requests come from one piece, the first is written and freed, and then the second. -/
theorem user_heap_proper_of_two : ∃ program past s, Path (Event.step (Program.base program)) (start program fun _ => ⟨0, 0⟩) past s ∧
    s.live = [] ∧ s.heap.size 65536 = 4096 ∧ ∃ l, Proper program s l := by
  let program : Program := ⟨4096, 65536, by decide, by decide, by decide⟩
  obtain ⟨past, s, path, test⟩ := replay_reaches (Event.next 4096) (start program fun _ => ⟨0, 0⟩)
    [.malloc 10 fun _ => true, .malloc 100 fun _ => true, .store 98288 ⟨7, 7⟩, .free 98288, .malloc 40000 fun _ => false, .free 98176]
    (fun _ s => s.live.isEmpty && s.heap.size 65536 = 4096) (by decide +kernel)
  have path : Path (Event.step program.base) (start program fun _ => ⟨0, 0⟩) past s := path
  rw [Bool.and_eq_true, decide_eq_true_eq] at test
  exact ⟨program, past, s, path, List.isEmpty_iff.mp test.1, test.2, (user_heap_proper path).1⟩

end Xv6.Umalloc
