import Xv6.Library.LedgerMoves
import Xv6.Library.Threads
import Xv6.Memory.Process

namespace Xv6

open CommandProgram Function Ledger

/-- What is noted beside the bytes of a frame: the page it is mapped at and whose it is. -/
structure Mark where
  page : Nat
  family : Bool

/-- What an operation under way has beside the tables of its process: references that are in no table,
    frames it knows itself alone on, and what it expects in the frames it refers to. -/
structure Gh where
  tok : Tally Nat
  claim : Nat → Prop
  seen : Nat → Page × Mark

def Pte.refs (e : Pte) : Tally Nat :=
  if e.p then unit (if e.w then .writer else .reader) e.addr else fun _ _ => 0

def pdeRefs : Option Nat → Tally Nat
  | none => fun _ _ => 0
  | some pa => unit .owner pa

/-- A page table owns the page of its directory and its page table pages. -/
def PgDir.refs (d : Nat) (x : PgDir) : Tally Nat := fun k f =>
  unit .owner d k f + ∑ i ∈ Finset.range npdEntries, pdeRefs (x.pde i) k f +
    ∑ v ∈ Finset.range userPages, (x.pte v).refs k f

def dirRefs (d : Nat) : Option PgDir → Tally Nat
  | none => fun _ _ => 0
  | some x => x.refs d

def Proc.refs (p : Proc) : Tally Nat := fun k f =>
  ∑ d ∈ Finset.range frames, dirRefs d (p.dirs d) k f + if k = .owner then p.kpages.count f else 0

def account (p : Proc) (g : Gh) : Account Nat (Page × Mark) where
  tally := fun k f => p.refs k f + g.tok k f
  claim := g.claim
  seen := g.seen

/-- The process holds a reference on `f`. -/
def Held (a : Proc × Gh) (f : Nat) : Prop := 0 < held (account a.1 a.2).tally f

section Refs

theorem Pte.refs_zero {e : Pte} (absent : e.p = false) (k : Kind) (f : Nat) : e.refs k f = 0 := by
  simp [Pte.refs, absent]

theorem Pte.refs_present {e : Pte} (present : e.p = true) :
    e.refs = unit (if e.w then .writer else .reader) e.addr := by
  simp [Pte.refs, present]

theorem Pte.refs_make (pa : Nat) (perm : Perm) :
    (Pte.make pa perm).refs = unit (if perm.w then .writer else .reader) pa := Pte.refs_present rfl

/-- Entries that refer to the same things are present together and lead to one frame. -/
theorem Pte.of_refs_eq {e e' : Pte} (equal : e.refs = e'.refs) (present : e.p = true) :
    e'.p = true ∧ e.addr = e'.addr := by
  have here := congrFun (congrFun equal (if e.w then .writer else .reader)) e.addr
  rw [Pte.refs_present present] at here
  cases present' : e'.p
  · rw [Pte.refs_zero present'] at here
    simp [unit] at here
  · rw [Pte.refs_present present'] at here
    refine ⟨rfl, ?_⟩
    by_contra other
    simp [unit, other] at here

theorem PgDir.refs_setPte {x : PgDir} {v : Nat} (has : x.Has v) (user : v < userPages) (d : Nat) (e : Pte)
    (k : Kind) (f : Nat) :
    (x.setPte v e).refs d k f + (x.pte v).refs k f = x.refs d k f + e.refs k f := by
  have exchange := FiniteSums.sum_exchange (Finset.range userPages) x.pte (fun _ e => e.refs k f)
    (Finset.mem_range.mpr user) e
  unfold PgDir.refs
  rw [pde_setPte, pte_setPte has]
  omega

theorem PgDir.refs_setPte_kernel {x : PgDir} {v : Nat} (has : x.Has v) (kernel : userPages ≤ v) (d : Nat)
    (e : Pte) : (x.setPte v e).refs d = x.refs d := by
  funext k f
  have outside := FiniteSums.sum_exchange_outside (Finset.range userPages) x.pte (fun _ e => e.refs k f)
    (i := v) (by simpa using kernel) e
  unfold PgDir.refs
  rw [pde_setPte, pte_setPte has]
  omega

theorem PgDir.refs_setPde {x : PgDir} {i : Nat} (absent : x.pde i = none) (entry : i < npdEntries) (d pa : Nat)
    (k : Kind) (f : Nat) : (x.setPde i pa).refs d k f = x.refs d k f + unit .owner pa k f := by
  have exchange := FiniteSums.sum_exchange (Finset.range npdEntries) x.pde (fun _ e => pdeRefs e k f)
    (Finset.mem_range.mpr entry) (some pa)
  unfold PgDir.refs
  rw [pde_setPde, pte_setPde absent]
  simp only [absent, pdeRefs] at exchange ⊢
  omega

theorem PgDir.refs_empty (d : Nat) : PgDir.empty.refs d = unit .owner d := by
  funext k f
  simp [PgDir.refs, pdeRefs, Pte.refs, Pte.zero]

theorem Proc.refs_update (p : Proc) {d : Nat} (bound : d < frames) (o : Option PgDir) (k : Kind) (f : Nat) :
    ({ p with dirs := update p.dirs d o } : Proc).refs k f + dirRefs d (p.dirs d) k f =
      p.refs k f + dirRefs d o k f := by
  have exchange := FiniteSums.sum_exchange (Finset.range frames) p.dirs (fun d o => dirRefs d o k f)
    (Finset.mem_range.mpr bound) o
  unfold Proc.refs
  dsimp only at exchange ⊢
  omega

theorem Proc.refs_setDir {p : Proc} {d : Nat} {x : PgDir} (bound : d < frames) (at_d : p.dirs d = some x)
    (x' : PgDir) (k : Kind) (f : Nat) :
    (p.setDir d x').refs k f + x.refs d k f = p.refs k f + x'.refs d k f := by
  have exchange := p.refs_update bound (some x') k f
  rw [at_d] at exchange
  exact exchange

theorem Proc.dir_of {p : Proc} {d : Nat} {x : PgDir} (at_d : p.dirs d = some x) : p.dir d = x := by
  simp [Proc.dir, at_d]

theorem PgDir.pte_refs_le {x : PgDir} {v : Nat} (user : v < userPages) (d : Nat) (k : Kind) (f : Nat) :
    (x.pte v).refs k f ≤ x.refs d k f := by
  have term := FiniteSums.term_le_sum (fun v => (x.pte v).refs k f) (Finset.mem_range.mpr user)
  unfold PgDir.refs
  omega

theorem Proc.dir_refs_le {p : Proc} {d : Nat} {x : PgDir} (bound : d < frames) (at_d : p.dirs d = some x)
    (k : Kind) (f : Nat) : x.refs d k f ≤ p.refs k f := by
  have term := FiniteSums.term_le_sum (fun d => dirRefs d (p.dirs d) k f) (Finset.mem_range.mpr bound)
  have own : dirRefs d (p.dirs d) k f = x.refs d k f := by rw [at_d, dirRefs]
  unfold Proc.refs
  omega

theorem Proc.refs_books (p : Proc) (f : Nat) : p.refs .uncounted f = 0 ∧ p.refs .dropped f = 0 := by
  have entry : ∀ (e : Pte) (k : Kind), k = .uncounted ∨ k = .dropped → e.refs k f = 0 := by
    rintro ⟨addr, p, w, u⟩ k (rfl | rfl) <;> cases p <;> cases w <;> simp [Pte.refs, unit]
  have table : ∀ (o : Option Nat) (k : Kind), k = .uncounted ∨ k = .dropped → pdeRefs o k f = 0 := by
    rintro (_ | _) k (rfl | rfl) <;> simp [pdeRefs, unit]
  have dir : ∀ (d : Nat) (o : Option PgDir) (k : Kind), k = .uncounted ∨ k = .dropped → dirRefs d o k f = 0 := by
    rintro d (_ | x) k kind
    · rfl
    · simp only [dirRefs, PgDir.refs, entry _ k kind, table _ k kind, Finset.sum_const_zero, Nat.add_zero]
      rcases kind with rfl | rfl <;> simp [unit]
  constructor
  · simp [Proc.refs, dir]
  · simp [Proc.refs, dir]

theorem held_of_tally {p : Proc} {g : Gh} {k : Kind} {f : Nat} (kind : k = .reader ∨ k = .writer ∨ k = .owner)
    (some : 0 < (account p g).tally k f) : Held (p, g) f := by
  show 0 < held (account p g).tally f
  unfold held
  rcases kind with rfl | rfl | rfl <;> omega

theorem tally_of_pte {p : Proc} {g : Gh} {d v : Nat} {x : PgDir} {k : Kind} (bound : d < frames)
    (at_d : p.dirs d = some x) (user : v < userPages) (present : (x.pte v).p = true)
    (kind : k = if (x.pte v).w then .writer else .reader) : 0 < (account p g).tally k (x.pte v).addr := by
  have entry := PgDir.pte_refs_le (x := x) user d k (x.pte v).addr
  have dir := Proc.dir_refs_le bound at_d k (x.pte v).addr
  simp only [Pte.refs_present present, kind, unit, and_self, if_true] at entry dir
  simp only [account, kind]
  omega

theorem held_of_pte {p : Proc} {g : Gh} {d v : Nat} {x : PgDir} (bound : d < frames) (at_d : p.dirs d = some x)
    (user : v < userPages) (present : (x.pte v).p = true) : Held (p, g) (x.pte v).addr :=
  held_of_tally (k := if (x.pte v).w then .writer else .reader) (by cases (x.pte v).w <;> simp)
    (tally_of_pte bound at_d user present rfl)

end Refs

/-- What does not change while an operation only adds: everything held stays held, with its bytes. -/
structure Grows (a b : Proc × Gh) : Prop where
  claim : ∀ f, b.2.claim f → a.2.claim f
  held : ∀ f, Held a f → Held b f ∧ (b.2.seen f).1 = (a.2.seen f).1

theorem Grows.refl (a : Proc × Gh) : Grows a a := ⟨fun _ claim => claim, fun _ holds => ⟨holds, rfl⟩⟩

theorem Grows.trans {a b c : Proc × Gh} (first : Grows a b) (second : Grows b c) : Grows a c where
  claim f claim := first.claim f (second.claim f claim)
  held f holds := by
    obtain ⟨middle, same⟩ := first.held f holds
    obtain ⟨final, same'⟩ := second.held f middle
    exact ⟨final, same'.trans same⟩

theorem Grows.of_held {a b : Proc × Gh} (noclaim : ∀ f, ¬ b.2.claim f)
    (more : ∀ f, Ledger.held (account a.1 a.2).tally f ≤ Ledger.held (account b.1 b.2).tally f)
    (seen : ∀ f, (b.2.seen f).1 = (a.2.seen f).1) : Grows a b :=
  ⟨fun f claim => absurd claim (noclaim f), fun f holds => ⟨lt_of_lt_of_le holds (more f), seen f⟩⟩

theorem Grows.of_tally {a b : Proc × Gh} (noclaim : ∀ f, ¬ b.2.claim f)
    (same : (account b.1 b.2).tally = (account a.1 a.2).tally) (seen : ∀ f, (b.2.seen f).1 = (a.2.seen f).1) :
    Grows a b :=
  Grows.of_held noclaim (fun f => by rw [same]) seen

variable [KernelImage] {ι : Type} [Fintype ι] [DecidableEq ι]

/-- Under which circumstances the kernel runs: which kernel it is, whether `kalloc` may find no page,
    whether the operations may only be called where they do not panic, and which processes are related. -/
structure Setting (ι : Type) where
  kernel : Kernel
  scarce : Prop
  strict : Prop
  family : ι → Bool

/-- The counts of `kmem` are those of the ledger, which leaves `kpgdir` out. -/
def Counted (page_rCount count : Nat → ℕ) : Prop := ∀ f, page_rCount f = count f + kpgdirCount f

namespace Counted

variable {page_rCount count : Nat → ℕ} {f : Nat}

theorem at_available (counted : Counted page_rCount count) (available : Available f) : page_rCount f = count f := by
  rw [counted f, available.count, Nat.add_zero]

omit [KernelImage] in
theorem update (counted : Counted page_rCount count) {n m : ℕ} (same : n = m + kpgdirCount f) :
    Counted (update page_rCount f n) (update count f m) := by
  intro g
  by_cases here : g = f
  · subst here
    rwa [update_self, update_self]
  · rw [update_of_ne here, update_of_ne here, counted g]

theorem update_available (counted : Counted page_rCount count) (available : Available f) (n : ℕ) :
    Counted (Function.update page_rCount f n) (Function.update count f n) :=
  counted.update (by rw [available.count, Nat.add_zero])

end Counted

/-- The counts that the ledger speaks about: those of `kmem` or, in a kernel without, at most one. -/
def Kernel.Agrees (κ : Kernel) (kmem : Kmem) (count : Nat → ℕ) : Prop :=
  match κ with
  | .cow => Counted kmem.page_rCount count ∧ kmem.free_pages = kmem.freelist.length
  | .eager => ∀ f, count f ≤ 1

/-- Page directories lie in physical memory, and a frame is only mapped at the page it is marked with. -/
structure Tidy (family : Bool) (p : Proc) (g : Gh) : Prop where
  bound : ∀ d, p.dirs d ≠ none → d < frames
  mark : ∀ d x v, p.dirs d = some x → v < userPages → (x.pte v).p = true →
    (g.seen (x.pte v).addr).2 = ⟨v, family⟩

namespace Setting

variable (S : Setting ι)

structure Inv (s : Shared) (env : ι → Proc × Gh) (count : Nat → ℕ) (mark : Nat → Mark) : Prop where
  agrees : S.kernel.Agrees s.kmem count
  books : Balanced Available ⟨s.kmem.freelist, count, fun f => (s.ram f, mark f)⟩
    (fun t => account (env t).1 (env t).2)
  tidy : ∀ t, Tidy (S.family t) (env t).1 (env t).2

def discipline : Discipline sig Halt Shared Proc Gh ι where
  exec := execute S.kernel
  inv s env := ∃ count mark, S.Inv s env count mark
  permits command s := command = .kalloc → S.scarce ∨ s.kmem.freelist ≠ []
  stops error := ¬ S.strict ∧ error ≠ .endless

abbrev Outline {α : Type} (program : Vm α) (lo : Proc) (gh : Gh) (post : α → Proc → Gh → Prop) : Prop :=
  S.discipline.Outline program lo gh post

end Setting

omit [KernelImage] [Fintype ι] in
theorem accounts_update (env : ι → Proc × Gh) (t : ι) (b : Proc × Gh) :
    (fun u => account (update env t b u).1 (update env t b u).2) =
      update (fun u => account (env u).1 (env u).2) t (account b.1 b.2) := by
  funext u
  by_cases same : u = t
  · subst same
    simp
  · simp [same]

omit [KernelImage] [Fintype ι] in
theorem tidy_update {S : Setting ι} {env : ι → Proc × Gh} {t : ι} {b : Proc × Gh}
    (others : ∀ u, Tidy (S.family u) (env u).1 (env u).2) (own : Tidy (S.family t) b.1 b.2) (u : ι) :
    Tidy (S.family u) (update env t b u).1 (update env t b u).2 := by
  by_cases same : u = t
  · subst same
    simpa using own
  · simpa [same] using others u

end Xv6
