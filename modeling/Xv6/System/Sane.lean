import Xv6.Books.Calm
import Xv6.Books.Processes
import Xv6.System.Machine

namespace Xv6

open CommandProgram Function Ledger

section States

variable [KernelImage] {ι : Type} [Fintype ι] [DecidableEq ι]

/-- A slot of the process table in use: one page table, whose kernel half is the one that `setupkvm`
    installed, and one kernel stack. -/
structure Occupied (p : Proc) (x : PgDir) : Prop where
  dirs : p.dirs = update (fun _ => none) p.pgdir (some x)
  kpages : p.kpages = [p.kstack]
  size : p.sz ≤ kernBase
  kernel : ∀ v, userPages ≤ v → x.pte v = kmapPte v

structure Vacant (p : Proc) : Prop where
  dirs : p.dirs = fun _ => none
  kpages : p.kpages = []

theorem Occupied.at_pgdir {p : Proc} {x : PgDir} (occupied : Occupied p x) : p.dirs p.pgdir = some x := by
  rw [occupied.dirs, update_self]

theorem Occupied.dir {p : Proc} {x : PgDir} (occupied : Occupied p x) : p.dir p.pgdir = x :=
  Proc.dir_of occupied.at_pgdir

/-- What holds between two actions: the books are balanced and every slot has what its state says. -/
structure Sane (S : Setting ι) (c : System ι) : Prop where
  calm : ∃ mark, S.Calm c.shared c.proc mark
  occupied : ∀ t, c.state t ≠ .unused → ∃ x, Occupied (c.proc t) x
  vacant : ∀ t, c.state t = .unused → Vacant (c.proc t)
  alive : ∀ t, c.state t = .live → (c.proc t).killed = false

omit [Fintype ι] in
/-- An action is an operation of the kernel whose result becomes the outcome. -/
theorem act_iff {κ : Kernel} {c c' : System ι} {a : Action ι} {answer : Answer} {α : Type} {operation : Vm α}
    {outcome : α → Outcome} (program : a.program κ c = operation >>= fun value => pure (outcome value)) :
    c.act κ a = .ok (answer, c') ↔ ∃ value s p,
      Program.run (execute κ) operation (c.shared, c.proc a.subject) = (.ok value, (s, p)) ∧
        answer = (outcome value).answer ∧ c' = c.settle a (outcome value) s p := by
  have run : Program.run (execute κ) (operation >>= fun value => Program.ret (outcome value))
    (c.shared, c.proc a.subject) = _ := Program.run_map operation outcome (c.shared, c.proc a.subject)
  unfold System.act
  rw [program]
  simp only [Program.pure_eq]
  rw [run]
  rcases Program.run (execute κ) operation (c.shared, c.proc a.subject) with ⟨value | value, s, p⟩
  · simp [Except.map]
  · simp only [Except.map, Except.ok.injEq, Prod.mk.injEq]
    constructor
    · rintro ⟨rfl, rfl⟩
      exact ⟨value, s, p, ⟨rfl, rfl, rfl⟩, rfl, rfl⟩
    · rintro ⟨_, _, _, ⟨rfl, rfl, rfl⟩, rfl, rfl⟩
      exact ⟨rfl, rfl⟩

variable {S : Setting ι}

omit [DecidableEq ι] in
theorem Sane.transfer {S' : Setting ι} {c : System ι} (sane : Sane S c) (kernel : S'.kernel = S.kernel)
    (family : S'.family = S.family) : Sane S' c where
  calm := by
    obtain ⟨mark, calm⟩ := sane.calm
    exact ⟨mark, calm.transfer kernel family⟩
  occupied := sane.occupied
  vacant := sane.vacant
  alive := sane.alive

section Boot

variable {s : Shared} {p : Proc} {ram : Nat → Page} {init : List UInt8} {kstack : Nat} {t : ι}

/-- The machine once `userinit` has made the first process. -/
@[reducible] def System.first (s : Shared) (p : Proc) (kstack : Nat) (t : ι) : System ι where
  shared := s
  proc := update (fun _ => .unused) t { p with kstack := kstack }
  state := update (fun _ => .unused) t .live
  parent := fun _ => none
  initproc := t

theorem userinit_stock (ram : Nat → Page) (κ : Kernel) : 50000 + 3 + npdEntries ≤ (booted κ ram).kmem.freelist.length := by
  have length := length_bootPages
  rw [(booted_booted κ ram).freelist]
  unfold npdEntries
  omega

theorem first_sane (plenty : ¬ S.scarce) (short : S.strict → init.length < pgSize)
    (done : Program.run (execute S.kernel) (userinit init) (booted S.kernel ram, .unused) = (.ok kstack, (s, p))) :
    Sane S (System.first s p kstack t) ∧ ∃ x, Occupied { p with kstack := kstack } x ∧
      FirstImage init x (.calm s fun _ => ⟨0, false⟩) := by
  have calm := Setting.calm_boot S (booted_booted S.kernel ram)
  have make : S.Outline (userinit init) .unused (.calm (booted S.kernel ram) fun _ => ⟨0, false⟩) _ :=
    userinit_outline plenty (fun _ => rfl) short
  have stocked : Program.Along (execute S.kernel) Stocked _ (userinit init) (_, Proc.unused) :=
    supply_userinit (userinit_stock ram S.kernel)
  obtain ⟨gh', mark', ⟨tok, noclaim, d, x, _, image, own⟩, change⟩ := calm.change (t := t) make
    (stocked.weaken fun command state stock same => .inr (stock same)) (fun _ _ _ post => ⟨post.1, post.2.1⟩) done
  obtain ⟨count, inv⟩ := change.calm
  have tidy := inv.tidy t
  rw [update_self] at tidy
  have at_d : p.dirs d = some x := by simp [own]
  have bound : d < frames := tidy.bound d (by simp [at_d])
  have holds := held_of_pte (g := gh') bound at_d (by decide) image.present
  have occupied : Occupied { p with kstack := kstack } x := by
    constructor
    case dirs => simp [own, Proc.unused, Proc.setDir]
    case kpages => simp [own, Proc.unused, Proc.setDir]
    case size =>
      have size : p.sz = pgSize := by rw [own]
      show p.sz ≤ kernBase
      rw [size]
      decide
    case kernel =>
      intro v kernel
      exact image.rest v (by rw [userPages_eq] at kernel; omega)
  refine ⟨⟨⟨mark', change.calm.fields fun u => ?_⟩, fun u used => ?_, fun u unused => ?_, fun u live => ?_⟩, x, occupied, ?_⟩
  · by_cases first : u = t
    · subst first
      simp
    · simp [first]
  · by_cases first : u = t
    · subst first
      exact ⟨x, by simpa using occupied⟩
    · simp [first] at used
  · by_cases first : u = t
    · subst first
      simp at unused
    · simp only [update_of_ne first]
      exact ⟨rfl, rfl⟩
  · by_cases first : u = t
    · subst first
      simp [own, Proc.unused, Proc.setDir]
    · simp [first] at live
  · refine ⟨image.present, image.writable, image.unprivileged, ?_, image.rest⟩
    have page := image.page
    rw [change.seen _ holds] at page
    exact page

end Boot

end States

/-- What a process finds at a page of its own: the bytes, and whether user code may touch them. -/
structure Cell where
  page : Page
  user : Bool

/-- The user half of an address space as its process sees it. -/
def PgDir.memory (x : PgDir) (s : Shared) (v : Nat) : Option Cell :=
  if v < userPages ∧ (x.pte v).p = true then some ⟨s.ram (x.pte v).addr, (x.pte v).u⟩ else none

def Proc.table (p : Proc) : PgDir := p.dir p.pgdir

namespace System

variable {ι : Type}

def table (c : System ι) (t : ι) : PgDir := (c.proc t).table

def memory (c : System ι) (t : ι) : Nat → Option Cell := (c.table t).memory c.shared

/-- A page of the process whose frame another process maps as well. -/
def SharesPage (c : System ι) (t : ι) (v : Nat) : Prop :=
  v < userPages ∧ ((c.table t).pte v).p = true ∧ ∃ u, u ≠ t ∧ ∃ v' < userPages, ((c.table u).pte v').p = true ∧
    ((c.table u).pte v').addr = ((c.table t).pte v).addr

end System

variable [KernelImage] {ι : Type} [Fintype ι] [DecidableEq ι]
variable {S : Setting ι} {s s' : Shared} {own : ι → Proc} {mark mark' : Nat → Mark} {p p' : Proc} {gh' : Gh} {t u : ι}
variable {x : PgDir}

theorem Occupied.table (occupied : Occupied p x) : p.table = x := occupied.dir

omit [KernelImage] in
theorem memory_eq {x' : PgDir} (presence : ∀ v, v < userPages → (x'.pte v).p = (x.pte v).p)
    (same : ∀ v, v < userPages → (x.pte v).p = true →
      (x'.pte v).u = (x.pte v).u ∧ s'.ram (x'.pte v).addr = s.ram (x.pte v).addr) :
    x'.memory s' = x.memory s := by
  funext v
  unfold PgDir.memory
  by_cases mapped : v < userPages ∧ (x.pte v).p = true
  · obtain ⟨privilege, page⟩ := same v mapped.1 mapped.2
    rw [if_pos mapped, if_pos ⟨mapped.1, (presence v mapped.1).trans mapped.2⟩, privilege, page]
  · rw [if_neg mapped, if_neg fun both => mapped ⟨both.1, (presence v both.1).symm.trans both.2⟩]

section

omit [DecidableEq ι]

theorem Setting.Calm.bound (calm : S.Calm s own mark) {d : Nat} (at_d : (own t).dirs d = some x) : d < frames := by
  obtain ⟨count, inv⟩ := calm
  exact (inv.tidy t).bound d (by simp [at_d])

theorem Setting.Calm.held (calm : S.Calm s own mark) {d v : Nat} (at_d : (own t).dirs d = some x) (user : v < userPages)
    (present : (x.pte v).p = true) (g : Gh) : Held (own t, g) (x.pte v).addr :=
  held_of_pte (calm.bound at_d) at_d user present

theorem Setting.Calm.owns_dir (calm : S.Calm s own mark) {d : Nat} (at_d : (own t).dirs d = some x) :
    0 < (own t).refs .owner d ∧ Managed d := by
  have dir := Proc.dir_refs_le (calm.bound at_d) at_d .owner d
  have one : 1 ≤ x.refs d .owner d := by
    simp only [PgDir.refs, unit, and_self, if_true]
    omega
  have owned : 0 < (own t).refs .owner d := by omega
  obtain ⟨count, inv⟩ := calm
  refine ⟨owned, inv.managed_of_held (t := t) rfl (held_of_tally (k := .owner) (.inr (.inr rfl)) ?_)⟩
  rwa [account_calm]

end

/-- What one process does when it runs alone changes the memory of no other. -/
theorem Setting.Change.memory_others (change : S.Change s own mark t s' p' gh' mark') (calm : S.Calm s own mark)
    (other : u ≠ t) {d : Nat} (at_d : (own u).dirs d = some x) : x.memory s' = x.memory s := by
  apply memory_eq (fun _ _ => rfl)
  intro v user present
  exact ⟨rfl, (change.others u other _ (calm.held at_d user present _)).1⟩

/-- The pages of the process itself are those that its operation left in its expectations. -/
theorem Setting.Change.page (change : S.Change s own mark t s' p' gh' mark') {d v : Nat} (at_d : p'.dirs d = some x)
    (user : v < userPages) (present : (x.pte v).p = true) : s'.ram (x.pte v).addr = (gh'.seen (x.pte v).addr).1 := by
  have at_t : (update own t p' t).dirs d = some x := by rw [update_self, at_d]
  have holds := change.calm.held at_t user present gh'
  rw [update_self] at holds
  rw [change.seen _ holds]

end Xv6
