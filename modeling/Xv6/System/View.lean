import Xv6.System.Sane

namespace Xv6

open Function

/-- The user half of an address space, page by page. -/
abbrev Cells := Nat → Option Cell

namespace Cells

def Whole (m : Cells) (sz : Nat) : Prop := ∀ v, (m v).isSome = true ↔ v < pgRoundUp sz

def Below (m : Cells) (sz : Nat) : Prop := ∀ v, (m v).isSome = true → v < pgRoundUp sz

/-- The memory with one byte written, if there is a page for it. -/
def written (m : Cells) (va : Nat) (byte : UInt8) : Cells :=
  update m (pageOf va) ((m (pageOf va)).map fun cell => { cell with page := cell.page.store (va % pgSize) [byte] })

/-- The pages from `low` up to `high` are new and zero. -/
def extended (m : Cells) (low high : Nat) : Cells := fun v => if low ≤ v ∧ v < high then some ⟨fun _ => 0, true⟩ else m v

/-- The pages from `low` up to `high` are gone. -/
def dropped (m : Cells) (low high : Nat) : Cells := fun v => if low ≤ v ∧ v < high then none else m v

def copied (m : Cells) (sz : Nat) : Cells := fun v => if v < pgRoundUp sz then m v else none

variable {m : Cells} {sz : Nat}

theorem Whole.below (whole : m.Whole sz) : m.Below sz := fun v some => (whole v).mp some

end Cells

/-- What `sbrk` makes of a memory and its size. -/
inductive Regrown (scarce : Prop) (m : Cells) (sz : Nat) (n : Int) : Bool → Cells → Nat → Prop
  | grew (grows : 0 < n ∧ asked sz n < kernBase) :
    Regrown scarce m sz n true (m.extended (pgRoundUp sz) (pgRoundUp (asked sz n))) (asked sz n)
  | failed (grows : 0 < n ∧ asked sz n < kernBase) (none : scarce) : Regrown scarce m sz n false m sz
  | shrank (shrinks : n < 0 ∧ asked sz n < sz) :
    Regrown scarce m sz n (decide (asked sz n ≠ 0)) (m.dropped (pgRoundUp (asked sz n)) (pgRoundUp sz))
      (if asked sz n = 0 then sz else asked sz n)
  | stayed (still : ¬ (0 < n ∧ asked sz n < kernBase)) (stays : ¬ (n < 0 ∧ asked sz n < sz)) :
    Regrown scarce m sz n (decide (n = 0 ∨ n < 0 ∧ sz ≠ 0)) m sz

variable {ι : Type} [DecidableEq ι]

@[ext] structure View (ι : Type) where
  memory : ι → Cells
  size : ι → Nat
  state : ι → SlotState
  parent : ι → Option ι
  initproc : ι

@[reducible] def System.view (c : System ι) : View ι where
  memory := c.memory
  size t := (c.proc t).sz
  state := c.state
  parent := c.parent
  initproc := c.initproc

namespace View

def first (t : ι) (init : List UInt8) : View ι where
  memory := update (fun _ _ => none) t (update (fun _ => none) 0 (some ⟨Page.store (fun _ => 0) 0 init, true⟩))
  size := update (fun _ => 0) t pgSize
  state := update (fun _ => .unused) t .live
  parent := fun _ => none
  initproc := t

def Shown (v : View ι) (t : ι) (va : Nat) : Prop := ∃ page, v.memory t (pageOf va) = some ⟨page, true⟩

def forked (v : View ι) (t u : ι) : View ι :=
  { v with
    memory := update v.memory u ((v.memory t).copied (v.size t))
    size := update v.size u (v.size t)
    state := update v.state u .live
    parent := update v.parent u (some t) }

/-- Process `t` has memory `m` of size `sz`. -/
def changed (v : View ι) (t : ι) (m : Cells) (sz : Nat) : View ι :=
  { v with memory := update v.memory t m, size := update v.size t sz }

def exited (v : View ι) (t : ι) : View ι :=
  { v with
    state := update v.state t .zombie
    parent := fun w => if v.parent w = some t then some v.initproc else v.parent w }

def reaped (v : View ι) (u : ι) : View ι :=
  { v with
    memory := update v.memory u fun _ => none
    state := update v.state u .unused
    parent := update v.parent u none }

end View

/-- What an action does and answers, whatever the kernel does to bring it about. `scarce` says that memory may run out. -/
inductive Effect (scarce : Prop) (v : View ι) : Action ι → Answer → View ι → Prop
  | forked {t u : ι} : Effect scarce v (.fork t u) (.flag true) (v.forked t u)
  | unforked {t u : ι} (none : scarce) : Effect scarce v (.fork t u) (.flag false) v
  | resized {t : ι} {n : Int} {grown : Bool} {m : Cells} {sz : Nat}
    (regrown : Regrown scarce (v.memory t) (v.size t) n grown m sz) :
    Effect scarce v (.sbrk t n) (.flag grown) (v.changed t m sz)
  | read {t : ι} {va : Nat} {page : Page} (shown : v.memory t (pageOf va) = some ⟨page, true⟩) :
    Effect scarce v (.read t va) (.touch (.byte (page (va % pgSize)))) v
  | misread {t : ι} {va : Nat} (hidden : ¬ v.Shown t va) : Effect scarce v (.read t va) (.touch .faults) v
  | readExits {t : ι} {va : Nat} (hidden : ¬ v.Shown t va) : Effect scarce v (.read t va) (.touch .exits) (v.exited t)
  | written {t : ι} {va : Nat} {byte : UInt8} :
    Effect scarce v (.write t va byte) (.touch .written) (v.changed t ((v.memory t).written va byte) (v.size t))
  | miswritten {t : ι} {va : Nat} {byte : UInt8} (hidden : ¬ v.Shown t va) :
    Effect scarce v (.write t va byte) (.touch .faults) v
  | writeExits {t : ι} {va : Nat} {byte : UInt8} (why : scarce ∨ ¬ v.Shown t va) :
    Effect scarce v (.write t va byte) (.touch .exits) (v.exited t)
  | replaced {t : ι} {ip : Option Inode} {argv : List (List UInt8)} {m : Cells} {sz : Nat} (below : m.Below sz)
    (guard : ∃ page, m (pageOf (sz - 2 * pgSize)) = some ⟨page, false⟩) :
    Effect scarce v (.exec t ip argv) (.flag true) (v.changed t m sz)
  | kept {t : ι} {ip : Option Inode} {argv : List (List UInt8)} : Effect scarce v (.exec t ip argv) (.flag false) v
  | exited {t : ι} (other : t ≠ v.initproc) : Effect scarce v (.exit t) .done (v.exited t)
  | reaped {t u : ι} : Effect scarce v (.wait t u) .done (v.reaped u)

end Xv6
