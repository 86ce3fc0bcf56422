import Mathlib.Logic.Function.Basic
import Mathlib.Tactic.Common
import Xv6.Memory.Layout

namespace Xv6

open Function

/-- A page table entry: the page number it points at and the flags P, W and U. -/
structure Pte where
  addr : Nat
  p : Bool
  w : Bool
  u : Bool
  deriving DecidableEq

def Pte.zero : Pte := ⟨0, false, false, false⟩

structure Perm where
  w : Bool
  u : Bool

/-- `pa | perm | PTE_P` -/
def Pte.make (pa : Nat) (perm : Perm) : Pte := ⟨pa, true, perm.w, perm.u⟩

/-- A page of page table entries, with the number of the page it lies in. -/
structure PgTab where
  frame : Nat
  pte : Nat → Pte

/-- A page directory. A directory entry that is present leads to its page table. -/
structure PgDir where
  tab : Nat → Option PgTab

namespace PgDir

def empty : PgDir := ⟨fun _ => none⟩

/-- The page number in directory entry `i`, if the entry is present. -/
def pde (x : PgDir) (i : Nat) : Option Nat := (x.tab i).map PgTab.frame

/-- The entry for page `v`; zero where there is no page table. -/
def pte (x : PgDir) (v : Nat) : Pte :=
  match x.tab (v / npdEntries) with
  | none => .zero
  | some t => t.pte (v % npdEntries)

def setPte (x : PgDir) (v : Nat) (e : Pte) : PgDir :=
  match x.tab (v / npdEntries) with
  | none => x
  | some t => ⟨update x.tab (v / npdEntries) (some { t with pte := update t.pte (v % npdEntries) e })⟩

/-- Directory entry `i` gets a page table full of zeros. -/
def setPde (x : PgDir) (i pa : Nat) : PgDir := ⟨update x.tab i (some ⟨pa, fun _ => .zero⟩)⟩

/-- The page table for page `v` exists. -/
def Has (x : PgDir) (v : Nat) : Prop := x.pde (v / npdEntries) ≠ none

instance (x : PgDir) (v : Nat) : Decidable (x.Has v) := inferInstanceAs (Decidable (¬ _))

theorem pte_of_absent {x : PgDir} {v : Nat} (absent : x.pde (v / npdEntries) = none) : x.pte v = .zero := by
  simp only [pde, Option.map_eq_none_iff] at absent
  simp [pte, absent]

theorem has_of_present {x : PgDir} {v : Nat} (present : (x.pte v).p = true) : x.Has v := by
  intro absent
  rw [pte_of_absent absent] at present
  exact absurd present (by decide)

theorem pde_setPte (x : PgDir) (v : Nat) (e : Pte) : (x.setPte v e).pde = x.pde := by
  funext i
  unfold setPte
  cases tab : x.tab (v / npdEntries) with
  | none => rfl
  | some t =>
    by_cases same : i = v / npdEntries
    · subst same
      simp [pde, tab]
    · simp [pde, same]

theorem pte_setPte {x : PgDir} {v : Nat} (has : x.Has v) (e : Pte) :
    (x.setPte v e).pte = update x.pte v e := by
  funext v'
  unfold setPte
  cases tab : x.tab (v / npdEntries) with
  | none => exact absurd (by simp [pde, tab]) has
  | some t =>
    by_cases same : v' = v
    · subst same
      simp [pte]
    · by_cases table : v' / npdEntries = v / npdEntries
      · have index : v' % npdEntries ≠ v % npdEntries := by
          intro index
          exact same (by rw [← Nat.div_add_mod v' npdEntries, table, index, Nat.div_add_mod])
        simp [pte, table, index, same, tab]
      · simp [pte, table, same]

theorem setPte_self (x : PgDir) (v : Nat) : x.setPte v (x.pte v) = x := by
  cases x with
  | mk tab =>
    unfold setPte pte
    cases found : tab (v / npdEntries) with
    | none => simp [found]
    | some t => simp [found]

theorem pde_setPde (x : PgDir) (i pa : Nat) : (x.setPde i pa).pde = update x.pde i (some pa) := by
  funext j
  by_cases same : j = i
  · subst same
    simp [pde, setPde]
  · simp [pde, setPde, same]

theorem pte_setPde {x : PgDir} {i : Nat} (absent : x.pde i = none) (pa : Nat) : (x.setPde i pa).pte = x.pte := by
  simp only [pde, Option.map_eq_none_iff] at absent
  funext v
  by_cases same : v / npdEntries = i
  · simp [pte, setPde, same, absent]
  · simp [pte, setPde, same]

@[simp] theorem pde_empty (i : Nat) : empty.pde i = none := rfl

@[simp] theorem pte_empty (v : Nat) : empty.pte v = .zero := rfl

end PgDir

end Xv6
