import Xv6.Library.Splitting

namespace Xv6.Ulib

/-- A string ends at its NUL or behind the list, where a buffer has one. -/
def strchr (c : UInt8) : List UInt8 → Option Nat
  | [] => none
  | s :: rest => if s = 0 then none else if s = c then some 0 else (strchr c rest).map (· + 1)

/-- What `read` returns when it is asked for some bytes of those that are left. -/
abbrev Fd := Nat → List UInt8 → Int

/-- A file gives all it is asked for up to its end. -/
def file : Fd := fun n rest => min n rest.length

/-- A `read` ends at what it is asked for and at the end, and gives a byte when there is one, unless it fails. -/
structure Fd.Reads (fd : Fd) : Prop where
  bound : ∀ n rest, fd n rest ≤ min n rest.length
  progress : ∀ n rest, n ≠ 0 → rest ≠ [] → fd n rest ≠ 0

theorem file_reads : file.Reads := by
  constructor
  · intro n rest
    simp only [file]
    omega
  · intro n rest asked left none
    have length := List.length_pos_iff.mpr left
    simp only [file] at none
    omega

variable {c : UInt8} {x : List UInt8}

theorem strchr_none (absent : c ∉ x) : strchr c x = none := by
  induction x with
  | nil => rfl
  | cons s rest ih =>
    rw [List.mem_cons, not_or] at absent
    rw [strchr, if_neg (Ne.symm absent.1), ih absent.2]
    split <;> rfl

theorem strchr_append (noNul : 0 ∉ x) (absent : c ∉ x) (nonzero : c ≠ 0) (y : List UInt8) :
    strchr c (x ++ c :: y) = some x.length := by
  induction x with
  | nil =>
    rw [List.nil_append, strchr, if_neg nonzero, if_pos rfl]
    rfl
  | cons s rest ih =>
    rw [List.mem_cons, not_or] at noNul absent
    rw [List.cons_append, strchr, if_neg (Ne.symm noNul.1), if_neg (Ne.symm absent.1), ih noNul.2 absent.2]
    rfl

theorem strchr_isSome (noNul : 0 ∉ x) : (strchr c x).isSome = true ↔ c ∈ x := by
  induction x with
  | nil =>
    constructor
    · intro some
      cases some
    · intro member
      cases member
  | cons s rest ih =>
    rw [List.mem_cons, not_or] at noNul
    rw [strchr, if_neg (Ne.symm noNul.1)]
    by_cases here : s = c
    · rw [if_pos here, here]
      exact ⟨fun _ => List.mem_cons_self, fun _ => rfl⟩
    · rw [if_neg here, Option.isSome_map, ih noNul.2, List.mem_cons, or_iff_right (Ne.symm here)]

end Xv6.Ulib
