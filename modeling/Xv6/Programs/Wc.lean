import Xv6.Programs.Ulib
import Xv6.Terminal.Format

namespace Xv6.Wc

open Splitting Terminal Ulib

/-- `l`, `w`, `c` and `inword` -/
structure Counts where
  l : Word
  w : Word
  c : Word
  inword : Bool
  deriving DecidableEq

def separators : List UInt8 := [32, 13, 9, 10, 11]

def Counts.count (s : Counts) (b : UInt8) : Counts :=
  let s := { s with c := s.c + 1 }
  let s := if b = 10 then { s with l := s.l + 1 } else s
  if (strchr b separators).isSome then { s with inword := false }
  else if !s.inword then { s with w := s.w + 1, inword := true }
  else s

/-- The loop of `wc`; `buf` has 512 bytes. Each pass reads a byte. There are no counts after an error. -/
def wcloop (fd : Fd) : Nat → Counts → List UInt8 → Option Counts
  | 0, s, _ => some s
  | fuel + 1, s, rest =>
    let n := fd 512 rest
    if n > 0 then wcloop fd fuel ((rest.take n.toNat).foldl Counts.count s) (rest.drop n.toNat)
    else if n < 0 then none
    else some s

/-- The three counts and the address of `name` are behind the format. -/
def stack (s : Counts) (name : List UInt8) : Stack where
  word
    | 0 => s.l
    | 1 => s.w
    | 2 => s.c
    | _ => 1
  string _ := name

/-- What `wc` prints; it returns when there is no error. -/
def wc (fd : Fd) (text name : List UInt8) : List UInt8 × Bool :=
  match wcloop fd (text.length + 1) ⟨0, 0, 0, false⟩ text with
  | none => (ascii "wc: read error\n", false)
  | some s => ((stack s name).printf (ascii "%d %d %d %s\n") false 0, true)

/-- The loop of `main`. -/
def wcfiles (opened : List UInt8 → Option (Fd × List UInt8)) : List (List UInt8) → List UInt8
  | [] => []
  | name :: files =>
    match opened name with
    | none => ascii "wc: cannot open " ++ name ++ [10]
    | some (fd, text) =>
      let (out, returns) := wc fd text name
      if returns then out ++ wcfiles opened files else out

/-- What `main` writes to file 1. -/
def main (opened : List UInt8 → Option (Fd × List UInt8)) (stdin : Fd × List UInt8) :
    List (List UInt8) → List UInt8
  | [] => (wc stdin.1 stdin.2 []).1
  | [_] => (wc stdin.1 stdin.2 []).1
  | _ :: files => wcfiles opened files

def isSpace (b : UInt8) : Bool := b ∈ separators

/-- An `int` that has counted to `n`. -/
def counted (n : Nat) : List UInt8 := decimal User.digits (BitVec.ofNat 32 n).toInt

/-- The reads come to `rest`. -/
inductive Reaches (fd : Fd) (text : List UInt8) : List UInt8 → Prop
  | start : Reaches fd text text
  | read {rest : List UInt8} : Reaches fd text rest → 0 < fd 512 rest → Reaches fd text (rest.drop (fd 512 rest).toNat)

/-- One of the reads of `text` is an error. -/
def Fails (fd : Fd) (text : List UInt8) : Prop := ∃ rest, Reaches fd text rest ∧ fd 512 rest < 0

noncomputable instance (fd : Fd) (text : List UInt8) : Decidable (Fails fd text) := Classical.propDecidable _

/-- The newlines, the longest runs without white space, the bytes. -/
def report (text name : List UInt8) : List UInt8 :=
  counted (text.count 10) ++ ascii " " ++ counted (pieces isSpace text).length ++ ascii " " ++ counted text.length ++
    ascii " " ++ name ++ [10]

/-- What `main` is to print: up to the first file that cannot be opened or read. -/
noncomputable def reports (opened : List UInt8 → Option (Fd × List UInt8)) : List (List UInt8) → List UInt8
  | [] => []
  | name :: files =>
    match opened name with
    | none => ascii "wc: cannot open " ++ name ++ [10]
    | some (fd, text) => if Fails fd text then ascii "wc: read error\n" else report text name ++ reports opened files

variable {fd : Fd} {text rest name : List UInt8} {s : Counts} {fuel : Nat} {b : UInt8}

theorem isSpace_iff : (strchr b separators).isSome = isSpace b := by
  rw [Bool.eq_iff_iff, strchr_isSome (by decide), isSpace, decide_eq_true_iff]

/-- How many words begin, when one has begun before or not. -/
def begins : Bool → List UInt8 → Nat
  | _, [] => 0
  | inword, b :: text => if isSpace b then begins false text else (if inword then 0 else 1) + begins true text

theorem begins_pieces (text : List UInt8) : begins false text = (pieces isSpace text).length ∧
    begins true text = (pieces isSpace (text.dropWhile fun b => !isSpace b)).length := by
  induction text with
  | nil =>
    rw [List.dropWhile_nil, pieces_nil]
    exact ⟨rfl, rfl⟩
  | cons b text ih =>
    by_cases space : isSpace b = true
    · rw [begins, if_pos space, begins, if_pos space, List.dropWhile_cons_of_neg (by simp [space]), pieces_cons_pos space]
      exact ⟨ih.1, ih.1⟩
    · have word : isSpace b = false := Bool.eq_false_iff.mpr space
      rw [begins, if_neg space, begins, if_neg space, List.dropWhile_cons_of_pos (by simp [word]),
        pieces_step (fun a head => by cases head; exact word) (List.cons_ne_nil _ _), List.length_cons,
        pieces_dropWhile, List.dropWhile_cons_of_pos (by simp [word]), ih.2]
      exact ⟨Nat.add_comm _ _, Nat.zero_add _⟩

theorem count_eq (s : Counts) (b : UInt8) : s.count b =
    ⟨s.l + BitVec.ofNat 32 (if b == 10 then 1 else 0), s.w + BitVec.ofNat 32 (if isSpace b || s.inword then 0 else 1), s.c + 1,
      !isSpace b⟩ := by
  rcases s with ⟨l, w, c, inword⟩
  cases space : isSpace b
  · by_cases newline : b = 10
    · rw [newline] at space
      cases space
    · cases inword
      · simp [Counts.count, isSpace_iff, space, newline]
      · simp [Counts.count, isSpace_iff, space, newline]
  · by_cases newline : b = 10
    · simp [Counts.count, isSpace_iff, ← newline, space]
    · simp [Counts.count, isSpace_iff, space, newline]

theorem foldl_count (s : Counts) (text : List UInt8) :
    (text.foldl Counts.count s).l = s.l + BitVec.ofNat 32 (text.count 10) ∧
      (text.foldl Counts.count s).w = s.w + BitVec.ofNat 32 (begins s.inword text) ∧
      (text.foldl Counts.count s).c = s.c + BitVec.ofNat 32 text.length := by
  induction text generalizing s with
  | nil => exact ⟨(BitVec.add_zero _).symm, (BitVec.add_zero _).symm, (BitVec.add_zero _).symm⟩
  | cons b text ih =>
    rcases ih (s.count b) with ⟨l, w, c⟩
    rw [List.foldl_cons, l, w, c, List.length_cons, List.count_cons, begins, count_eq]
    refine ⟨?_, ?_, ?_⟩
    · rw [BitVec.add_assoc, ← BitVec.ofNat_add, Nat.add_comm]
    · rw [BitVec.add_assoc, ← BitVec.ofNat_add]
      cases space : isSpace b
      · simp
      · simp
    · rw [BitVec.add_assoc, Nat.add_comm text.length, BitVec.ofNat_add]
      rfl

theorem Reaches.trans {last : List UInt8} (reaches : Reaches fd text rest) (goes_on : Reaches fd rest last) :
    Reaches fd text last := by
  induction goes_on with
  | start => exact reaches
  | read _ some ih => exact .read ih some

theorem fails_iff (fd : Fd) (text : List UInt8) :
    Fails fd text ↔ fd 512 text < 0 ∨ 0 < fd 512 text ∧ Fails fd (text.drop (fd 512 text).toNat) := by
  constructor
  · rintro ⟨rest, reaches, error⟩
    have first : rest = text ∨ 0 < fd 512 text ∧ Reaches fd (text.drop (fd 512 text).toNat) rest := by
      clear error
      induction reaches with
      | start => exact Or.inl rfl
      | read _ some ih =>
        rcases ih with rfl | ⟨before, later⟩
        · exact Or.inr ⟨some, .start⟩
        · exact Or.inr ⟨before, .read later some⟩
    rcases first with rfl | ⟨some, later⟩
    · exact Or.inl error
    · exact Or.inr ⟨some, rest, later, error⟩
  · rintro (error | ⟨some, rest, later, error⟩)
    · exact ⟨text, .start, error⟩
    · exact ⟨rest, (Reaches.read .start some).trans later, error⟩

theorem wcloop_foldl (reads : fd.Reads) (enough : text.length < fuel) :
    wcloop fd fuel s text = if Fails fd text then none else some (text.foldl Counts.count s) := by
  induction fuel generalizing s text with
  | zero => exact absurd enough (Nat.not_lt_zero _)
  | succ fuel ih =>
    have bound := reads.bound 512 text
    rw [wcloop]
    rcases lt_trichotomy (fd 512 text) 0 with error | ended | given
    · rw [if_neg (by omega), if_pos error, if_pos ((fails_iff fd text).mpr (Or.inl error))]
    · have nothing : text = [] := by
        by_contra left
        exact reads.progress 512 text (by decide) left ended
      have served : ¬Fails fd text := by
        intro fails
        rcases (fails_iff fd text).mp fails with error | ⟨some, -⟩
        · omega
        · omega
      rw [if_neg (by omega), if_neg (by omega), if_neg served, nothing, List.foldl_nil]
    · have fewer : (text.drop (fd 512 text).toNat).length < fuel := by
        rw [List.length_drop]
        omega
      have same : Fails fd (text.drop (fd 512 text).toNat) ↔ Fails fd text := by
        rw [fails_iff fd text, or_iff_right (by omega), and_iff_right given]
      rw [if_pos given, ih fewer, ← List.foldl_append, List.take_append_drop]
      exact if_congr same rfl rfl

def formatPieces : List Piece :=
  [.decimal, .text 32, .decimal, .text 32, .decimal, .text 32, .string, .text 10]

theorem wc_reports (reads : fd.Reads) (text name : List UInt8) :
    wc fd text name = if Fails fd text then (ascii "wc: read error\n", false) else (report text name, true) := by
  rcases foldl_count ⟨0, 0, 0, false⟩ text with ⟨l, w, c⟩
  have fmt : ascii "%d %d %d %s\n" = formats formatPieces ++ ending false := by decide
  have proper : ∀ piece ∈ formatPieces, piece.Proper User.known := by decide
  have zero : ∀ n, (0 : Word) + BitVec.ofNat 32 n = BitVec.ofNat 32 n := fun n => BitVec.zero_add _
  rw [wc, wcloop_foldl reads (Nat.lt_succ_self _)]
  by_cases fails : Fails fd text
  · rw [if_pos fails, if_pos fails]
  rw [if_neg fails, if_neg fails]
  dsimp only
  rw [fmt, printf_pieces proper]
  simp only [zero, (begins_pieces text).1] at l w c
  simp only [formatPieces, renders, Piece.render, Piece.takes, stack, Stack.text, l, w, c, report, counted]
  have space : ascii " " = [32] := by decide
  have present : (1 : Word) ≠ 0 := by decide
  simp only [space, if_neg present, List.append_assoc, List.append_nil]

theorem wcfiles_reports {opened : List UInt8 → Option (Fd × List UInt8)} {files : List (List UInt8)}
    (sources : ∀ name ∈ files, ∀ fd text, opened name = some (fd, text) → fd.Reads) :
    wcfiles opened files = reports opened files := by
  induction files with
  | nil => rfl
  | cons name files ih =>
    cases found : opened name with
    | none => rw [wcfiles, reports, found]
    | some source =>
      obtain ⟨fd, text⟩ := source
      have reads := sources name List.mem_cons_self fd text found
      have later := ih fun other member => sources other (List.mem_cons_of_mem _ member)
      rw [wcfiles, reports, found]
      dsimp only
      rw [wc_reports reads]
      by_cases fails : Fails fd text
      · rw [if_pos fails, if_pos fails]
        rfl
      · rw [if_neg fails, if_neg fails, later]
        rfl

/-- `wc` prints the numbers of newlines, of words and of bytes, however the reads cut the text, unless one fails. -/
theorem main_reports (opened : List UInt8 → Option (Fd × List UInt8)) (stdin : Fd × List UInt8)
    (program : List UInt8) (files : List (List UInt8)) (typed : stdin.1.Reads)
    (sources : ∀ name ∈ files, ∀ fd text, opened name = some (fd, text) → fd.Reads) :
    main opened stdin (program :: files) =
      if files = [] then if Fails stdin.1 stdin.2 then ascii "wc: read error\n" else report stdin.2 []
      else reports opened files := by
  cases files with
  | nil =>
    rw [main, wc_reports typed, if_pos rfl]
    split <;> rfl
  | cons name files => exact wcfiles_reports sources

def slow : Fd := fun n rest => min 3 (min n rest.length)

/-- The first bytes are read, then there is an error. -/
def broken : Fd := fun n rest => if rest.length < 8 then -1 else min 3 (min n rest.length)

def twoFiles (name : List UInt8) : Option (Fd × List UInt8) :=
  if name = ascii "f" then some (slow, ascii "one two\n three\n")
  else if name = ascii "g" then some (broken, ascii "four five\n")
  else none

theorem slow_reads : slow.Reads ∧ ∀ text, ¬Fails slow text := by
  refine ⟨⟨?_, ?_⟩, ?_⟩
  · intro n rest
    simp only [slow]
    omega
  · intro n rest asked left none
    have length := List.length_pos_iff.mpr left
    simp only [slow] at none
    omega
  · rintro text ⟨rest, -, error⟩
    simp only [slow] at error
    omega

theorem broken_reads : broken.Reads ∧ Fails broken (ascii "four five\n") := by
  refine ⟨⟨?_, ?_⟩, _, .read .start (by decide), by decide⟩
  · intro n rest
    simp only [broken]
    split
    · omega
    · omega
  · intro n rest asked left none
    have length := List.length_pos_iff.mpr left
    simp only [broken] at none
    split at none
    · cases none
    · omega

theorem main_reports_two_lines :
    main twoFiles (file, []) [ascii "wc", ascii "f", ascii "g", ascii "h"] = ascii "2 3 15 f\nwc: read error\n" := by
  have sources : ∀ name ∈ [ascii "f", ascii "g", ascii "h"], ∀ fd text, twoFiles name = some (fd, text) → fd.Reads := by
    intro name member fd text found
    simp only [twoFiles] at found
    split at found
    · cases found
      exact slow_reads.1
    · split at found
      · cases found
        exact broken_reads.1
      · cases found
  rw [main_reports twoFiles (file, []) (ascii "wc") _ file_reads sources, if_neg (List.cons_ne_nil _ _)]
  have first : twoFiles (ascii "f") = some (slow, ascii "one two\n three\n") := rfl
  have second : twoFiles (ascii "g") = some (broken, ascii "four five\n") := rfl
  rw [reports, first]
  dsimp only
  rw [if_neg (slow_reads.2 _), reports, second]
  dsimp only
  rw [if_pos broken_reads.2]
  decide

end Xv6.Wc
