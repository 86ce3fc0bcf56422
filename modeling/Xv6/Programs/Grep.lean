import Xv6.Library.Patterns
import Xv6.Programs.Ulib
import Xv6.Terminal.Format

namespace Xv6.Grep

open Computability Patterns Ulib

def caret : UInt8 := 94
def star : UInt8 := 42
def dollar : UInt8 := 36
def dot : UInt8 := 46
def newline : UInt8 := 10

/-- The loop of `matchstar`, where `here` is `matchhere` with the rest of the pattern. -/
def matchstar (here : List UInt8 → Bool) (c : UInt8) : List UInt8 → Bool
  | [] => here []
  | t :: text => here (t :: text) || ((t == c || c == dot) && matchstar here c text)

/-- The last test of `matchhere`. -/
def matchone (here : List UInt8 → Bool) (c : UInt8) : List UInt8 → Bool
  | [] => false
  | t :: text => (c == dot || c == t) && here text

def matchhere : List UInt8 → List UInt8 → Bool
  | [], _ => true
  | c :: d :: re, text => if d = star then matchstar (matchhere re) c text else matchone (matchhere (d :: re)) c text
  | [c], text => if c = dollar then text.isEmpty else matchone (matchhere []) c text

/-- The loop of `match`. -/
def matchloop (re : List UInt8) : List UInt8 → Bool
  | [] => matchhere re []
  | t :: text => matchhere re (t :: text) || matchloop re text

def «match» : List UInt8 → List UInt8 → Bool
  | [], text => matchloop [] text
  | c :: re, text => if c = caret then matchhere re text else matchloop (c :: re) text

/-- `sizeof(buf) - 1`, the last byte is for a NUL -/
def BUFSIZE : Nat := 1023

/-- The inner loop of `grep`: what it writes, and what is left from `p` on. -/
def greplines (pattern : List UInt8) : Nat → List UInt8 → List UInt8 × List UInt8
  | 0, p => ([], p)
  | n + 1, p =>
    match strchr newline p with
    | none => ([], p)
    | some q =>
      let next := greplines pattern n (p.drop (q + 1))
      ((if «match» pattern (p.take q) then p.take (q + 1) else []) ++ next.1, next.2)

/-- The outer loop of `grep`, with `m` bytes in front of the buffer. Each pass reads a byte. -/
def greploop (pattern : List UInt8) (fd : Fd) : Nat → List UInt8 → List UInt8 → List UInt8
  | 0, _, _ => []
  | fuel + 1, m, rest =>
    let n := fd (BUFSIZE - m.length) rest
    if n ≤ 0 then []
    else
      let buf := m ++ rest.take n.toNat
      let (out, p) := greplines pattern buf.length buf
      out ++ greploop pattern fd fuel (if p.length = buf.length then [] else p) (rest.drop n.toNat)

def grep (pattern : List UInt8) (fd : Fd) (text : List UInt8) : List UInt8 :=
  greploop pattern fd (text.length + 1) [] text

/-- The loop of `main`: what it writes to file 1. -/
def grepfiles (pattern : List UInt8) (opened : List UInt8 → Option (Fd × List UInt8)) :
    List (List UInt8) → List UInt8
  | [] => []
  | name :: files =>
    match opened name with
    | none => ascii "grep: cannot open " ++ name ++ [newline]
    | some (fd, text) => grep pattern fd text ++ grepfiles pattern opened files

/-- What `main` writes to file 1; the usage goes to file 2. -/
def main (opened : List UInt8 → Option (Fd × List UInt8)) (stdin : Fd × List UInt8) :
    List (List UInt8) → List UInt8
  | [] => []
  | [_] => []
  | [_, pattern] => grep pattern stdin.1 stdin.2
  | _ :: pattern :: files => grepfiles pattern opened files

/-- A character of a pattern, `.` among them, with or without the `*` behind it. -/
inductive Piece where
  | one (c : UInt8)
  | star (c : UInt8)
  deriving DecidableEq

/-- A pattern: its pieces, `begins` with `^` in front and `ends` with `$` behind. -/
structure Pattern where
  begins : Bool
  pieces : List Piece
  ends : Bool
  deriving DecidableEq

/-- The pieces, and whether a `$` ends them. A `*` that comes first is a character, a `$` elsewhere as well. -/
def parsepieces : List UInt8 → List Piece × Bool
  | [] => ([], false)
  | c :: d :: re =>
    if d = star then (.star c :: (parsepieces re).1, (parsepieces re).2)
    else (.one c :: (parsepieces (d :: re)).1, (parsepieces (d :: re)).2)
  | [c] => if c = dollar then ([], true) else ([.one c], false)

def parse : List UInt8 → Pattern
  | [] => ⟨false, [], false⟩
  | c :: re =>
    if c = caret then ⟨true, (parsepieces re).1, (parsepieces re).2⟩
    else ⟨false, (parsepieces (c :: re)).1, (parsepieces (c :: re)).2⟩

def accepts (c t : UInt8) : Prop := c = dot ∨ c = t

def Piece.language : Piece → Language UInt8
  | one c => letter (accepts c)
  | star c => (letter (accepts c))∗

/-- An anchor leaves no text outside the pattern on its side. -/
def outside (anchored : Bool) : Language UInt8 := if anchored then 1 else anything

/-- The pieces one behind the other, up to the end of the text or not. -/
def after (pieces : List Piece) (ends : Bool) : Language UInt8 := (pieces.map Piece.language).prod * outside ends

def Pattern.language (pattern : Pattern) : Language UInt8 :=
  outside pattern.begins * after pattern.pieces pattern.ends

variable {c : UInt8} {re text : List UInt8} {pieces : List Piece} {ends : Bool} {M : Language UInt8}
  {here : List UInt8 → Bool}

theorem after_cons (piece : Piece) : after (piece :: pieces) ends = piece.language * after pieces ends := by
  rw [after, List.map_cons, List.prod_cons, mul_assoc]
  rfl

theorem mem_after_nil : text ∈ after [] false := by
  rw [after, List.map_nil, List.prod_nil, one_mul]
  exact mem_anything

theorem mem_after_end : text ∈ after [] true ↔ text = [] := by
  rw [after, List.map_nil, List.prod_nil, one_mul]
  exact Language.mem_one text

theorem matchone_iff (rest : ∀ text, here text = true ↔ text ∈ M) :
    matchone here c text = true ↔ text ∈ letter (accepts c) * M := by
  cases text with
  | nil =>
    constructor
    · intro false
      cases false
    · intro member
      exact absurd member nil_mem_letter_mul
  | cons t text =>
    rw [matchone, Bool.and_eq_true, Bool.or_eq_true, beq_iff_eq, beq_iff_eq, rest, cons_mem_letter_mul]
    rfl

theorem matchstar_iff (rest : ∀ text, here text = true ↔ text ∈ M) :
    matchstar here c text = true ↔ text ∈ (letter (accepts c))∗ * M := by
  induction text with
  | nil => rw [matchstar, rest, nil_mem_star_mul]
  | cons t text ih =>
    have letters : (t == c || c == dot) = true ↔ accepts c t := by
      rw [Bool.or_eq_true, beq_iff_eq, beq_iff_eq, or_comm, eq_comm (a := t)]
      rfl
    rw [matchstar, Bool.or_eq_true, Bool.and_eq_true, rest, letters, ih, cons_mem_star_mul]

theorem matchhere_iff : matchhere re text = true ↔ text ∈ after (parsepieces re).1 (parsepieces re).2 := by
  induction re using parsepieces.induct generalizing text with
  | case1 =>
    constructor
    · intro
      exact mem_after_nil
    · intro
      rfl
  | case2 c re ih =>
    rw [matchhere, if_pos rfl, parsepieces, if_pos rfl, after_cons]
    exact matchstar_iff fun text => ih
  | case3 c d re other ih =>
    rw [matchhere, if_neg other, parsepieces, if_neg other, after_cons]
    exact matchone_iff fun text => ih
  | case4 => rw [matchhere, if_pos rfl, parsepieces, if_pos rfl, mem_after_end, List.isEmpty_iff]
  | case5 c other =>
    rw [matchhere, if_neg other, parsepieces, if_neg other, after_cons]
    apply matchone_iff
    intro text
    constructor
    · intro
      exact mem_after_nil
    · intro
      rfl

theorem matchloop_iff :
    matchloop re text = true ↔ text ∈ anything * after (parsepieces re).1 (parsepieces re).2 := by
  induction text with
  | nil => rw [matchloop, matchhere_iff, nil_mem_anything_mul]
  | cons t text ih => rw [matchloop, Bool.or_eq_true, matchhere_iff, ih, cons_mem_anything_mul]

theorem match_iff (re text : List UInt8) : «match» re text = true ↔ text ∈ (parse re).language := by
  cases re with
  | nil => exact matchloop_iff
  | cons c re =>
    by_cases anchored : c = caret
    · rw [«match», if_pos anchored, parse, if_pos anchored, Pattern.language, outside, if_pos rfl, one_mul]
      exact matchhere_iff
    · rw [«match», if_neg anchored, parse, if_neg anchored]
      exact matchloop_iff

end Xv6.Grep
