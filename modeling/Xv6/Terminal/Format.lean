import Xv6.Library.Numerals

namespace Xv6

def ascii (text : String) : List UInt8 := text.toList.map fun c => .ofNat c.toNat

namespace Terminal

open Numerals

abbrev Word := BitVec 32

def percent : UInt8 := 37
def minus : UInt8 := 45

/-- `printint` of the kernel and of the user programs, which differ in their digits. -/
def printintWith (digits : List UInt8) (xx : Word) (base : Nat) (sgn : Bool) : List UInt8 :=
  let neg := sgn && xx.msb
  let x := if neg then -xx else xx
  let buf := divideLoop (fun d => digits.getD d 0) base 32 x.toNat ++ if neg then [minus] else []
  buf.reverse

namespace Kernel

def digits : List UInt8 := ascii "0123456789abcdef"

def printint : Word → Nat → Bool → List UInt8 := printintWith digits

end Kernel

namespace User

def digits : List UInt8 := ascii "0123456789ABCDEF"

def printint : Word → Nat → Bool → List UInt8 := printintWith digits

end User

/-- What the two printers read: the words on the stack behind `fmt`, and the string at an address. -/
structure Stack where
  word : Nat → Word
  string : Word → List UInt8

namespace Stack

variable (stack : Stack)

def text (ap : Nat) : List UInt8 :=
  if stack.word ap = 0 then ascii "(null)" else stack.string (stack.word ap)

/-- `ap` counts the words that are taken, `state` is whether a `%` has just been seen. -/
def printf : List UInt8 → Bool → Nat → List UInt8
  | [], _, _ => []
  | c :: fmt, false, ap => if c = percent then printf fmt true ap else c :: printf fmt false ap
  | c :: fmt, true, ap =>
    if c = 100 then User.printint (stack.word ap) 10 true ++ printf fmt false (ap + 1)
    else if c = 120 ∨ c = 112 then User.printint (stack.word ap) 16 false ++ printf fmt false (ap + 1)
    else if c = 115 then stack.text ap ++ printf fmt false (ap + 1)
    else if c = 99 then UInt8.ofNat (stack.word ap).toNat :: printf fmt false (ap + 1)
    else if c = percent then c :: printf fmt false ap
    else percent :: c :: printf fmt false ap

def cprintf : List UInt8 → Nat → List UInt8
  | [], _ => []
  | [c], ap => if c ≠ percent then c :: cprintf [] ap else []
  | c :: d :: fmt, ap =>
    if c ≠ percent then c :: cprintf (d :: fmt) ap
    else if d = 100 then Kernel.printint (stack.word ap) 10 true ++ cprintf fmt (ap + 1)
    else if d = 120 ∨ d = 112 then Kernel.printint (stack.word ap) 16 false ++ cprintf fmt (ap + 1)
    else if d = 115 then stack.text ap ++ cprintf fmt (ap + 1)
    else if d = percent then percent :: cprintf fmt ap
    else percent :: d :: cprintf fmt ap

end Stack

def atoiLoop : List UInt8 → Word → Word
  | [], n => n
  | c :: s, n => if 48 ≤ c ∧ c ≤ 57 then atoiLoop s (n * 10 + BitVec.ofNat 32 c.toNat - 48) else n

def atoi (s : List UInt8) : Word := atoiLoop s 0

def decimal (digits : List UInt8) (z : Int) : List UInt8 :=
  if z < 0 then minus :: numeral (fun d => digits.getD d 0) 10 z.natAbs else numeral (fun d => digits.getD d 0) 10 z.natAbs

def hexadecimal (digits : List UInt8) (n : Nat) : List UInt8 := numeral (fun d => digits.getD d 0) 16 n

variable {digits : List UInt8} {xx : Word} {n : Nat}

theorem natAbs_toInt (negative : xx.msb = true) : (-xx).toNat = xx.toInt.natAbs := by
  have high := BitVec.msb_eq_true_iff_two_mul_ge.mp negative
  have low := xx.isLt
  rw [BitVec.toInt_eq_msb_cond, if_pos negative, BitVec.toNat_neg]
  omega

theorem printint_decimal (digits : List UInt8) (xx : Word) : printintWith digits xx 10 true = decimal digits xx.toInt := by
  have divides : ∀ n, n < 2 ^ 32 → (divideLoop (fun d => digits.getD d 0) 10 32 n).reverse =
      numeral (fun d => digits.getD d 0) 10 n := by
    intro n bound
    apply divideLoop_numeral (by decide) (by decide)
    exact lt_trans bound (by decide)
  cases sign : xx.msb
  · have positive : 0 ≤ xx.toInt := by
      rw [BitVec.toInt_eq_msb_cond, sign]
      exact Int.natCast_nonneg _
    have same : xx.toNat = xx.toInt.natAbs := by
      rw [BitVec.toInt_eq_msb_cond, sign]
      rfl
    simp only [printintWith, sign, Bool.and_false, Bool.false_eq_true, if_false, List.append_nil]
    rw [decimal, if_neg (not_lt.mpr positive), divides _ xx.isLt, same]
  · have negative : xx.toInt < 0 := by
      rw [BitVec.toInt_eq_msb_cond, if_pos sign]
      omega
    simp only [printintWith, sign, Bool.and_true, if_true, List.reverse_append]
    rw [decimal, if_pos negative, divides _ (-xx).isLt, natAbs_toInt sign]
    rfl

theorem printint_hexadecimal (digits : List UInt8) (xx : Word) :
    printintWith digits xx 16 false = hexadecimal digits xx.toNat := by
  simp only [printintWith, Bool.false_and, Bool.false_eq_true, if_false, List.append_nil]
  exact divideLoop_numeral (by decide) (by decide) (lt_trans xx.isLt (by decide))

/-- What a format is made of: characters, conversions, and a `%` in front of any other character. -/
inductive Piece where
  | text (c : UInt8)
  | decimal
  | hex (c : UInt8)
  | string
  | char
  | percent
  | unknown (c : UInt8)
  deriving DecidableEq

namespace Piece

def format : Piece → List UInt8
  | text c => [c]
  | decimal => ascii "%d"
  | hex c => [Terminal.percent, c]
  | string => ascii "%s"
  | char => ascii "%c"
  | percent => ascii "%%"
  | unknown c => [Terminal.percent, c]

def takes : Piece → Nat
  | decimal | hex _ | string | char => 1
  | text _ | percent | unknown _ => 0

/-- A piece for a printer that knows the conversions of the letters `known`. -/
def Proper (known : List UInt8) : Piece → Prop
  | text c => c ≠ Terminal.percent ∧ c ≠ 0
  | hex c => c = 120 ∨ c = 112
  | char => 99 ∈ known
  | unknown c => c ∉ known ∧ c ≠ 0
  | _ => True

instance (known : List UInt8) : (piece : Piece) → Decidable (piece.Proper known)
  | text c => inferInstanceAs (Decidable (c ≠ Terminal.percent ∧ c ≠ 0))
  | hex c => inferInstanceAs (Decidable (c = 120 ∨ c = 112))
  | char => inferInstanceAs (Decidable ((99 : UInt8) ∈ known))
  | unknown c => inferInstanceAs (Decidable (c ∉ known ∧ c ≠ 0))
  | decimal => inferInstanceAs (Decidable True)
  | string => inferInstanceAs (Decidable True)
  | percent => inferInstanceAs (Decidable True)

def render (digits : List UInt8) (stack : Stack) (ap : Nat) : Piece → List UInt8
  | text c => [c]
  | decimal => Terminal.decimal digits (stack.word ap).toInt
  | hex _ => hexadecimal digits (stack.word ap).toNat
  | string => stack.text ap
  | char => [UInt8.ofNat (stack.word ap).toNat]
  | percent => [Terminal.percent]
  | unknown c => [Terminal.percent, c]

end Piece

def formats (pieces : List Piece) : List UInt8 := pieces.flatMap Piece.format

/-- Each piece takes its words behind those of the pieces before it. -/
def renders (digits : List UInt8) (stack : Stack) : Nat → List Piece → List UInt8
  | _, [] => []
  | ap, piece :: pieces => piece.render digits stack ap ++ renders digits stack (ap + piece.takes) pieces

def User.known : List UInt8 := ascii "dxpsc%"
def Kernel.known : List UInt8 := ascii "dxps%"

variable {stack : Stack} {ap : Nat} {pieces : List Piece} {piece : Piece} {fmt : List UInt8}

theorem printf_piece (proper : piece.Proper User.known) :
    stack.printf (piece.format ++ fmt) false ap =
      piece.render User.digits stack ap ++ stack.printf fmt false (ap + piece.takes) := by
  cases piece with
  | text c => exact if_neg proper.1
  | decimal => exact congrArg (· ++ _) (printint_decimal _ _)
  | hex c =>
    rcases (proper : c = 120 ∨ c = 112) with rfl | rfl
    · exact congrArg (· ++ _) (printint_hexadecimal _ _)
    · exact congrArg (· ++ _) (printint_hexadecimal _ _)
  | string => rfl
  | char => rfl
  | percent => rfl
  | unknown c =>
    have others : c ≠ 100 ∧ c ≠ 120 ∧ c ≠ 112 ∧ c ≠ 115 ∧ c ≠ 99 ∧ c ≠ Terminal.percent := by
      simpa [User.known, ascii, Terminal.percent] using proper.1
    rcases others with ⟨d, x, p, s, letter, sign⟩
    show stack.printf (c :: fmt) true ap = Terminal.percent :: c :: stack.printf fmt false ap
    rw [Stack.printf, if_neg d, if_neg (not_or.mpr ⟨x, p⟩), if_neg s, if_neg letter, if_neg sign]

theorem cprintf_piece (proper : piece.Proper Kernel.known) :
    stack.cprintf (piece.format ++ fmt) ap =
      piece.render Kernel.digits stack ap ++ stack.cprintf fmt (ap + piece.takes) := by
  cases piece with
  | text c =>
    cases fmt with
    | nil => exact if_pos proper.1
    | cons d fmt => exact if_pos proper.1
  | decimal => exact congrArg (· ++ _) (printint_decimal _ _)
  | hex c =>
    rcases (proper : c = 120 ∨ c = 112) with rfl | rfl
    · exact congrArg (· ++ _) (printint_hexadecimal _ _)
    · exact congrArg (· ++ _) (printint_hexadecimal _ _)
  | string => rfl
  | char => exact absurd (show (99 : UInt8) ∈ Kernel.known from proper) (by decide)
  | percent => rfl
  | unknown c =>
    have others : c ≠ 100 ∧ c ≠ 120 ∧ c ≠ 112 ∧ c ≠ 115 ∧ c ≠ Terminal.percent := by
      simpa [Kernel.known, ascii, Terminal.percent] using proper.1
    rcases others with ⟨d, x, p, s, sign⟩
    show stack.cprintf (Terminal.percent :: c :: fmt) ap = Terminal.percent :: c :: stack.cprintf fmt ap
    rw [Stack.cprintf, if_neg (not_not.mpr rfl), if_neg d, if_neg (not_or.mpr ⟨x, p⟩), if_neg s, if_neg sign]

/-- A `%` that ends the format is not printed. -/
def ending (trailing : Bool) : List UInt8 := if trailing then [percent] else []

theorem printf_ending (trailing : Bool) : stack.printf (ending trailing) false ap = [] := by
  cases trailing
  · rfl
  · rfl

theorem cprintf_ending (trailing : Bool) : stack.cprintf (ending trailing) ap = [] := by
  cases trailing
  · rfl
  · rfl

theorem printf_pieces (proper : ∀ piece ∈ pieces, piece.Proper User.known) (trailing : Bool) :
    stack.printf (formats pieces ++ ending trailing) false ap = renders User.digits stack ap pieces := by
  induction pieces generalizing ap with
  | nil => exact printf_ending trailing
  | cons piece pieces ih =>
    rw [formats, List.flatMap_cons, List.append_assoc, printf_piece (proper piece List.mem_cons_self), renders]
    exact congrArg (_ ++ ·) (ih fun other member => proper other (List.mem_cons_of_mem _ member))

theorem cprintf_pieces (proper : ∀ piece ∈ pieces, piece.Proper Kernel.known) (trailing : Bool) :
    stack.cprintf (formats pieces ++ ending trailing) ap = renders Kernel.digits stack ap pieces := by
  induction pieces generalizing ap with
  | nil => exact cprintf_ending trailing
  | cons piece pieces ih =>
    rw [formats, List.flatMap_cons, List.append_assoc, cprintf_piece (proper piece List.mem_cons_self), renders]
    exact congrArg (_ ++ ·) (ih fun other member => proper other (List.mem_cons_of_mem _ member))

theorem fewer_known : ∀ c ∈ Kernel.known, c ∈ User.known := by
  have shorter : List.Sublist Kernel.known User.known := by decide
  exact fun c member => shorter.subset member

theorem exists_piece {known : List UInt8} (letters : ∀ c ∈ known, c ∈ User.known) {c : UInt8} (noNul : c ≠ 0) :
    ∃ piece : Piece, piece.format = [percent, c] ∧ piece.Proper known := by
  by_cases isKnown : c ∈ known
  · have cases : c = 100 ∨ c = 120 ∨ c = 112 ∨ c = 115 ∨ c = 99 ∨ c = 37 := by
      simpa [User.known, ascii] using letters c isKnown
    rcases cases with rfl | rfl | rfl | rfl | rfl | rfl
    · exact ⟨.decimal, rfl, trivial⟩
    · exact ⟨.hex 120, rfl, Or.inl rfl⟩
    · exact ⟨.hex 112, rfl, Or.inr rfl⟩
    · exact ⟨.string, rfl, trivial⟩
    · exact ⟨.char, rfl, isKnown⟩
    · exact ⟨.percent, rfl, trivial⟩
  · exact ⟨.unknown c, rfl, isKnown, noNul⟩

theorem exists_pieces {known : List UInt8} (letters : ∀ c ∈ known, c ∈ User.known) (fmt : List UInt8) (noNul : 0 ∉ fmt) :
    ∃ pieces trailing, fmt = formats pieces ++ ending trailing ∧ ∀ piece ∈ pieces, piece.Proper known := by
  induction hn : fmt.length using Nat.strong_induction_on generalizing fmt with
  | _ n ih =>
    cases fmt with
    | nil => exact ⟨[], false, rfl, fun piece member => absurd member List.not_mem_nil⟩
    | cons c fmt =>
      rw [List.mem_cons, not_or] at noNul
      rw [List.length_cons] at hn
      by_cases isPercent : c = percent
      · subst isPercent
        cases fmt with
        | nil => exact ⟨[], true, rfl, fun piece member => absurd member List.not_mem_nil⟩
        | cons d fmt =>
          rw [List.mem_cons, not_or] at noNul
          rw [List.length_cons] at hn
          rcases exists_piece letters (Ne.symm noNul.2.1) with ⟨piece, same, proper⟩
          rcases ih fmt.length (by omega) fmt noNul.2.2 rfl with ⟨pieces, trailing, rfl, allProper⟩
          refine ⟨piece :: pieces, trailing, ?_, List.forall_mem_cons.mpr ⟨proper, allProper⟩⟩
          have front : formats (piece :: pieces) = piece.format ++ formats pieces := List.flatMap_cons
          rw [front, same]
          rfl
      · rcases ih fmt.length (by omega) fmt noNul.2 rfl with ⟨pieces, trailing, rfl, allProper⟩
        exact ⟨.text c :: pieces, trailing, rfl,
          List.forall_mem_cons.mpr ⟨⟨isPercent, Ne.symm noNul.1⟩, allProper⟩⟩

theorem decimal_fits (digits : List UInt8) (xx : Word) : (decimal digits xx.toInt).length ≤ 16 := by
  have bound : xx.toInt.natAbs < 10 ^ 10 := by
    have low := xx.le_toInt
    have high := xx.toInt_lt
    omega
  have digitsFit : (numeral (fun d => digits.getD d 0) 10 xx.toInt.natAbs).length ≤ 10 :=
    numeral_length (by decide) (by decide) bound
  rw [decimal]
  split
  · rw [List.length_cons]
    omega
  · omega

theorem hexadecimal_fits (digits : List UInt8) (xx : Word) : (hexadecimal digits xx.toNat).length ≤ 16 :=
  le_trans (numeral_length (by decide) (by decide) (lt_of_lt_of_le xx.isLt (by decide : 2 ^ 32 ≤ 16 ^ 8))) (by decide)

/-- Both printers print a format piece by piece: a character as it is, for a conversion the next word in its notation
    and for an unknown one the conversion itself; a number never overruns `buf`. -/
theorem printers_exact (stack : Stack) (fmt : List UInt8) (noNul : 0 ∉ fmt) :
    (∃ pieces trailing, fmt = formats pieces ++ ending trailing ∧ (∀ piece ∈ pieces, piece.Proper User.known) ∧
      stack.printf fmt false 0 = renders User.digits stack 0 pieces) ∧
    (∃ pieces trailing, fmt = formats pieces ++ ending trailing ∧ (∀ piece ∈ pieces, piece.Proper Kernel.known) ∧
      stack.cprintf fmt 0 = renders Kernel.digits stack 0 pieces) ∧
    ∀ (digits : List UInt8) (xx : Word),
      (printintWith digits xx 10 true).length ≤ 16 ∧ (printintWith digits xx 16 false).length ≤ 16 := by
  refine ⟨?_, ?_, ?_⟩
  · rcases exists_pieces (show ∀ c ∈ User.known, c ∈ User.known from fun c member => member) fmt noNul with ⟨pieces, trailing, same, proper⟩
    refine ⟨pieces, trailing, same, proper, ?_⟩
    rw [same]
    exact printf_pieces proper trailing
  · rcases exists_pieces fewer_known fmt noNul with ⟨pieces, trailing, same, proper⟩
    refine ⟨pieces, trailing, same, proper, ?_⟩
    rw [same]
    exact cprintf_pieces proper trailing
  · intro digits xx
    rw [printint_decimal, printint_hexadecimal]
    exact ⟨decimal_fits digits xx, hexadecimal_fits digits xx⟩

theorem printers_exact_negative :
    ∃ pieces trailing, ascii "%d is %x%" = formats pieces ++ ending trailing ∧
      (∀ piece ∈ pieces, piece.Proper User.known) ∧
      renders User.digits ⟨fun _ => -1, fun _ => []⟩ 0 pieces = ascii "-1 is FFFFFFFF" := by
  rcases printers_exact ⟨fun _ => -1, fun _ => []⟩ (ascii "%d is %x%") (by decide) with
    ⟨⟨pieces, trailing, same, proper, prints⟩, -, -⟩
  exact ⟨pieces, trailing, same, proper, prints.symm.trans (by decide)⟩

theorem digit_value : ∀ d < 10, (48 ≤ User.digits.getD d 0 ∧ User.digits.getD d 0 ≤ 57) ∧
    (User.digits.getD d 0).toNat = 48 + d := by
  decide

theorem atoiLoop_digits {ds : List Nat} (small : ∀ d ∈ ds, d < 10) (rest : List UInt8) (v : Nat) :
    atoiLoop (ds.map (fun d => User.digits.getD d 0) ++ rest) (BitVec.ofNat 32 v) =
      atoiLoop rest (BitVec.ofNat 32 (ds.foldl (fun v d => v * 10 + d) v)) := by
  induction ds generalizing v with
  | nil => rfl
  | cons d ds ih =>
    rcases digit_value d (small d List.mem_cons_self) with ⟨isDigit, value⟩
    have next : BitVec.ofNat 32 v * 10 + BitVec.ofNat 32 (48 + d) - 48 = BitVec.ofNat 32 (v * 10 + d) := by
      rw [Nat.add_comm 48 d, BitVec.ofNat_add, BitVec.ofNat_add, BitVec.ofNat_mul, ← BitVec.add_assoc]
      exact BitVec.add_sub_cancel _ _
    rw [List.map_cons, List.cons_append, atoiLoop, if_pos isDigit, value, next, List.foldl_cons]
    exact ih (fun d member => small d (List.mem_cons_of_mem _ member)) _

/-- What `printf` prints for a number that is not negative is what `atoi` reads it from, whatever comes behind it. -/
theorem atoi_printint (xx : Word) (positive : 0 ≤ xx.toInt) (rest : List UInt8)
    (ends : ∀ c ∈ rest.head?, ¬(48 ≤ c ∧ c ≤ 57)) : atoi (User.printint xx 10 true ++ rest) = xx := by
  have stops : ∀ n, atoiLoop rest n = n := by
    intro n
    cases rest with
    | nil => rfl
    | cons c rest => exact if_neg (ends c rfl)
  rcases numeral_eq_map (fun d => User.digits.getD d 0) (by decide : 1 < 10) xx.toInt.natAbs with ⟨ds, same, small, value⟩
  have natural : xx.toInt.natAbs = xx.toNat := by
    have high := BitVec.toInt_eq_toNat_cond xx
    have low := xx.isLt
    split at high
    · omega
    · omega
  rw [User.printint, printint_decimal, decimal, if_neg (not_lt.mpr positive), same, atoi]
  have read := atoiLoop_digits small rest 0
  rw [foldl_digits, value, stops, Nat.zero_mul, Nat.zero_add, natural, BitVec.ofNat_toNat, BitVec.setWidth_eq] at read
  exact read

theorem atoi_printint_line : atoi (User.printint 2147483647 10 true ++ ascii "\n8") = 2147483647 :=
  atoi_printint 2147483647 (by decide) (ascii "\n8") fun c first => by
    cases first
    decide

end Terminal

end Xv6
