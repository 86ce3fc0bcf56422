import Xv6.Programs.Grep

namespace Xv6.Grep

open Splitting Ulib

variable {re x y text m p : List UInt8} {fd : Fd} {n fuel q : Nat}

instance (text : List UInt8) : Decidable (text ∈ (parse re).language) :=
  decidable_of_iff («match» re text = true) (match_iff re text)

def lines (text : List UInt8) : List (List UInt8) := terminated (· == newline) text

/-- What is left of a line that does not fit into the buffer with its newline: the buffer is thrown away when it is
    full without one. -/
def cut (line : List UInt8) : List UInt8 := line.drop (BUFSIZE * (line.length / BUFSIZE))

/-- The lines, so cut, that the pattern means, in order. -/
def printed (re text : List UInt8) : List UInt8 :=
  (((lines text).map cut).filter fun line => line ∈ (parse re).language).flatMap (· ++ [newline])

/-- A read does not fail, and one that gives less than it could has a newline: of files and of the console. -/
structure Lined (fd : Fd) : Prop extends fd.Reads where
  serves : ∀ n rest, 0 ≤ fd n rest
  lined : ∀ n rest, fd n rest < min n rest.length → newline ∈ rest.take (fd n rest).toNat

theorem file_lined : Lined file where
  toReads := file_reads
  serves n rest := by
    simp only [file]
    omega
  lined n rest short := by
    simp only [file] at short
    omega

theorem not_newline : (∀ a ∈ x, (a == newline) = false) ↔ newline ∉ x := by
  constructor
  · intro inner member
    exact absurd (inner newline member) (by decide)
  · intro absent a member
    exact beq_eq_false_iff_ne.mpr (ne_of_mem_of_not_mem member absent)

theorem lines_of_none (absent : newline ∉ x) : lines x = [] := terminated_of_none (not_newline.mpr absent)

theorem lines_append (absent : newline ∉ x) : lines (x ++ newline :: y) = x :: lines y :=
  terminated_append (not_newline.mpr absent) (by decide)

theorem first_line (text : List UInt8) :
    newline ∉ text ∨ ∃ line rest, text = line ++ newline :: rest ∧ newline ∉ line := by
  rcases first_separator (· == newline) text with none | ⟨line, a, rest, same, separates, inner⟩
  · exact Or.inl (not_newline.mp none)
  · right
    have isNewline : a = newline := beq_iff_eq.mp separates
    rw [isNewline] at same
    exact ⟨line, rest, same, not_newline.mp inner⟩

theorem cut_short (fits : x.length < BUFSIZE) : cut x = x := by
  rw [cut, Nat.div_eq_of_lt fits]
  rfl

theorem cut_append (full : x.length = BUFSIZE) (y : List UInt8) : cut (x ++ y) = cut y := by
  have quotient : (x ++ y).length / BUFSIZE = y.length / BUFSIZE + 1 := by
    rw [List.length_append, full, Nat.add_div_left _ (by decide)]
  have more : BUFSIZE * (y.length / BUFSIZE + 1) = x.length + BUFSIZE * (y.length / BUFSIZE) := by
    rw [full, Nat.mul_add, Nat.mul_one, Nat.add_comm]
  rw [cut, quotient, more, ← List.drop_drop, List.drop_left, cut]

theorem printed_of_none (absent : newline ∉ x) : printed re x = [] := by
  rw [printed, lines_of_none absent]
  rfl

theorem printed_append (absent : newline ∉ x) :
    printed re (x ++ newline :: y) = (if «match» re (cut x) then cut x ++ [newline] else []) ++ printed re y := by
  have chosen : cut x ∈ (parse re).language ↔ «match» re (cut x) = true := (match_iff re (cut x)).symm
  rw [printed, lines_append absent, List.map_cons, List.filter_cons]
  by_cases found : «match» re (cut x) = true
  · rw [if_pos (decide_eq_true (chosen.mpr found)), if_pos found]
    rfl
  · rw [if_neg (by simpa using fun member => found (chosen.mp member)), if_neg found]
    rfl

theorem printed_full (full : x.length = BUFSIZE) (absent : newline ∉ x) (y : List UInt8) :
    printed re (x ++ y) = printed re y := by
  rcases first_line y with none | ⟨line, rest, rfl, inner⟩
  · rw [printed_of_none none, printed_of_none]
    intro member
    rcases List.mem_append.mp member with front | back
    · exact absent front
    · exact none back
  · have absent' : newline ∉ x ++ line := by
      intro member
      rcases List.mem_append.mp member with front | back
      · exact absent front
      · exact inner back
    rw [← List.append_assoc, printed_append absent', printed_append inner, cut_append full]

/-- One buffer: the lines in it are printed, and what is behind the last newline is left. -/
theorem greplines_prints (re : List UInt8) (noNul : 0 ∉ text) (fits : text.length ≤ BUFSIZE) (fuel : text.length ≤ n) :
    newline ∉ (greplines re n text).2 ∧ (greplines re n text).2 <:+ text ∧
      (newline ∈ text → (greplines re n text).2.length < text.length) ∧
      (newline ∉ text → greplines re n text = ([], text)) ∧
      ∀ later, (greplines re n text).1 ++ printed re ((greplines re n text).2 ++ later) = printed re (text ++ later) := by
  induction n generalizing text with
  | zero =>
    have empty : text = [] := List.length_eq_zero_iff.mp (Nat.le_zero.mp fuel)
    subst empty
    refine ⟨List.not_mem_nil, List.suffix_refl _, ?_, fun _ => rfl, fun later => rfl⟩
    intro member
    cases member
  | succ n ih =>
    rcases first_line text with none | ⟨line, rest, rfl, inner⟩
    · have stops : greplines re (n + 1) text = ([], text) := by rw [greplines, strchr_none none]
      rw [stops]
      exact ⟨none, List.suffix_refl _, fun member => absurd member none, fun _ => rfl, fun later => rfl⟩
    · have lineNul : 0 ∉ line := fun member => noNul (List.mem_append_left _ member)
      have restNul : 0 ∉ rest := fun member => noNul (List.mem_append_right _ (List.mem_cons_of_mem _ member))
      rw [List.length_append, List.length_cons] at fits fuel
      have at_q : (line ++ newline :: rest).take line.length = line := List.take_left
      have through : (line ++ newline :: rest).take (line.length + 1) = line ++ [newline] := by
        rw [List.take_length_add_append]
        rfl
      have beyond : (line ++ newline :: rest).drop (line.length + 1) = rest := by
        rw [List.drop_length_add_append]
        rfl
      have goes : greplines re (n + 1) (line ++ newline :: rest) =
          ((if «match» re line then line ++ [newline] else []) ++ (greplines re n rest).1, (greplines re n rest).2) := by
        rw [greplines, strchr_append lineNul inner (by decide)]
        simp only [at_q, through, beyond]
      rcases ih restNul (by omega) (by omega) with ⟨absent, suffix, -, -, prints⟩
      have inside : rest <:+ line ++ newline :: rest := ⟨line ++ [newline], by rw [List.append_assoc]; rfl⟩
      rw [goes]
      refine ⟨absent, suffix.trans inside, ?_, ?_, ?_⟩
      · intro
        have notLonger := suffix.length_le
        simp only [List.length_append, List.length_cons]
        omega
      · intro none
        exact absurd (List.mem_append_right line List.mem_cons_self) none
      · intro later
        rw [List.append_assoc, prints, List.append_assoc, List.cons_append, printed_append inner,
          cut_short (by omega)]

theorem greploop_prints (lined : Lined fd) (noNul : 0 ∉ m ++ text) (absent : newline ∉ m) (room : m.length < BUFSIZE)
    (enough : text.length < fuel) : greploop re fd fuel m text = printed re (m ++ text) := by
  induction fuel generalizing m text with
  | zero => exact absurd enough (Nat.not_lt_zero _)
  | succ fuel ih =>
    have bound := lined.bound (BUFSIZE - m.length) text
    rcases Int.eq_ofNat_of_zero_le (lined.serves (BUFSIZE - m.length) text) with ⟨n, given⟩
    by_cases ended : n = 0
    · have nothing : text = [] := by
        by_contra left
        apply lined.progress (BUFSIZE - m.length) text (by omega) left
        rw [given, ended]
        rfl
      have stop : (n : Int) ≤ 0 := by omega
      rw [greploop, given, if_pos stop, nothing, List.append_nil, printed_of_none absent]
    · rw [given] at bound
      have whole : m ++ text = (m ++ text.take n) ++ text.drop n := by
        rw [List.append_assoc, List.take_append_drop]
      have length : (m ++ text.take n).length = m.length + n := by
        rw [List.length_append, List.length_take]
        omega
      have bufNul : 0 ∉ m ++ text.take n := by
        intro member
        rw [whole] at noNul
        exact noNul (List.mem_append_left _ member)
      have dropNul : 0 ∉ text.drop n := fun member => noNul (List.mem_append_right _ (List.mem_of_mem_drop member))
      rcases greplines_prints re bufNul (by omega) (le_refl (m ++ text.take n).length) with
        ⟨rest, suffix, shorter, stops, prints⟩
      have fewer : (text.drop n).length < fuel := by
        rw [List.length_drop]
        omega
      rw [greploop, given, if_neg (by omega), Int.toNat_natCast]
      by_cases found : newline ∈ m ++ text.take n
      · have moved := shorter found
        simp only [if_neg (Nat.ne_of_lt moved)]
        have leftNul : 0 ∉ (greplines re (m ++ text.take n).length (m ++ text.take n)).2 ++ text.drop n := by
          intro member
          rcases List.mem_append.mp member with front | back
          · exact bufNul (suffix.mem front)
          · exact dropNul back
        rw [ih leftNul rest (by omega) fewer, whole, prints]
      · simp only [stops found, if_pos]
        rw [List.nil_append, ih dropNul List.not_mem_nil (by decide) fewer, List.nil_append, whole]
        by_cases full : n = BUFSIZE - m.length
        · exact (printed_full (by omega) found _).symm
        · have last : text.drop n = [] := by
            apply List.drop_eq_nil_of_le
            by_contra more
            have short := lined.lined (BUFSIZE - m.length) text (by omega)
            rw [given, Int.toNat_natCast] at short
            exact found (List.mem_append_right m short)
          rw [last, List.append_nil, printed_of_none found, printed_of_none List.not_mem_nil]

theorem grep_prints (lined : Lined fd) (noNul : 0 ∉ text) : grep re fd text = printed re text :=
  greploop_prints lined noNul List.not_mem_nil (by decide) (Nat.lt_succ_self _)

/-- What `main` is to print: up to the first file that cannot be opened. -/
def printedFiles (re : List UInt8) (opened : List UInt8 → Option (Fd × List UInt8)) : List (List UInt8) → List UInt8
  | [] => []
  | name :: files =>
    match opened name with
    | none => ascii "grep: cannot open " ++ name ++ [newline]
    | some (_, text) => printed re text ++ printedFiles re opened files

theorem grepfiles_prints {opened : List UInt8 → Option (Fd × List UInt8)} {files : List (List UInt8)}
    (texts : ∀ name ∈ files, ∀ fd text, opened name = some (fd, text) → Lined fd ∧ 0 ∉ text) :
    grepfiles re opened files = printedFiles re opened files := by
  induction files with
  | nil => rfl
  | cons name files ih =>
    cases found : opened name with
    | none => rw [grepfiles, printedFiles, found]
    | some source =>
      rcases texts name List.mem_cons_self source.1 source.2 found with ⟨lined, noNul⟩
      rw [grepfiles, printedFiles, found]
      exact congrArg₂ (· ++ ·) (grep_prints lined noNul) (ih fun other member => texts other (List.mem_cons_of_mem _ member))

/-- `grep` prints the lines that the pattern means, whatever the reads give, for text that holds no NUL. -/
theorem main_prints (opened : List UInt8 → Option (Fd × List UInt8)) (stdin : Fd × List UInt8)
    (program re : List UInt8) (files : List (List UInt8)) (typed : Lined stdin.1 ∧ 0 ∉ stdin.2)
    (texts : ∀ name ∈ files, ∀ fd text, opened name = some (fd, text) → Lined fd ∧ 0 ∉ text) :
    main opened stdin (program :: re :: files) =
      if files = [] then printed re stdin.2 else printedFiles re opened files := by
  cases files with
  | nil => exact grep_prints typed.1 typed.2
  | cons name files => exact grepfiles_prints texts

theorem main_prints_line :
    main (fun name => if name = ascii "f" then some (file, ascii "abc\nxyz\ntail") else none) (file, [])
      [ascii "grep", ascii "^a.*c$", ascii "f", ascii "g"] = ascii "abc\ngrep: cannot open g\n" := by
  have texts : ∀ name ∈ [ascii "f", ascii "g"], ∀ fd text,
      (if name = ascii "f" then some (file, ascii "abc\nxyz\ntail") else none) = some (fd, text) →
        Lined fd ∧ 0 ∉ text := by
    intro name member fd text found
    split at found
    · cases found
      exact ⟨file_lined, by decide⟩
    · cases found
  exact (main_prints _ _ _ _ _ ⟨file_lined, List.not_mem_nil⟩ texts).trans (by decide)

end Xv6.Grep
