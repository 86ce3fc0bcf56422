import Xv6.Programs.Shell
import Xv6.Library.Outcome
import Mathlib.Tactic.Common

namespace Xv6.Shell

open Function Outcome

/-- What `gettoken` returns for a token, and where the token begins and ends. -/
structure Token where
  ret : UInt8
  q : Nat
  eq : Nat

variable {line : Line} {p : UInt8 → Bool} {s t i n : Nat} {tok : Token} {toks : List Token} {chars : List UInt8}

/-- A token of the line: a word that cannot be longer, or an operator. -/
def IsToken (line : Line) (tok : Token) : Prop :=
  tok.ret = word ∧ tok.q < tok.eq ∧ tok.eq ≤ line.es ∧ (∀ i, tok.q ≤ i → i < tok.eq → isWord (line.text i) = true) ∧
      (tok.eq = line.es ∨ isWord (line.text tok.eq) = false) ∨
    tok.ret = plus ∧ line.text tok.q = greater ∧ line.text (tok.q + 1) = greater ∧ tok.eq = tok.q + 2 ∨
    tok.ret = line.text tok.q ∧ tok.ret ∈ symbols ∧ (tok.ret = greater → line.text (tok.q + 1) ≠ greater) ∧ tok.eq = tok.q + 1

/-- The tokens from `s` on, with spaces between them. -/
inductive Lexes (line : Line) : Nat → List Token → Prop
  | nil {s : Nat} (low : s ≤ line.es) (blank : ∀ i, s ≤ i → i < line.es → isSpace (line.text i) = true) : Lexes line s []
  | cons {s : Nat} {tok : Token} {toks : List Token} (low : s ≤ tok.q) (blank : ∀ i, s ≤ i → i < tok.q → isSpace (line.text i) = true)
      (token : IsToken line tok) (rest : Lexes line tok.eq toks) : Lexes line s (tok :: toks)

theorem lt_es_of_text (here : line.text s ≠ 0) (low : s ≤ line.es) : s < line.es := by
  rcases Nat.lt_or_eq_of_le low with lt | rfl
  · exact lt
  · exact absurd line.terminated here

theorem skipLoop_spec (low : s ≤ line.es) (enough : line.es ≤ s + n) :
    s ≤ skipLoop line p n s ∧ skipLoop line p n s ≤ line.es ∧
      (∀ i, s ≤ i → i < skipLoop line p n s → p (line.text i) = true) ∧
        (skipLoop line p n s = line.es ∨ p (line.text (skipLoop line p n s)) = false) := by
  induction n generalizing s with
  | zero =>
    unfold skipLoop
    exact ⟨Nat.le_refl s, low, fun i from_s to_s => by omega, .inl (by omega)⟩
  | succ n ih =>
    unfold skipLoop
    by_cases passes : s < line.es ∧ p (line.text s) = true
    · rw [if_pos passes]
      obtain ⟨up, inside, passed, stop⟩ := ih (show s + 1 ≤ line.es by omega) (by omega)
      refine ⟨by omega, inside, ?_, stop⟩
      intro i low high
      by_cases here : i = s
      · rw [here]
        exact passes.2
      · exact passed i (by omega) high
    · rw [if_neg passes]
      refine ⟨Nat.le_refl s, low, fun i from_s to_s => by omega, ?_⟩
      by_cases inside : s < line.es
      · exact .inr (Bool.eq_false_iff.mpr fun holds => passes ⟨inside, holds⟩)
      · exact .inl (by omega)

theorem skip_spec (low : s ≤ line.es) :
    s ≤ skip line p s ∧ skip line p s ≤ line.es ∧ (∀ i, s ≤ i → i < skip line p s → p (line.text i) = true) ∧
      (skip line p s = line.es ∨ p (line.text (skip line p s)) = false) :=
  skipLoop_spec low (by omega)

theorem skip_eq (low : s ≤ t) (inside : t ≤ line.es) (passed : ∀ i, s ≤ i → i < t → p (line.text i) = true)
    (stop : t = line.es ∨ p (line.text t) = false) : skip line p s = t := by
  obtain ⟨up, inside', passed', stop'⟩ := skip_spec (p := p) (Nat.le_trans low inside)
  rcases Nat.lt_trichotomy (skip line p s) t with early | same | late
  · have holds := passed _ up early
    rcases stop' with last | fails
    · omega
    · rw [holds] at fails
      cases fails
  · exact same
  · have holds := passed' t low late
    rcases stop with last | fails
    · omega
    · rw [holds] at fails
      cases fails

theorem not_space_of_symbol {c : UInt8} (member : c ∈ symbols) : isSpace c = false := by
  simp only [symbols, List.mem_cons, List.not_mem_nil, or_false] at member
  rcases member with rfl | rfl | rfl | rfl | rfl | rfl | rfl <;> rfl

theorem not_space_of_word {c : UInt8} (holds : isWord c = true) : isSpace c = false := by
  unfold isWord at holds
  unfold isSpace
  simp only [Bool.and_eq_true, decide_eq_true_eq] at holds
  exact decide_eq_false holds.1

theorem not_symbol_of_word {c : UInt8} (holds : isWord c = true) : c ∉ symbols := by
  unfold isWord at holds
  simp only [Bool.and_eq_true, decide_eq_true_eq] at holds
  exact holds.2

namespace IsToken

theorem first_inside (token : IsToken line tok) : tok.q < tok.eq := by
  rcases token with word | two | one
  · exact word.2.1
  · omega
  · omega

theorem not_space (token : IsToken line tok) : isSpace (line.text tok.q) = false := by
  rcases token with ⟨_, inside, _, chars, _⟩ | ⟨_, first, _, _⟩ | ⟨same, symbol, _, _⟩
  · exact not_space_of_word (chars tok.q (Nat.le_refl _) inside)
  · rw [first]
    decide
  · rw [← same]
    exact not_space_of_symbol symbol

end IsToken

namespace Lexes

theorem low (lexes : Lexes line s toks) : s ≤ line.es := by
  induction lexes with
  | nil low _ => exact low
  | cons low _ token _ ih =>
    have := token.first_inside
    omega

theorem inside (lexes : Lexes line s (tok :: toks)) : tok.eq ≤ line.es := by
  cases lexes with
  | cons _ _ _ rest => exact rest.low

theorem length_le (lexes : Lexes line s toks) : s + toks.length ≤ line.es := by
  induction lexes with
  | nil low _ => exact low
  | cons low _ token _ ih =>
    have := token.first_inside
    rw [List.length_cons]
    omega

theorem skip_eq (lexes : Lexes line s (tok :: toks)) : skip line isSpace s = tok.q := by
  have inside := lexes.inside
  cases lexes with
  | cons low blank token _ =>
    have := token.first_inside
    exact Shell.skip_eq low (by omega) blank (.inr token.not_space)

theorem skip_nil (lexes : Lexes line s []) : skip line isSpace s = line.es := by
  cases lexes with
  | nil low blank => exact Shell.skip_eq low (Nat.le_refl _) blank (.inl rfl)

theorem skipped (lexes : Lexes line s toks) : Lexes line (skip line isSpace s) toks := by
  obtain ⟨up, inside, _, _⟩ := skip_spec (p := isSpace) lexes.low
  cases toks with
  | nil =>
    rw [lexes.skip_nil]
    exact .nil (Nat.le_refl _) fun i low high => by omega
  | cons tok toks =>
    rw [lexes.skip_eq]
    cases lexes with
    | cons _ _ token rest => exact .cons (Nat.le_refl _) (fun i low high => by omega) token rest

end Lexes

/-- The first character of a token that is an operator. -/
def Token.first (tok : Token) : UInt8 := if tok.ret = plus then greater else tok.ret

theorem IsToken.nonzero (token : IsToken line tok) (inside : tok.eq ≤ line.es) : line.text tok.q ≠ 0 :=
  line.inside tok.q (Nat.lt_of_lt_of_le token.first_inside inside)

theorem IsToken.first_mem (token : IsToken line tok) (sub : chars ⊆ symbols) : line.text tok.q ∈ chars ↔ tok.first ∈ chars := by
  unfold Token.first
  rcases token with ⟨ret, inside, _, passed, _⟩ | ⟨ret, first, _, _⟩ | ⟨same, symbol, _, _⟩
  · have no : line.text tok.q ∉ chars := fun member =>
      not_symbol_of_word (passed tok.q (Nat.le_refl _) inside) (sub member)
    rw [if_neg (by rw [ret]; decide), ret]
    have no' : word ∉ chars := fun member => absurd (sub member) (by decide)
    exact iff_of_false no no'
  · rw [if_pos ret, first]
  · rw [if_neg, same]
    intro two
    rw [two] at symbol
    exact absurd symbol (by decide)

variable {stop : Fault → Prop}

theorem ends_move (low : s ≤ line.es) {post : PUnit → Nat → Prop} (done : post ⟨⟩ s) : Ends (move line s) t post stop := by
  unfold move
  rw [if_pos low]
  exact done

theorem ends_gettoken (lexes : Lexes line s (tok :: toks)) {post : UInt8 × Nat × Nat → Nat → Prop}
    (done : ∀ s', Lexes line s' toks → post (tok.ret, tok.q, tok.eq) s') : Ends (gettoken line) s post stop := by
  have inside := lexes.inside
  unfold gettoken
  rw [ends_bind, ends_get]
  dsimp only
  rw [lexes.skip_eq]
  cases lexes with
  | cons low blank token rest =>
    have nonzero := token.nonzero inside
    have read : (if line.text tok.q = 0 then (line.text tok.q, tok.q)
        else if line.text tok.q ∈ [bar, leftParen, rightParen, semicolon, ampersand, less] then (line.text tok.q, tok.q + 1)
        else if line.text tok.q = greater then
          if line.text (tok.q + 1) = greater then (plus, tok.q + 2) else (line.text tok.q, tok.q + 1)
        else (word, skip line isWord tok.q)) = (tok.ret, tok.eq) := by
      rw [if_neg nonzero]
      rcases token with ⟨ret, up, _, passed, last⟩ | ⟨ret, first, second, eq⟩ | ⟨same, symbol, once, eq⟩
      · have no := not_symbol_of_word (passed tok.q (Nat.le_refl _) up)
        have plain : line.text tok.q ∉ [bar, leftParen, rightParen, semicolon, ampersand, less] := by
          intro member
          apply no
          simp only [symbols, List.mem_cons, List.not_mem_nil, or_false] at member ⊢
          tauto
        have other : line.text tok.q ≠ greater := by
          intro same
          rw [same] at no
          exact no (by decide)
        rw [if_neg plain, if_neg other, ret, Shell.skip_eq (Nat.le_of_lt up) inside passed last]
      · rw [first, if_neg (by decide), if_pos rfl, if_pos second, ret, eq]
      · rw [← same, eq]
        by_cases plain : tok.ret ∈ [bar, leftParen, rightParen, semicolon, ampersand, less]
        · rw [if_pos plain]
        · have here : tok.ret = greater := by
            simp only [symbols, List.mem_cons, List.not_mem_nil, or_false] at symbol plain
            tauto
          rw [if_neg plain, if_pos here, if_neg (once here)]
    rw [read]
    dsimp only
    rw [ends_bind]
    apply ends_move (skip_spec inside).2.1
    exact done _ rest.skipped

theorem ends_gettoken_end (lexes : Lexes line s []) {post : UInt8 × Nat × Nat → Nat → Prop}
    (done : ∀ s', Lexes line s' [] → post (0, line.es, line.es) s') : Ends (gettoken line) s post stop := by
  unfold gettoken
  rw [ends_bind, ends_get]
  dsimp only
  have rest : Lexes line line.es [] := lexes.skip_nil ▸ lexes.skipped
  rw [lexes.skip_nil, if_pos line.terminated, line.terminated]
  dsimp only
  rw [ends_bind]
  apply ends_move (skip_spec (Nat.le_refl _)).2.1
  exact done _ rest.skipped

theorem ends_peek (lexes : Lexes line s toks) (sub : chars ⊆ symbols) {post : Bool → Nat → Prop}
    (yes : ∀ tok rest s', toks = tok :: rest → tok.first ∈ chars → Lexes line s' (tok :: rest) → post true s')
    (no : ∀ s', (∀ tok rest, toks = tok :: rest → tok.first ∉ chars) → Lexes line s' toks → post false s') :
    Ends (peek line chars) s post stop := by
  unfold peek
  rw [ends_bind, ends_get]
  dsimp only
  rw [ends_bind]
  apply ends_move (skip_spec lexes.low).2.1
  rw [ends_pure]
  have later := lexes.skipped
  cases toks with
  | nil =>
    rw [lexes.skip_nil, line.terminated]
    rw [lexes.skip_nil] at later
    exact no _ (fun tok rest eq => nomatch eq) later
  | cons tok rest =>
    rw [lexes.skip_eq]
    rw [lexes.skip_eq] at later
    have inside := lexes.inside
    cases lexes with
    | cons _ _ token _ =>
      have nonzero := token.nonzero inside
      have same := token.first_mem sub
      by_cases here : tok.first ∈ chars
      · simp only [nonzero, same.mpr here, ne_eq, not_false_eq_true, decide_true, Bool.and_self]
        exact yes tok rest _ rfl here later
      · have here' : line.text tok.q ∉ chars := fun member => here (same.mp member)
        simp only [nonzero, here', ne_eq, not_false_eq_true, decide_true, decide_false, Bool.and_false]
        apply no _ _ later
        rintro _ _ ⟨rfl⟩
        exact here

theorem exists_lexes (low : s ≤ line.es) : ∃ toks, Lexes line s toks := by
  obtain ⟨n, room⟩ : ∃ n, line.es - s ≤ n := ⟨_, Nat.le_refl _⟩
  induction n generalizing s with
  | zero => exact ⟨[], .nil low fun i from_s to_es => by omega⟩
  | succ n ih =>
    obtain ⟨up, inside, blank, last⟩ := skip_spec (p := isSpace) low
    by_cases ended : skip line isSpace s = line.es
    · rw [ended] at blank
      exact ⟨[], .nil low blank⟩
    · have lt : skip line isSpace s < line.es := by omega
      obtain ⟨q, eq⟩ : ∃ q, q = skip line isSpace s := ⟨_, rfl⟩
      rw [← eq] at up lt blank last ended
      have fails : isSpace (line.text q) = false := last.resolve_left ended
      have token : ∃ tok : Token, tok.q = q ∧ tok.eq ≤ line.es ∧ IsToken line tok := by
        by_cases symbol : line.text q ∈ symbols
        · by_cases two : line.text q = greater ∧ line.text (q + 1) = greater
          · have more : q + 1 < line.es := by
              apply lt_es_of_text _ (by omega)
              rw [two.2]
              decide
            exact ⟨⟨plus, q, q + 2⟩, rfl, more, .inr (.inl ⟨rfl, two.1, two.2, rfl⟩)⟩
          · exact ⟨⟨line.text q, q, q + 1⟩, rfl, lt, .inr (.inr ⟨rfl, symbol, fun one next => two ⟨one, next⟩, rfl⟩)⟩
        · have starts : isWord (line.text q) = true := by
            unfold isSpace at fails
            unfold isWord
            simp [symbol, of_decide_eq_false fails]
          obtain ⟨up', inside', passed, last'⟩ := skip_spec (p := isWord) (Nat.le_of_lt lt)
          have positive : q < skip line isWord q := by
            rcases Nat.lt_or_eq_of_le up' with more | same
            · exact more
            · rw [← same] at last'
              rcases last' with bad | bad
              · omega
              · rw [starts] at bad
                cases bad
          exact ⟨⟨word, q, skip line isWord q⟩, rfl, inside', .inl ⟨rfl, positive, inside', passed, last'⟩⟩
      obtain ⟨tok, rfl, inside', token⟩ := token
      have first := token.first_inside
      obtain ⟨toks, rest⟩ := ih inside' (by omega)
      exact ⟨tok :: toks, .cons up blank token rest⟩

/-- A redirection: its operator and the name of the file. -/
structure Redirection where
  op : Token
  file : Token

def Redirection.tokens (r : Redirection) : List Token := [r.op, r.file]

def Redirection.Proper (r : Redirection) : Prop := r.op.ret ∈ [less, greater, plus] ∧ r.file.ret = word

def Redirection.apply (r : Redirection) (cmd : Cmd) : Cmd :=
  if r.op.ret = less then .redir cmd r.file.q r.file.eq O_RDONLY 0
  else .redir cmd r.file.q r.file.eq (O_WRONLY ||| O_CREATE) 1

def redirect (redirs : List Redirection) (cmd : Cmd) : Cmd := redirs.foldl (fun cmd r => r.apply cmd) cmd

/-- A part of a simple command: a word, or a redirection. -/
inductive Item where
  | word (w : Token)
  | redir (r : Redirection)

namespace Item

def tokens : Item → List Token
  | word w => [w]
  | redir r => r.tokens

def Proper : Item → Prop
  | word w => w.ret = Shell.word
  | redir r => r.Proper

def word? : Item → Option (Nat × Nat)
  | word w => some (w.q, w.eq)
  | redir _ => none

def redir? : Item → Option Redirection
  | word _ => none
  | redir r => some r

end Item

def words (items : List Item) : List (Nat × Nat) := items.filterMap Item.word?

def argvOf (args : List (Nat × Nat)) (i : Fin MAXARGS) : Option (Nat × Nat) := args[i.val]?

def simple (items : List Item) : Cmd := redirect (items.filterMap Item.redir?) (.exec (argvOf (words items)))

inductive Level where
  | exec
  | pipe
  | line

/-- The grammar of commands. A derivation uses each token once, in the order of the line. -/
inductive Derives : Level → List Token → Cmd → Prop
  | simple {items : List Item} (proper : ∀ item ∈ items, item.Proper) (short : (words items).length < MAXARGS) :
      Derives .exec (items.flatMap Item.tokens) (simple items)
  | block {t : List Token} {cmd : Cmd} {left right : Token} {redirs : List Redirection} (left_ret : left.ret = leftParen)
      (body : Derives .line t cmd) (right_ret : right.ret = rightParen) (proper : ∀ r ∈ redirs, r.Proper) :
      Derives .exec (left :: t ++ right :: redirs.flatMap Redirection.tokens) (redirect redirs cmd)
  | command {t : List Token} {cmd : Cmd} (only : Derives .exec t cmd) : Derives .pipe t cmd
  | pipe {t u : List Token} {left right : Cmd} {op : Token} (first : Derives .exec t left) (ret : op.ret = bar)
      (rest : Derives .pipe u right) : Derives .pipe (t ++ op :: u) (.pipe left right)
  | backs {t amps : List Token} {cmd : Cmd} (first : Derives .pipe t cmd) (ret : ∀ op ∈ amps, op.ret = ampersand) :
      Derives .line (t ++ amps) (Cmd.back^[amps.length] cmd)
  | list {t amps u : List Token} {left right : Cmd} {op : Token} (first : Derives .pipe t left)
      (ret : ∀ op ∈ amps, op.ret = ampersand) (op_ret : op.ret = semicolon) (rest : Derives .line u right) :
      Derives .line (t ++ amps ++ op :: u) (.list (Cmd.back^[amps.length] left) right)

end Xv6.Shell
