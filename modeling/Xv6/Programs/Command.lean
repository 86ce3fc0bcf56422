import Xv6.Programs.Parser

namespace Xv6.Shell

open Function Outcome

variable {line : Line} {text : Nat → UInt8} {s k : Nat} {cmd : Cmd} {toks : List Token} {args ws : List (Nat × Nat)}

/-- The arguments and file names that a command holds. -/
def Cmd.words : Cmd → List (Nat × Nat)
  | exec argv => (List.finRange MAXARGS).filterMap argv
  | redir cmd file efile _ _ => cmd.words ++ [(file, efile)]
  | pipe left right => left.words ++ right.words
  | list left right => left.words ++ right.words
  | back cmd => cmd.words

def wordsOf (toks : List Token) : List (Nat × Nat) := (toks.filter fun tok => tok.ret = word).map fun tok => (tok.q, tok.eq)

def cut (ws : List (Nat × Nat)) (text : Nat → UInt8) : Nat → UInt8 := ws.foldl (fun text w => update text w.2 0) text

def Line.chars (line : Line) (w : Nat × Nat) : List UInt8 := (List.range (w.2 - w.1)).map fun i => line.text (w.1 + i)

def CString (text : Nat → UInt8) (q : Nat) (chars : List UInt8) : Prop :=
  0 ∉ chars ∧ (∀ i, i < chars.length → chars[i]? = some (text (q + i))) ∧ text (q + chars.length) = 0

theorem wordsOf_append (toks more : List Token) : wordsOf (toks ++ more) = wordsOf toks ++ wordsOf more := by
  unfold wordsOf
  rw [List.filter_append, List.map_append]

theorem wordsOf_operator {tok : Token} (operator : tok.ret ≠ word) : wordsOf (tok :: toks) = wordsOf toks := by
  unfold wordsOf
  rw [List.filter_cons_of_neg]
  simpa using operator

theorem wordsOf_word {tok : Token} (ret : tok.ret = word) : wordsOf (tok :: toks) = (tok.q, tok.eq) :: wordsOf toks := by
  unfold wordsOf
  rw [List.filter_cons_of_pos (by simpa using ret)]
  rfl

theorem wordsOf_operators (operators : ∀ tok ∈ toks, tok.ret ≠ word) : wordsOf toks = [] := by
  unfold wordsOf
  rw [List.map_eq_nil_iff, List.filter_eq_nil_iff]
  simpa using operators

theorem cut_append (more : List (Nat × Nat)) : cut (ws ++ more) text = cut more (cut ws text) := List.foldl_append

theorem drop_finRange (low : k < MAXARGS) : (List.finRange MAXARGS).drop k = ⟨k, low⟩ :: (List.finRange MAXARGS).drop (k + 1) := by
  rw [List.drop_eq_getElem_cons (by rw [List.length_finRange]; exact low), List.getElem_finRange]
  rfl

theorem argvOf_words (low : k ≤ MAXARGS) (short : args.length ≤ MAXARGS) :
    ((List.finRange MAXARGS).drop k).filterMap (argvOf args) = args.drop k := by
  induction low using Nat.decreasingInduction with
  | self =>
    rw [List.drop_of_length_le (by rw [List.length_finRange]), List.drop_of_length_le short]
    rfl
  | of_succ k low ih =>
    rw [drop_finRange low]
    rcases Nat.lt_or_ge k args.length with inside | behind
    · rw [List.filterMap_cons_some (show argvOf args ⟨k, low⟩ = some args[k] from List.getElem?_eq_getElem inside), ih,
        List.drop_eq_getElem_cons inside]
    · rw [List.filterMap_cons_none (show argvOf args ⟨k, low⟩ = none from List.getElem?_eq_none behind), ih,
        List.drop_of_length_le behind, List.drop_of_length_le (by omega)]

theorem nulArgs_argvOf (low : k ≤ args.length) (short : args.length < MAXARGS) :
    nulArgs (argvOf args) ((List.finRange MAXARGS).drop k) text = .ok (cut (args.drop k) text) := by
  induction low using Nat.decreasingInduction generalizing text with
  | self =>
    rw [drop_finRange short, nulArgs, show argvOf args ⟨args.length, short⟩ = none from List.getElem?_eq_none (Nat.le_refl _),
      List.drop_length]
    rfl
  | of_succ k low ih =>
    rw [drop_finRange (Nat.lt_trans low short), nulArgs,
      show argvOf args ⟨k, Nat.lt_trans low short⟩ = some args[k] from List.getElem?_eq_getElem low, List.drop_eq_getElem_cons low]
    exact ih

/-- What the rest of the proofs needs of a command: its words, and what `nulterminate` does with them. -/
structure Terminates (cmd : Cmd) (words : List (Nat × Nat)) : Prop where
  words : cmd.words.Perm words
  ends : ∀ text, nulterminate cmd text = .ok (cut cmd.words text)

namespace Terminates

theorem exec (short : args.length < MAXARGS) : Terminates (.exec (argvOf args)) args := by
  have all : (Cmd.exec (argvOf args)).words = args := argvOf_words (Nat.zero_le _) (Nat.le_of_lt short)
  constructor
  · rw [all]
  · intro text
    rw [all]
    exact nulArgs_argvOf (Nat.zero_le _) short

theorem apply (terminates : Terminates cmd ws) (r : Redirection) : Terminates (r.apply cmd) (ws ++ [(r.file.q, r.file.eq)]) := by
  have both : ∀ mode fd, Terminates (.redir cmd r.file.q r.file.eq mode fd) (ws ++ [(r.file.q, r.file.eq)]) := by
    intro mode fd
    constructor
    · exact terminates.words.append_right _
    · intro text
      rw [nulterminate, terminates.ends text]
      show Except.ok _ = Except.ok (cut (cmd.words ++ _) text)
      rw [cut_append]
      rfl
  unfold Redirection.apply
  split_ifs
  · exact both _ _
  · exact both _ _

theorem redirect (terminates : Terminates cmd ws) (redirs : List Redirection) :
    Terminates (Shell.redirect redirs cmd) (ws ++ redirs.map fun r => (r.file.q, r.file.eq)) := by
  induction redirs generalizing cmd ws with
  | nil =>
    rw [List.map_nil, List.append_nil]
    exact terminates
  | cons r redirs ih =>
    have first := ih (terminates.apply r)
    rw [List.append_assoc] at first
    exact first

theorem perm (terminates : Terminates cmd ws) {ws' : List (Nat × Nat)} (perm : ws.Perm ws') : Terminates cmd ws' :=
  ⟨terminates.words.trans perm, terminates.ends⟩

end Terminates

theorem wordsOf_redirs {redirs : List Redirection} (proper : ∀ r ∈ redirs, r.Proper) :
    wordsOf (redirs.flatMap Redirection.tokens) = redirs.map fun r => (r.file.q, r.file.eq) := by
  induction redirs with
  | nil => rfl
  | cons r redirs ih =>
    obtain ⟨operator, ret⟩ := proper r (List.mem_cons_self ..)
    have other : r.op.ret ≠ word := by
      intro same
      rw [same] at operator
      exact absurd operator (by decide)
    rw [List.flatMap_cons, Redirection.tokens, List.cons_append, wordsOf_operator other, List.cons_append, wordsOf_word ret,
      List.nil_append, ih fun r member => proper r (List.mem_cons_of_mem _ member)]
    rfl

theorem wordsOf_items {items : List Item} (proper : ∀ item ∈ items, item.Proper) :
    (words items ++ (items.filterMap Item.redir?).map fun r => (r.file.q, r.file.eq)).Perm (wordsOf (items.flatMap Item.tokens)) := by
  induction items with
  | nil => exact .nil
  | cons item items ih =>
    have here := proper item (List.mem_cons_self ..)
    have ih := ih fun item member => proper item (List.mem_cons_of_mem _ member)
    cases item with
    | word w =>
      rw [List.flatMap_cons, Item.tokens, List.cons_append, wordsOf_word here]
      exact ih.cons _
    | redir r =>
      rw [List.flatMap_cons, Item.tokens, wordsOf_append]
      have file : wordsOf r.tokens = [(r.file.q, r.file.eq)] := by
        have only : ∀ r' ∈ [r], r'.Proper := fun r' member => List.mem_singleton.mp member ▸ here
        have one := wordsOf_redirs only
        rwa [List.flatMap_singleton] at one
      rw [file]
      exact List.perm_middle.trans (ih.cons _)

namespace Terminates

variable {t u amps : List Token} {left right : Cmd} {op : Token}

theorem backs (terminates : Terminates cmd (wordsOf t)) (ret : ∀ op ∈ amps, op.ret = ampersand) :
    Terminates (Cmd.back^[amps.length] cmd) (wordsOf (t ++ amps)) := by
  have operators : ∀ op ∈ amps, op.ret ≠ word := by
    intro op member
    rw [ret op member]
    decide
  have back : ∀ n (cmd : Cmd), Terminates cmd (wordsOf t) → Terminates (Cmd.back^[n] cmd) (wordsOf t) := by
    intro n
    induction n with
    | zero => exact fun _ terminates => terminates
    | succ n ih => exact fun cmd terminates => ih (.back cmd) ⟨terminates.words, terminates.ends⟩
  rw [wordsOf_append, wordsOf_operators operators, List.append_nil]
  exact back amps.length cmd terminates

theorem both (first : Terminates left (wordsOf t)) (rest : Terminates right (wordsOf u)) (operator : op.ret ≠ word) :
    Terminates (.pipe left right) (wordsOf (t ++ op :: u)) ∧ Terminates (.list left right) (wordsOf (t ++ op :: u)) := by
  have words : (left.words ++ right.words).Perm (wordsOf (t ++ op :: u)) := by
    rw [wordsOf_append, wordsOf_operator operator]
    exact first.words.append rest.words
  have ends : ∀ text, (nulterminate left text).bind (nulterminate right) = .ok (cut (left.words ++ right.words) text) := by
    intro text
    rw [first.ends text, cut_append]
    exact rest.ends _
  exact ⟨⟨words, ends⟩, ⟨words, ends⟩⟩

end Terminates

/-- A command holds the words of its derivation, and `nulterminate` ends each of them. -/
theorem Derives.terminates {level : Level} (derives : Derives level toks cmd) : Terminates cmd (wordsOf toks) := by
  induction derives with
  | simple proper short => exact ((Terminates.exec short).redirect _).perm (wordsOf_items proper)
  | block left_ret _ right_ret proper ih =>
    rw [List.cons_append, wordsOf_operator (by rw [left_ret]; decide), wordsOf_append, wordsOf_operator (by rw [right_ret]; decide),
      wordsOf_redirs proper]
    exact ih.redirect _
  | command _ ih => exact ih
  | pipe _ ret _ first rest => exact (first.both rest (by rw [ret]; decide)).1
  | backs _ ret ih => exact ih.backs ret
  | list _ ret op_ret _ first rest => exact ((first.backs ret).both rest (by rw [op_ret]; decide)).2

/-- Two words of a line, where the one ends and where the other begins and ends. -/
theorem Lexes.word_spec (lexes : Lexes line s toks) {w : Nat × Nat} (member : w ∈ wordsOf toks) :
    w.1 < w.2 ∧ w.2 ≤ line.es ∧ (∀ i, w.1 ≤ i → i < w.2 → isWord (line.text i) = true) ∧
      (w.2 = line.es ∨ isWord (line.text w.2) = false) := by
  induction lexes with
  | nil => cases member
  | @cons _ tok toks _ _ token _ ih =>
    by_cases here : tok.ret = word
    · rw [wordsOf_word here] at member
      rcases List.mem_cons.mp member with rfl | member
      · rcases token with ⟨_, spec⟩ | ⟨ret, _⟩ | ⟨_, symbol, _⟩
        · exact spec
        · rw [here] at ret
          exact absurd ret (by decide)
        · rw [here] at symbol
          exact absurd symbol (by decide)
      · exact ih member
    · rw [wordsOf_operator here] at member
      exact ih member

theorem cut_apply (i : Nat) : cut ws text i = if ∃ w ∈ ws, w.2 = i then 0 else text i := by
  induction ws generalizing text with
  | nil => simp [cut]
  | cons w ws ih =>
    show cut ws (update text w.2 0) i = _
    rw [ih]
    by_cases here : w.2 = i
    · subst here
      simp
    · have same : (∃ w' ∈ w :: ws, w'.2 = i) ↔ ∃ w' ∈ ws, w'.2 = i := by
        rw [List.exists_mem_cons_iff]
        exact or_iff_right here
      rw [update_of_ne (Ne.symm here)]
      exact if_congr same.symm rfl rfl

theorem cut_string (lexes : Lexes line s toks) (all : ∀ w, w ∈ ws ↔ w ∈ wordsOf toks) {w : Nat × Nat} (member : w ∈ ws) :
    CString (cut ws line.text) w.1 (line.chars w) := by
  obtain ⟨up, inside, chars, _⟩ := lexes.word_spec ((all w).mp member)
  have length : (line.chars w).length = w.2 - w.1 := by
    unfold Line.chars
    rw [List.length_map, List.length_range]
  have kept : ∀ i, w.1 ≤ i → i < w.2 → cut ws line.text i = line.text i := by
    intro i low high
    rw [cut_apply, if_neg]
    rintro ⟨w', member', rfl⟩
    obtain ⟨_, _, _, last⟩ := lexes.word_spec ((all w').mp member')
    rcases last with bad | bad
    · omega
    · rw [chars w'.2 low high] at bad
      cases bad
  refine ⟨?_, ?_, ?_⟩
  · intro zero
    obtain ⟨i, low, eq⟩ := List.mem_map.mp zero
    rw [List.mem_range] at low
    exact line.inside (w.1 + i) (by omega) eq
  · intro i low
    rw [length] at low
    rw [kept (w.1 + i) (by omega) (by omega)]
    unfold Line.chars
    rw [List.getElem?_map, List.getElem?_range low]
    rfl
  · rw [length, Nat.add_sub_cancel' (Nat.le_of_lt up), cut_apply, if_pos ⟨w, member, rfl⟩]

theorem ends_peek_nothing (lexes : Lexes line s toks) {post : Bool → Nat → Prop} {stop : Fault → Prop}
    (done : post false (skip line isSpace s)) : Ends (peek line []) s post stop := by
  unfold peek
  rw [ends_bind, ends_get]
  dsimp only
  rw [ends_bind]
  apply ends_move (skip_spec lexes.low).2.1
  simpa using done

/-- Every line is refused, or all of it is a command whose words are the strings of the line. -/
theorem parsecmd_exact (line : Line) : (∃ e, parsecmd line = .error e ∧ Refused e) ∨
    ∃ cmd text toks, parsecmd line = .ok (cmd, text) ∧ Lexes line 0 toks ∧ Derives .line toks cmd ∧
      cmd.words.Perm (wordsOf toks) ∧ ∀ w ∈ cmd.words, CString text w.1 (line.chars w) := by
  obtain ⟨toks, lexes⟩ := exists_lexes (Nat.zero_le line.es)
  have enough := lexes.length_le
  have parsed : Ends (do
      let cmd ← parseline line (4 * line.es + 4)
      let _ ← peek line []
      return cmd : Parser Cmd) 0 (fun cmd s => s = line.es → Derives .line toks cmd) Refused := by
    rw [ends_bind]
    apply ((Parses.all (4 * line.es + 4)).lines 0 toks lexes (by omega)).weaken
    rintro cmd s ⟨used, rest, rfl, lexes', derives⟩
    rw [ends_bind]
    apply ends_peek_nothing lexes'
    rw [ends_pure]
    intro ended
    cases rest with
    | nil =>
      rw [List.append_nil]
      exact derives
    | cons tok rest =>
      have inside := lexes'.inside
      rw [lexes'.skip_eq] at ended
      cases lexes' with
      | cons _ _ token _ =>
        have := token.first_inside
        omega
  unfold parsecmd
  cases ran : (do
      let cmd ← parseline line (4 * line.es + 4)
      let _ ← peek line []
      return cmd : Parser Cmd) 0 with
  | error e => exact .inl ⟨e, rfl, parsed.error ran⟩
  | ok r =>
    obtain ⟨cmd, s⟩ := r
    have derives := parsed.ok ran
    by_cases ended : s = line.es
    · have terminates := (derives ended).terminates
      refine .inr ⟨cmd, cut cmd.words line.text, toks, ?_, lexes, derives ended, terminates.words, fun w => cut_string lexes
        fun w => terminates.words.mem_iff⟩
      simp [bind, Except.bind, ended, terminates.ends, pure, Except.pure]
    · refine .inl ⟨_, ?_, refused_syntax⟩
      simp [bind, Except.bind, ended, throw, throwThe, MonadExceptOf.throw]

end Xv6.Shell
