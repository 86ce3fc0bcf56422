import Xv6.Programs.Tokens

namespace Xv6.Shell

open Function Outcome

variable {line : Line} {s n argc : Nat} {tok : Token} {toks : List Token} {cmd : Cmd} {c : UInt8} {items : List Item}

/-- What the parser says about a line that it refuses. -/
def Refused (e : Fault) : Prop :=
  ∃ message ∈ ["syntax", "missing file for redirection", "too many args", "syntax - missing )"], e = .panic message

theorem refused_syntax : Refused (.panic "syntax") := ⟨_, by simp, rfl⟩

theorem ret_of_first (first : tok.first = c) (other : c ≠ greater) : tok.ret = c := by
  unfold Token.first at first
  split_ifs at first with two
  · exact absurd first.symm other
  · exact first

theorem Redirection.setArg_apply (r : Redirection) (i : Fin MAXARGS) (w : Option (Nat × Nat)) :
    (r.apply cmd).setArg i w = r.apply (cmd.setArg i w) := by
  unfold Redirection.apply
  split_ifs <;> rfl

theorem setArg_redirect (redirs : List Redirection) (i : Fin MAXARGS) (w : Option (Nat × Nat)) :
    (redirect redirs cmd).setArg i w = redirect redirs (cmd.setArg i w) := by
  induction redirs generalizing cmd with
  | nil => rfl
  | cons r redirs ih =>
    show (redirect redirs (r.apply cmd)).setArg i w = redirect redirs (r.apply (cmd.setArg i w))
    rw [ih, r.setArg_apply]

theorem redirect_append (redirs more : List Redirection) : redirect (redirs ++ more) cmd = redirect more (redirect redirs cmd) :=
  List.foldl_append

theorem argvOf_push {args : List (Nat × Nat)} (low : args.length < MAXARGS) (w : Nat × Nat) :
    update (argvOf args) ⟨args.length, low⟩ (some w) = argvOf (args ++ [w]) := by
  funext i
  unfold argvOf
  by_cases here : i = ⟨args.length, low⟩
  · subst here
    rw [update_self, List.getElem?_concat_length]
  · rw [update_of_ne here]
    have ne : i.val ≠ args.length := fun same => here (Fin.ext same)
    rcases Nat.lt_or_ge i.val args.length with before | behind
    · rw [List.getElem?_append_left before]
    · rw [List.getElem?_eq_none behind, List.getElem?_eq_none]
      rw [List.length_append, List.length_singleton]
      omega

theorem argvOf_end {args : List (Nat × Nat)} (low : args.length < MAXARGS) :
    update (argvOf args) ⟨args.length, low⟩ none = argvOf args := by
  rw [update_eq_self_iff]
  exact (List.getElem?_eq_none (Nat.le_refl _)).symm

theorem simple_word (low : (words items).length < MAXARGS) (w : Token) :
    (simple items).setArg ⟨(words items).length, low⟩ (some (w.q, w.eq)) = simple (items ++ [Item.word w]) := by
  have args : words (items ++ [Item.word w]) = words items ++ [(w.q, w.eq)] := List.filterMap_append
  have redirs : (items ++ [Item.word w]).filterMap Item.redir? = items.filterMap Item.redir? := by
    rw [List.filterMap_append]
    exact List.append_nil _
  unfold simple
  rw [setArg_redirect, args, redirs, ← argvOf_push low]
  rfl

theorem simple_end (low : (words items).length < MAXARGS) : (simple items).setArg ⟨(words items).length, low⟩ none = simple items := by
  unfold simple
  rw [setArg_redirect, Cmd.setArg, argvOf_end low]

theorem words_redirs (redirs : List Redirection) : words (items ++ redirs.map .redir) = words items := by
  unfold words
  rw [List.filterMap_append, List.filterMap_map]
  have none : redirs.filterMap (Item.word? ∘ Item.redir) = [] := by
    rw [List.filterMap_eq_nil_iff]
    exact fun _ _ => rfl
  rw [none, List.append_nil]

theorem simple_redirs (redirs : List Redirection) : simple (items ++ redirs.map .redir) = redirect redirs (simple items) := by
  have some : redirs.filterMap (Item.redir? ∘ Item.redir) = redirs := List.filterMap_some
  unfold simple
  rw [words_redirs, List.filterMap_append, List.filterMap_map, some, redirect_append]

theorem tokens_redirs (redirs : List Redirection) : (redirs.map Item.redir).flatMap Item.tokens = redirs.flatMap Redirection.tokens := by
  rw [List.flatMap_map]
  rfl

theorem ends_parseredirs (lexes : Lexes line s toks) (enough : toks.length < n) :
    Ends (parseredirs line n cmd) s (fun cmd' s' => ∃ redirs rest, toks = redirs.flatMap Redirection.tokens ++ rest ∧
      Lexes line s' rest ∧ (∀ r ∈ redirs, r.Proper) ∧ cmd' = redirect redirs cmd) Refused := by
  induction n generalizing s toks cmd with
  | zero => exact absurd enough (Nat.not_lt_zero _)
  | succ n ih =>
    unfold parseredirs
    rw [ends_bind]
    apply ends_peek lexes (by simp [symbols])
    · rintro op rest s₁ rfl first lexes₁
      rw [if_pos rfl, ends_bind]
      apply ends_gettoken lexes₁
      intro s₂ lexes₂
      dsimp only
      rw [ends_bind]
      cases rest with
      | nil =>
        apply ends_gettoken_end lexes₂
        intro s₃ _
        exact ⟨_, by simp, rfl⟩
      | cons file rest =>
        apply ends_gettoken lexes₂
        intro s₃ lexes₃
        dsimp only
        rw [ends_ite]
        constructor
        · intro _
          exact ⟨_, by simp, rfl⟩
        · intro is_word
          have is_word := not_not.mp is_word
          have op_ret : op.ret ∈ [less, greater, plus] := by
            unfold Token.first at first
            simp only [List.mem_cons, List.not_mem_nil, or_false] at first ⊢
            split_ifs at first with two
            · exact .inr (.inr two)
            · tauto
          have applied : (if op.ret = less then cmd.redir file.q file.eq O_RDONLY 0
              else if op.ret = greater then cmd.redir file.q file.eq (O_WRONLY ||| O_CREATE) 1
              else if op.ret = plus then cmd.redir file.q file.eq (O_WRONLY ||| O_CREATE) 1 else cmd) =
                Redirection.apply ⟨op, file⟩ cmd := by
            unfold Redirection.apply
            by_cases input : op.ret = less
            · rw [if_pos input, if_pos input]
            · rw [if_neg input, if_neg input]
              by_cases output : op.ret = greater
              · rw [if_pos output]
              · have two : op.ret = plus := by
                  simp only [List.mem_cons, List.not_mem_nil, or_false] at op_ret
                  tauto
                rw [if_neg output, if_pos two]
          rw [applied]
          apply (ih lexes₃ (by simp only [List.length_cons] at enough; omega)).weaken
          rintro cmd' s' ⟨redirs, left, rfl, lexes', proper, rfl⟩
          refine ⟨⟨op, file⟩ :: redirs, left, rfl, lexes', ?_, rfl⟩
          intro r member
          rcases List.mem_cons.mp member with rfl | member
          · exact ⟨op_ret, is_word⟩
          · exact proper r member
    · intro s₁ _ lexes₁
      refine ⟨[], toks, rfl, lexes₁, ?_, rfl⟩
      intro _ member
      cases member

theorem ends_parsebacks (lexes : Lexes line s toks) (enough : toks.length < n) :
    Ends (parsebacks line n cmd) s (fun cmd' s' => ∃ amps rest, toks = amps ++ rest ∧ Lexes line s' rest ∧
      (∀ op ∈ amps, op.ret = ampersand) ∧ cmd' = Cmd.back^[amps.length] cmd) Refused := by
  induction n generalizing s toks cmd with
  | zero => exact absurd enough (Nat.not_lt_zero _)
  | succ n ih =>
    unfold parsebacks
    rw [ends_bind]
    apply ends_peek lexes (by simp [symbols])
    · rintro op rest s₁ rfl first lexes₁
      have ret : op.ret = ampersand := ret_of_first (List.mem_singleton.mp first) (by decide)
      rw [if_pos rfl, ends_bind]
      apply ends_gettoken lexes₁
      intro s₂ lexes₂
      apply (ih lexes₂ (by rw [List.length_cons] at enough; omega)).weaken
      rintro cmd' s' ⟨amps, left, rfl, lexes', all, rfl⟩
      refine ⟨op :: amps, left, rfl, lexes', ?_, rfl⟩
      intro op' member
      rcases List.mem_cons.mp member with rfl | member
      · exact ret
      · exact all op' member
    · intro s₁ _ lexes₁
      refine ⟨[], toks, rfl, lexes₁, ?_, rfl⟩
      intro _ member
      cases member

theorem tok_ret_nonzero (lexes : Lexes line s (tok :: toks)) : tok.ret ≠ 0 := by
  cases lexes with
  | cons _ _ token _ =>
    rcases token with ⟨ret, _⟩ | ⟨ret, _⟩ | ⟨_, symbol, _⟩
    · rw [ret]
      decide
    · rw [ret]
      decide
    · intro zero
      rw [zero] at symbol
      exact absurd symbol (by decide)

theorem ends_setArg {s : Nat} (low : argc < MAXARGS) (w : Option (Nat × Nat)) {post : Cmd → Nat → Prop} {stop : Fault → Prop}
    (done : post (cmd.setArg ⟨argc, low⟩ w) s) : Ends (setArg cmd argc w) s post stop := by
  unfold setArg
  rw [dif_pos low]
  exact done

theorem ends_parseargs (lexes : Lexes line s toks) (enough : toks.length < n) (proper : ∀ item ∈ items, item.Proper)
    (short : (words items).length < MAXARGS) :
    Ends (parseargs line n (simple items) (words items).length) s (fun r s' => ∃ more rest,
      toks = more.flatMap Item.tokens ++ rest ∧ Lexes line s' rest ∧ (∀ item ∈ items ++ more, item.Proper) ∧
        (words (items ++ more)).length < MAXARGS ∧ r = (simple (items ++ more), (words (items ++ more)).length)) Refused := by
  induction n generalizing s toks items with
  | zero => exact absurd enough (Nat.not_lt_zero _)
  | succ n ih =>
    have stay : ∀ s', Lexes line s' toks → ∃ more rest, toks = more.flatMap Item.tokens ++ rest ∧ Lexes line s' rest ∧
        (∀ item ∈ items ++ more, item.Proper) ∧ (words (items ++ more)).length < MAXARGS ∧
          (simple items, (words items).length) = (simple (items ++ more), (words (items ++ more)).length) := by
      intro s' lexes'
      refine ⟨[], toks, rfl, lexes', ?_⟩
      rw [List.append_nil]
      exact ⟨proper, short, rfl⟩
    unfold parseargs
    rw [ends_bind]
    apply ends_peek lexes (by simp [symbols])
    · rintro op rest s₁ rfl _ lexes₁
      rw [if_pos rfl, ends_pure]
      exact stay s₁ lexes₁
    · intro s₁ _ lexes₁
      rw [if_neg Bool.false_ne_true, ends_bind]
      cases toks with
      | nil =>
        apply ends_gettoken_end lexes₁
        intro s₂ lexes₂
        exact stay s₂ lexes₂
      | cons w rest =>
        have nonzero := tok_ret_nonzero lexes
        apply ends_gettoken lexes₁
        intro s₂ lexes₂
        dsimp only
        rw [if_neg nonzero, ends_ite]
        constructor
        · intro _
          exact refused_syntax
        · intro is_word
          have is_word := not_not.mp is_word
          rw [ends_bind]
          apply ends_setArg short
          rw [simple_word short w, ends_ite]
          have count : (words (items ++ [Item.word w])).length = (words items).length + 1 := by
            unfold words
            rw [List.filterMap_append, List.length_append]
            rfl
          constructor
          · intro _
            exact ⟨_, by simp, rfl⟩
          · intro room
            rw [ends_bind]
            rw [List.length_cons] at enough
            apply (ends_parseredirs lexes₂ (by omega)).weaken
            rintro _ s₃ ⟨redirs, left, rfl, lexes₃, proper', rfl⟩
            rw [← simple_redirs, ← count, ← words_redirs redirs]
            rw [List.length_append] at enough
            have proper'' : ∀ item ∈ items ++ [Item.word w] ++ redirs.map .redir, item.Proper := by
              intro item member
              rw [List.append_assoc] at member
              rcases List.mem_append.mp member with member | member
              · exact proper item member
              · rcases List.mem_cons.mp member with rfl | member
                · exact is_word
                · obtain ⟨r, inside, rfl⟩ := List.mem_map.mp member
                  exact proper' r inside
            have short' : (words (items ++ [Item.word w] ++ redirs.map .redir)).length < MAXARGS := by
              rw [words_redirs, count]
              omega
            apply (ih lexes₃ (by omega) proper'' short').weaken
            rintro r s' ⟨more, rest', rfl, lexes', proper₃, short₃, rfl⟩
            refine ⟨Item.word w :: redirs.map .redir ++ more, rest', ?_, lexes', ?_⟩
            · rw [List.flatMap_append, List.flatMap_cons, tokens_redirs, List.append_assoc, List.append_assoc]
              rfl
            · have same : items ++ (Item.word w :: redirs.map .redir ++ more) = items ++ [Item.word w] ++ redirs.map .redir ++ more := by
                simp
              rw [same]
              exact ⟨proper₃, short₃, rfl⟩

/-- A parser has used the first of the tokens for a command. -/
def Result (line : Line) (level : Level) (toks : List Token) (cmd : Cmd) (s' : Nat) : Prop :=
  ∃ used rest, toks = used ++ rest ∧ Lexes line s' rest ∧ Derives level used cmd

theorem ends_parseexec_simple (lexes : Lexes line s toks) (enough : toks.length < n) :
    Ends (do
      let ret ← parseredirs line n (.exec fun _ => none)
      let (ret, argc) ← parseargs line n ret 0
      setArg ret argc none) s (Result line .exec toks) Refused := by
  rw [ends_bind]
  apply (ends_parseredirs lexes enough).weaken
  rintro _ s₁ ⟨redirs, left, rfl, lexes₁, proper, rfl⟩
  have begun : redirect redirs (.exec fun _ => none) = simple (redirs.map .redir) := by
    have all : simple ([] ++ redirs.map .redir) = redirect redirs (simple []) := simple_redirs redirs
    rw [List.nil_append] at all
    rw [all]
    rfl
  have none : (words (redirs.map Item.redir)).length = 0 := by
    have all : words ([] ++ redirs.map .redir) = words [] := words_redirs redirs
    rw [List.nil_append] at all
    rw [all]
    rfl
  have proper' : ∀ item ∈ redirs.map Item.redir, item.Proper := by
    intro item member
    obtain ⟨r, inside, rfl⟩ := List.mem_map.mp member
    exact proper r inside
  rw [List.length_append] at enough
  have short : (words (redirs.map Item.redir)).length < MAXARGS := by
    rw [none]
    decide
  have parsed := ends_parseargs lexes₁ (show left.length < n by omega) proper' short
  rw [none] at parsed
  rw [begun, ends_bind]
  apply parsed.weaken
  rintro _ s₂ ⟨more, rest, rfl, lexes₂, proper₂, short₂, rfl⟩
  apply ends_setArg short₂
  rw [simple_end short₂]
  refine ⟨_, rest, ?_, lexes₂, .simple proper₂ short₂⟩
  rw [List.flatMap_append, tokens_redirs, List.append_assoc]

/-- What the four parsers do, with enough fuel for the tokens that are left. -/
structure Parses (line : Line) (n : Nat) : Prop where
  lines : ∀ s toks, Lexes line s toks → 4 * toks.length + 4 ≤ n → Ends (parseline line n) s (Result line .line toks) Refused
  pipes : ∀ s toks, Lexes line s toks → 4 * toks.length + 3 ≤ n → Ends (parsepipe line n) s (Result line .pipe toks) Refused
  execs : ∀ s toks, Lexes line s toks → 4 * toks.length + 2 ≤ n → Ends (parseexec line n) s (Result line .exec toks) Refused
  blocks : ∀ s left toks, Lexes line s (left :: toks) → left.ret = leftParen → 4 * toks.length + 5 ≤ n →
    Ends (parseblock line n) s (Result line .exec (left :: toks)) Refused

namespace Parses

theorem parsepipe (parses : Parses line n) (lexes : Lexes line s toks) (enough : 4 * toks.length + 3 ≤ n + 1) :
    Ends (Shell.parsepipe line (n + 1)) s (Result line .pipe toks) Refused := by
  rw [Shell.parsepipe, ends_bind]
  apply (parses.execs s toks lexes (by omega)).weaken
  rintro cmd s₁ ⟨used, rest, rfl, lexes₁, derived⟩
  rw [ends_bind]
  apply ends_peek lexes₁ (by simp [symbols])
  · rintro op rest s₂ rfl first lexes₂
    have ret : op.ret = bar := ret_of_first (List.mem_singleton.mp first) (by decide)
    rw [List.length_append, List.length_cons] at enough
    rw [if_pos rfl, ends_bind]
    apply ends_gettoken lexes₂
    intro s₃ lexes₃
    rw [ends_bind]
    apply (parses.pipes s₃ rest lexes₃ (by omega)).weaken
    rintro right s₄ ⟨used', rest', rfl, lexes₄, derived'⟩
    refine ⟨used ++ op :: used', rest', ?_, lexes₄, .pipe derived ret derived'⟩
    rw [List.append_assoc]
    rfl
  · intro s₂ _ lexes₂
    exact ⟨used, rest, rfl, lexes₂, .command derived⟩

theorem parseline (parses : Parses line n) (lexes : Lexes line s toks) (enough : 4 * toks.length + 4 ≤ n + 1) :
    Ends (Shell.parseline line (n + 1)) s (Result line .line toks) Refused := by
  rw [Shell.parseline, ends_bind]
  apply (parses.pipes s toks lexes (by omega)).weaken
  rintro cmd s₁ ⟨used, rest, rfl, lexes₁, derived⟩
  rw [List.length_append] at enough
  rw [ends_bind]
  apply (ends_parsebacks lexes₁ (by omega)).weaken
  rintro _ s₂ ⟨amps, rest, rfl, lexes₂, all, rfl⟩
  rw [ends_bind]
  apply ends_peek lexes₂ (by simp [symbols])
  · rintro op rest s₃ rfl first lexes₃
    have ret : op.ret = semicolon := ret_of_first (List.mem_singleton.mp first) (by decide)
    rw [List.length_append, List.length_cons] at enough
    rw [if_pos rfl, ends_bind]
    apply ends_gettoken lexes₃
    intro s₄ lexes₄
    rw [ends_bind]
    apply (parses.lines s₄ rest lexes₄ (by omega)).weaken
    rintro right s₅ ⟨used', rest', rfl, lexes₅, derived'⟩
    refine ⟨used ++ amps ++ op :: used', rest', ?_, lexes₅, .list derived all ret derived'⟩
    simp
  · intro s₃ _ lexes₃
    refine ⟨used ++ amps, rest, ?_, lexes₃, .backs derived all⟩
    rw [List.append_assoc]

theorem parseblock (parses : Parses line n) {left : Token} (lexes : Lexes line s (left :: toks)) (left_ret : left.ret = leftParen)
    (enough : 4 * toks.length + 5 ≤ n + 1) : Ends (Shell.parseblock line (n + 1)) s (Result line .exec (left :: toks)) Refused := by
  rw [Shell.parseblock, ends_bind]
  apply ends_peek lexes (by simp [symbols])
  · rintro op rest s₁ ⟨rfl⟩ _ lexes₁
    rw [if_neg (by decide), ends_bind]
    apply ends_gettoken lexes₁
    intro s₂ lexes₂
    rw [ends_bind]
    apply (parses.lines s₂ toks lexes₂ (by omega)).weaken
    rintro cmd s₃ ⟨used, rest, rfl, lexes₃, derived⟩
    rw [ends_bind]
    apply ends_peek lexes₃ (by simp [symbols])
    · rintro right rest s₄ rfl first lexes₄
      have right_ret : right.ret = rightParen := ret_of_first (List.mem_singleton.mp first) (by decide)
      rw [List.length_append, List.length_cons] at enough
      rw [if_neg (by decide), ends_bind]
      apply ends_gettoken lexes₄
      intro s₅ lexes₅
      apply (ends_parseredirs lexes₅ (by omega)).weaken
      rintro _ s₆ ⟨redirs, rest', rfl, lexes₆, proper, rfl⟩
      refine ⟨left :: used ++ right :: redirs.flatMap Redirection.tokens, rest', ?_, lexes₆,
        .block left_ret derived right_ret proper⟩
      simp
    · intro s₄ _ _
      rw [if_pos (by decide)]
      exact ⟨_, by simp, rfl⟩
  · intro s₁ other _
    have first : left.first = leftParen := by
      unfold Token.first
      rw [left_ret, if_neg (by decide)]
    exact absurd (by simp [first]) (other left toks rfl)

theorem parseexec (parses : Parses line n) (lexes : Lexes line s toks) (enough : 4 * toks.length + 2 ≤ n + 1) :
    Ends (Shell.parseexec line (n + 1)) s (Result line .exec toks) Refused := by
  rw [Shell.parseexec, ends_bind]
  apply ends_peek lexes (by simp [symbols])
  · rintro left rest s₁ rfl first lexes₁
    have ret : left.ret = leftParen := ret_of_first (List.mem_singleton.mp first) (by decide)
    rw [List.length_cons] at enough
    rw [if_pos rfl]
    exact parses.blocks s₁ left rest lexes₁ ret (by omega)
  · intro s₁ _ lexes₁
    rw [if_neg Bool.false_ne_true]
    exact ends_parseexec_simple lexes₁ (by omega)

theorem all (n : Nat) : Parses line n := by
  induction n with
  | zero =>
    constructor
    · intro _ _ _ enough
      omega
    · intro _ _ _ enough
      omega
    · intro _ _ _ enough
      omega
    · intro _ _ _ _ _ enough
      omega
  | succ n ih =>
    constructor
    · exact fun s toks lexes enough => ih.parseline lexes enough
    · exact fun s toks lexes enough => ih.parsepipe lexes enough
    · exact fun s toks lexes enough => ih.parseexec lexes enough
    · exact fun s left toks lexes ret enough => ih.parseblock lexes ret enough

end Parses

end Xv6.Shell
