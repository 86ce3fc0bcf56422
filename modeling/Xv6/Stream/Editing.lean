import Xv6.Stream.Console

namespace Xv6.Stream

open Function Ring Transition

/-- The ring holds the committed bytes that are not read yet, and then the line that is edited. -/
structure Input.Shows (input : Input) (l : Lines) : Prop where
  held : Holds input.buf input.r (l.committed ++ l.line)
  written : input.w = input.r + BitVec.ofNat 32 l.committed.length
  edited : input.e = input.r + BitVec.ofNat 32 (l.committed ++ l.line).length
  plain : newline ∉ l.line

theorem Input.divides : INPUT_BUF ∣ 2 ^ 32 := by decide

theorem Input.small : INPUT_BUF < 2 ^ 32 := by decide

namespace Input.Shows

variable {input : Input} {l : Lines} {c : UInt8} {unread line : List UInt8}

theorem unread_held (held : input.Shows l) : Holds input.buf input.r l.committed := held.held.front

theorem written_distance (held : input.Shows l) : (input.w - input.r).toNat = l.committed.length :=
  held.unread_held.distance small held.written

theorem edited_distance (held : input.Shows l) : (input.e - input.r).toNat = l.committed.length + l.line.length := by
  rw [held.held.distance small held.edited, List.length_append]

theorem line_distance (held : input.Shows l) : (input.e - input.w).toNat = l.line.length := by
  have fits := held.held.lt_turn small
  have far : input.e - input.w = BitVec.ofNat 32 l.line.length := by
    rw [held.edited, held.written, List.length_append, BitVec.ofNat_add, ← BitVec.add_assoc, BitVec.add_comm,
      BitVec.add_sub_cancel]
  rw [far, BitVec.toNat_ofNat]
  rw [List.length_append] at fits
  exact Nat.mod_eq_of_lt (by omega)

theorem edited_iff (held : input.Shows l) : input.e = input.w ↔ l.line = [] := by
  have far := held.line_distance
  constructor
  · intro same
    rw [same, BitVec.sub_self] at far
    exact List.length_eq_zero_iff.mp far.symm
  · intro none
    rw [held.edited, held.written, none, List.append_nil]

theorem empty_iff (held : input.Shows l) : input.r = input.w ↔ l.committed = [] :=
  held.unread_held.empty_iff small held.written

theorem erase (held : input.Shows ⟨unread, line ++ [c]⟩) :
    ({ input with e := input.e - 1 } : Input).Shows ⟨unread, line⟩ := by
  have split : unread ++ (line ++ [c]) = (unread ++ line) ++ [c] := (List.append_assoc ..).symm
  constructor
  · have all := held.held
    rw [split] at all
    exact all.front
  · exact held.written
  · dsimp only
    rw [held.edited, split, List.length_append, BitVec.ofNat_add, ← BitVec.add_assoc]
    exact BitVec.add_sub_cancel ..
  · exact fun here => held.plain (List.mem_append_left _ here)

theorem last (held : input.Shows ⟨unread, line ++ [c]⟩) : input.buf (slot INPUT_BUF (input.e - 1)) = c := by
  have all := held.held
  have ends := held.edited
  rw [← List.append_assoc] at all ends
  exact all.last ends

theorem killLine {fuel : Nat} (held : input.Shows ⟨unread, line⟩) (length : line.length = fuel) :
    (input.killLine fuel).Shows ⟨unread, []⟩ := by
  induction fuel generalizing input line with
  | zero =>
    rw [List.length_eq_zero_iff] at length
    rwa [length] at held
  | succ fuel ih =>
    have some : line ≠ [] := List.ne_nil_of_length_pos (by omega)
    obtain ⟨start, c, rfl⟩ : ∃ start c, line = start ++ [c] := ⟨_, _, (List.dropLast_append_getLast some).symm⟩
    rw [Input.killLine, if_pos]
    · exact ih held.erase (by rw [List.length_append] at length; exact Nat.succ.inj length)
    · constructor
      · exact fun same => some (held.edited_iff.mp same)
      · rw [held.last]
        exact fun eq => held.plain (eq ▸ List.mem_append_right _ (List.mem_singleton_self c))

theorem push (held : input.Shows ⟨unread, line⟩) (room : (input.e - input.r).toNat < INPUT_BUF) (c : UInt8) :
    let buf := update input.buf (slot INPUT_BUF input.e) c
    (c ≠ newline → Input.Shows ⟨buf, input.r, input.w, input.e + 1⟩ ⟨unread, line ++ [c]⟩) ∧
      Input.Shows ⟨buf, input.r, input.e + 1, input.e + 1⟩ ⟨unread ++ (line ++ [c]), []⟩ := by
  rw [held.edited_distance] at room
  have all := held.held.push divides (by rwa [List.length_append]) held.edited c
  rw [List.append_assoc] at all
  have ends : input.e + 1 = input.r + BitVec.ofNat 32 (unread ++ (line ++ [c])).length := by
    have length : (unread ++ (line ++ [c])).length = (unread ++ line).length + 1 := by
      simp only [List.length_append, List.length_singleton, Nat.add_assoc]
    rw [held.edited, length, BitVec.ofNat_add, BitVec.add_assoc]
    rfl
  constructor
  · intro other
    refine ⟨all, held.written, ends, ?_⟩
    rw [List.mem_append, List.mem_singleton]
    rintro (old | new)
    · exact held.plain old
    · exact other new.symm
  · constructor
    · rw [List.append_nil]
      exact all
    · exact ends
    · rw [List.append_nil]
      exact ends
    · exact List.not_mem_nil

theorem put (held : input.Shows l) (room : (input.e - input.r).toNat < INPUT_BUF) (nonzero : c ≠ 0) :
    (input.put c).Shows (l.edit (.type (if c = 13 then newline else c)
      (decide (input.e + 1 = input.r + BitVec.ofNat 32 INPUT_BUF)))) := by
  rw [Input.put, if_pos ⟨nonzero, room⟩]
  dsimp only [Lines.edit]
  generalize (if c = 13 then newline else c) = c
  obtain ⟨open', closed⟩ := held.push room c
  by_cases commit : c = newline ∨ c = C 'D' ∨ input.e + 1 = input.r + BitVec.ofNat 32 INPUT_BUF
  · rw [if_pos commit, if_pos (by rwa [decide_eq_true_eq])]
    exact closed
  · rw [if_neg commit, if_neg (by rwa [decide_eq_true_eq])]
    exact open' fun eq => commit (.inl eq)

theorem key (held : input.Shows l) (c : UInt8) : (input.key c).Shows ((input.accepts c).toList.foldl Lines.edit l) := by
  rw [Input.key, Input.accepts]
  by_cases listing : c = C 'P'
  · rw [if_pos listing, if_pos listing]
    exact held
  · rw [if_neg listing, if_neg listing]
    by_cases kill : c = C 'U'
    · rw [if_pos kill, if_pos kill, held.line_distance]
      exact held.killLine rfl
    · rw [if_neg kill, if_neg kill]
      by_cases erase : c = C 'H' ∨ c = 127
      · rw [if_pos erase, if_pos erase]
        by_cases none : l.line = []
        · rw [if_neg (not_not.mpr (held.edited_iff.mpr none))]
          show input.Shows ⟨l.committed, l.line.dropLast⟩
          rw [none, List.dropLast_nil, ← none]
          exact held
        · rw [if_pos fun same => none (held.edited_iff.mp same)]
          have split : l = ⟨l.committed, l.line.dropLast ++ [l.line.getLast none]⟩ := by
            rw [List.dropLast_append_getLast]
          rw [split] at held
          exact held.erase
      · rw [if_neg erase, if_neg erase]
        by_cases accepted : c ≠ 0 ∧ (input.e - input.r).toNat < INPUT_BUF
        · rw [if_pos accepted]
          exact held.put accepted.2 accepted.1
        · rw [if_neg accepted, Input.put, if_neg accepted]
          exact held

theorem consoleintr (held : input.Shows l) (chars : List UInt8) :
    (Stream.consoleintr input chars).Shows ((input.keys chars).foldl Lines.edit l) := by
  induction chars generalizing input l with
  | nil => exact held
  | cons c chars ih =>
    rw [Input.keys, List.foldl_append]
    exact ih (held.key c)

theorem first (held : input.Shows ⟨c :: unread, line⟩) : input.buf (slot INPUT_BUF input.r) = c := held.held.head

theorem take (held : input.Shows ⟨c :: unread, line⟩) : ({ input with r := input.r + 1 } : Input).Shows ⟨unread, line⟩ where
  held := held.held.pop
  written := by
    dsimp only
    rw [held.written, List.length_cons, Nat.add_comm, BitVec.ofNat_add, BitVec.add_assoc]
    rfl
  edited := by
    dsimp only
    rw [held.edited, List.cons_append, List.length_cons, Nat.add_comm, BitVec.ofNat_add, BitVec.add_assoc]
    rfl
  plain := held.plain

theorem consoleread {killed : Bool} {target n : Nat} (held : input.Shows ⟨unread, line⟩) :
    ∃ rest, (consoleread killed target n input).input.Shows ⟨rest, line⟩ ∧
      (Stream.consoleread killed target n input).taken ++ rest = unread ∧
      (Stream.consoleread killed target n input).delivered =
        (Stream.consoleread killed target n input).taken.filter (· ≠ C 'D') := by
  induction n generalizing input unread with
  | zero => exact ⟨unread, held, rfl, rfl⟩
  | succ n ih =>
    rw [Stream.consoleread]
    cases unread with
    | nil =>
      rw [if_pos (held.empty_iff.mpr rfl)]
      split
      · exact ⟨[], held, rfl, rfl⟩
      · exact ⟨[], held, rfl, rfl⟩
    | cons c unread =>
      rw [if_neg fun same => List.cons_ne_nil c unread (held.empty_iff.mp same), held.first]
      dsimp only
      by_cases eof : c = C 'D'
      · rw [if_pos eof]
        split
        · rw [BitVec.add_sub_cancel]
          exact ⟨c :: unread, held, rfl, rfl⟩
        · exact ⟨unread, held.take, rfl, by rw [eof]; rfl⟩
      · have kept : ∀ l : List UInt8, (c :: l).filter (· ≠ C 'D') = c :: l.filter (· ≠ C 'D') :=
          fun l => List.filter_cons_of_pos (decide_eq_true eof)
        rw [if_neg eof]
        split
        · exact ⟨unread, held.take, rfl, (kept []).symm⟩
        · obtain ⟨rest, shows', split, eq⟩ := ih held.take
          refine ⟨rest, shows', ?_, ?_⟩
          · rw [List.cons_append, split]
          · exact (congrArg (c :: ·) eq).trans (kept _).symm

theorem meets_eof {killed : Bool} {target n : Nat} {chars rest : List UInt8}
    (held : input.Shows ⟨chars ++ C 'D' :: rest, line⟩) (plain : ∀ c ∈ chars, c ≠ C 'D' ∧ c ≠ newline)
    (low : chars.length < n) (asked : n ≤ target) :
    let reading := Stream.consoleread killed target n input
    reading.asleep = none ∧ reading.value = target - n + chars.length ∧ reading.delivered = chars ∧
      reading.input.r = input.r + BitVec.ofNat 32 (chars.length + if reading.value = 0 then 1 else 0) := by
  induction chars generalizing input n with
  | nil =>
    obtain ⟨n, rfl⟩ : ∃ m, n = m + 1 := ⟨n - 1, by rw [List.length_nil] at low; omega⟩
    dsimp only
    rw [Stream.consoleread, if_neg fun same => List.cons_ne_nil _ _ (held.empty_iff.mp same), held.first, if_pos rfl]
    by_cases data : n + 1 < target
    · rw [if_pos data]
      refine ⟨rfl, ?_, rfl, ?_⟩
      · simp
      · have some : (target : Int) - (n + 1 : Nat) ≠ 0 := by omega
        rw [if_neg some, List.length_nil, BitVec.add_zero]
        exact BitVec.add_sub_cancel ..
    · rw [if_neg data]
      refine ⟨rfl, ?_, rfl, ?_⟩
      · simp
      · have zero : (target : Int) - (n + 1 : Nat) = 0 := by omega
        rw [if_pos zero]
        simp
  | cons c chars ih =>
    obtain ⟨n, rfl⟩ : ∃ m, n = m + 1 := ⟨n - 1, by omega⟩
    obtain ⟨regular, others⟩ := List.forall_mem_cons.mp plain
    rw [List.length_cons] at low
    have later := ih (n := n) held.take others (by omega) (by omega)
    dsimp only at later ⊢
    rw [Stream.consoleread, if_neg fun same => List.cons_ne_nil _ _ (held.empty_iff.mp same), held.first, if_neg regular.1,
      if_neg regular.2]
    obtain ⟨awake, value, bytes, index⟩ := later
    refine ⟨awake, ?_, congrArg (c :: ·) bytes, ?_⟩
    · rw [value, List.length_cons]
      omega
    · dsimp only
      rw [index, List.length_cons, BitVec.add_assoc, show (1 : BitVec 32) = BitVec.ofNat 32 1 from rfl, ← BitVec.ofNat_add]
      congr 2
      omega

end Input.Shows

theorem Lines.edit_append (front unread line : List UInt8) (k : Key) :
    Lines.edit ⟨front ++ unread, line⟩ k = ⟨front ++ (Lines.edit ⟨unread, line⟩ k).committed, (Lines.edit ⟨unread, line⟩ k).line⟩ := by
  cases k with
  | type c full =>
    dsimp only [Lines.edit]
    split
    · rw [List.append_assoc]
    · rfl
  | erase => rfl
  | kill => rfl

theorem Lines.foldl_append (front unread line : List UInt8) (ks : List Key) :
    ks.foldl Lines.edit ⟨front ++ unread, line⟩ =
      ⟨front ++ (ks.foldl Lines.edit ⟨unread, line⟩).committed, (ks.foldl Lines.edit ⟨unread, line⟩).line⟩ := by
  induction ks generalizing unread line with
  | nil => rfl
  | cons k ks ih => rw [List.foldl_cons, Lines.edit_append, ih, List.foldl_cons]

theorem Lines.committed_grows (l : Lines) (ks : List Key) : l.committed <+: (ks.foldl Lines.edit l).committed := by
  have all := Lines.foldl_append l.committed [] l.line ks
  rw [List.append_nil] at all
  rw [all]
  exact List.prefix_append ..

theorem Input.killLine_r (fuel : Nat) (input : Input) : (input.killLine fuel).r = input.r := by
  induction fuel generalizing input with
  | zero => rfl
  | succ fuel ih =>
    rw [Input.killLine]
    split
    · exact ih _
    · rfl

theorem Input.key_r (input : Input) (c : UInt8) : (input.key c).r = input.r := by
  rw [Input.key]
  split
  · rfl
  · split
    · exact input.killLine_r _
    · split
      · split <;> rfl
      · rw [Input.put]
        split
        · dsimp only
          generalize (if c = 13 then newline else c) = c
          split <;> rfl
        · rfl

theorem consoleintr_r (input : Input) (chars : List UInt8) : (consoleintr input chars).r = input.r := by
  induction chars generalizing input with
  | nil => rfl
  | cons c chars ih => exact (ih (input.key c)).trans (input.key_r c)

theorem consoleread_left {killed : Bool} {target n left : Nat} {input : Input}
    (sleeps : (consoleread killed target n input).asleep = some left) : left ≤ n := by
  induction n generalizing input with
  | zero => cases sleeps
  | succ n ih =>
    rw [consoleread] at sleeps
    split at sleeps
    · split at sleeps
      · cases sleeps
      · cases sleeps
        exact Nat.le_refl _
    · dsimp only at sleeps
      split at sleeps
      · split at sleeps <;> cases sleeps
      · split at sleeps
        · cases sleeps
        · exact Nat.le_succ_of_le (ih sleeps)

variable {ι : Type} {buf : Fin INPUT_BUF → UInt8} {past : List (Console ι × Event ι)} {s s' : Console ι}

theorem asleep_step [DecidableEq ι] {a : Event ι} (held : ∀ t target left, s.asleep t = some (target, left) → left ≤ target)
    (taken : Event.step s a s') : ∀ t target left, s'.asleep t = some (target, left) → left ≤ target := by
  intro t target left sleeps
  cases a with
  | consoleintr chars =>
    cases taken
    exact held t target left sleeps
  | enter u n killed =>
    obtain ⟨reading, ran, rfl⟩ := Option.map_eq_some_iff.mp taken
    obtain ⟨-, ran⟩ := Option.ite_none_right_eq_some.mp ran
    cases ran
    dsimp only at sleeps
    by_cases mine : t = u
    · subst mine
      rw [update_self] at sleeps
      obtain ⟨left', sleeps, eq⟩ := Option.map_eq_some_iff.mp sleeps
      cases eq
      exact consoleread_left sleeps
    · rw [update_of_ne mine] at sleeps
      exact held t target left sleeps
  | resume u killed =>
    obtain ⟨reading, ran, rfl⟩ := Option.map_eq_some_iff.mp taken
    obtain ⟨⟨target', left'⟩, before, eq⟩ := Option.map_eq_some_iff.mp ran
    subst eq
    dsimp only at sleeps
    by_cases mine : t = u
    · subst mine
      rw [update_self, before] at sleeps
      obtain ⟨last, sleeps, eq⟩ := Option.map_eq_some_iff.mp sleeps
      cases eq
      exact Nat.le_trans (consoleread_left sleeps) (held t target' left' before)
    · rw [update_of_ne mine] at sleeps
      exact held t target left sleeps

structure Left (past : List (Console ι × Event ι)) (input : Input) (unread : List UInt8) : Prop where
  all : taken past ++ unread = (edited past).committed
  plain : delivered past = (taken past).filter (· ≠ C 'D')
  held : input.Shows ⟨unread, (edited past).line⟩

namespace Left

variable {a : Event ι} {unread rest : List UInt8} {reading : Reading}

theorem edit (left : Left past s.input unread) (chars : List UInt8) :
    ∃ unread', Left ((s, .consoleintr chars) :: past) (consoleintr s.input chars) unread' := by
  have edits : edited ((s, .consoleintr chars) :: past) = (s.input.keys chars).foldl Lines.edit (edited past) := by
    rw [edited, keys, List.foldl_append, edited]
  have split := Lines.foldl_append (taken past) unread (edited past).line (s.input.keys chars)
  rw [left.all] at split
  have same : taken ((s, .consoleintr chars) :: past) = taken past := List.append_nil _
  have same' : delivered ((s, .consoleintr chars) :: past) = delivered past := List.append_nil _
  refine ⟨((s.input.keys chars).foldl Lines.edit ⟨unread, (edited past).line⟩).committed, ?_, ?_, ?_⟩
  · rw [edits, split, same]
  · rw [same, same', left.plain]
  · rw [edits, split]
    exact left.held.consoleintr chars

theorem read (left : Left past s.input unread) (ran : a.reading s = some reading)
    (held : reading.input.Shows ⟨rest, (edited past).line⟩) (split : reading.taken ++ rest = unread)
    (plain : reading.delivered = reading.taken.filter (· ≠ C 'D')) : Left ((s, a) :: past) reading.input rest := by
  have same : edited ((s, a) :: past) = edited past := by
    cases a with
    | consoleintr chars => cases ran
    | enter t n killed => rfl
    | resume t killed => rfl
  have takes : taken ((s, a) :: past) = taken past ++ reading.taken := by
    rw [taken, ran]
    rfl
  have delivers : delivered ((s, a) :: past) = delivered past ++ reading.delivered := by
    rw [delivered, ran]
    rfl
  constructor
  · rw [takes, same, List.append_assoc, split, left.all]
  · rw [takes, delivers, List.filter_append, left.plain, plain]
  · rw [same]
    exact held

theorem step [DecidableEq ι] (left : Left past s.input unread) (step : Event.step s a s') : ∃ unread', Left ((s, a) :: past) s'.input unread' := by
  cases a with
  | consoleintr chars =>
    cases step
    exact left.edit chars
  | enter t n killed =>
    obtain ⟨reading, ran, rfl⟩ := Option.map_eq_some_iff.mp step
    obtain ⟨-, eq⟩ := Option.ite_none_right_eq_some.mp ran
    cases eq
    obtain ⟨rest, held, split, plain⟩ := left.held.consoleread
    exact ⟨rest, left.read ran held split plain⟩
  | resume t killed =>
    obtain ⟨reading, ran, rfl⟩ := Option.map_eq_some_iff.mp step
    obtain ⟨⟨target, n⟩, -, eq⟩ := Option.map_eq_some_iff.mp ran
    cases eq
    obtain ⟨rest, held, split, plain⟩ := left.held.consoleread
    exact ⟨rest, left.read ran held split plain⟩

end Left

variable [DecidableEq ι]

theorem left_run (path : Path Event.step ⟨⟨buf, 0, 0, 0⟩, fun _ => none⟩ past s) : ∃ unread, Left past s.input unread := by
  induction path with
  | nil => exact ⟨[], rfl, rfl, .nil, rfl, rfl, List.not_mem_nil⟩
  | snoc _ taken ih =>
    obtain ⟨unread, left⟩ := ih
    exact left.step taken

theorem asleep_run (path : Path Event.step ⟨⟨buf, 0, 0, 0⟩, fun _ => none⟩ past s) :
    ∀ t target left, s.asleep t = some (target, left) → left ≤ target :=
  path.always (fun _ _ _ none => nomatch none) fun held taken => asleep_step held taken

/-- What reads have taken and the bytes from `r` to `w` are the committed lines, in order; reads deliver all of it but the
^D. Editing changes nothing below `w`. A ^D ends a read; behind data of that read it stays, so that the next read is empty
and takes it. -/
theorem console_lines_exact (path : Path Event.step ⟨⟨buf, 0, 0, 0⟩, fun _ => none⟩ past s) :
    (s.input.w - s.input.r).toNat ≤ (s.input.e - s.input.r).toNat ∧ (s.input.e - s.input.r).toNat ≤ INPUT_BUF ∧
    ∃ unread, taken past ++ unread = (edited past).committed ∧ delivered past = (taken past).filter (· ≠ C 'D') ∧
      unread.length = (s.input.w - s.input.r).toNat ∧
      (∀ i (inside : i < unread.length), s.input.buf (slot INPUT_BUF (s.input.r + BitVec.ofNat 32 i)) = unread[i]) ∧
      (∀ chars i, i < unread.length →
        (consoleintr s.input chars).buf (slot INPUT_BUF (s.input.r + BitVec.ofNat 32 i)) =
          s.input.buf (slot INPUT_BUF (s.input.r + BitVec.ofNat 32 i))) ∧
      ∀ t target n killed line rest, s.asleep t = some (target, n) ∨ s.asleep t = none ∧ target = n →
        unread = line ++ C 'D' :: rest → (∀ c ∈ line, c ≠ C 'D' ∧ c ≠ newline) → line.length < n →
          (consoleread killed target n s.input).asleep = none ∧
          (consoleread killed target n s.input).value = target - n + line.length ∧
          (consoleread killed target n s.input).delivered = line ∧
          (consoleread killed target n s.input).input.r = s.input.r + BitVec.ofNat 32
            (line.length + if (consoleread killed target n s.input).value = 0 then 1 else 0) := by
  obtain ⟨unread, left⟩ := left_run path
  have held := left.held
  have bound := held.held.fits
  rw [List.length_append] at bound
  refine ⟨?_, ?_, unread, left.all, left.plain, held.written_distance.symm, held.unread_held.cells, ?_, ?_⟩
  · rw [held.written_distance, held.edited_distance]
    exact Nat.le_add_right ..
  · rw [held.edited_distance]
    exact bound
  · intro chars i inside
    have later := held.consoleintr chars
    obtain ⟨more, grows⟩ := Lines.committed_grows ⟨unread, (edited past).line⟩ (s.input.keys chars)
    have cell := later.unread_held.cells i (by rw [← grows, List.length_append]; exact Nat.lt_add_right _ inside)
    rw [consoleintr_r] at cell
    rw [cell, held.unread_held.cells i inside]
    simp only [← grows, List.getElem_append_left inside]
  · intro t target n killed line rest asked here plain low
    subst here
    have le : n ≤ target := by
      rcases asked with sleeps | ⟨-, eq⟩
      · exact asleep_run path t target n sleeps
      · exact Nat.le_of_eq eq.symm
    exact held.meets_eof plain low le

/-- A line with a correction, read in two parts, and a ^D behind the rest of it. -/
theorem console_lines_exact_of_correction : ∃ past s,
    Path (Event.step (ι := Bool)) ⟨⟨fun _ => 0, 0, 0, 0⟩, fun _ => none⟩ past s ∧ delivered past = [97, 99, 10, 100] ∧
      (edited past).committed = [97, 99, 10, 100, 4] ∧ (s.input.w - s.input.r).toNat ≤ (s.input.e - s.input.r).toNat := by
  obtain ⟨past, s, path, test⟩ := replay_reaches (Event.next (ι := Bool)) ⟨⟨fun _ => 0, 0, 0, 0⟩, fun _ => none⟩
    [.consoleintr [97, 98, 8, 99], .enter true 2 false, .consoleintr [13, 100, 4], .resume true false, .enter false 5 false,
      .enter true 5 false, .enter false 5 false]
    (fun past _ => decide (delivered past = [97, 99, 10, 100] ∧ (edited past).committed = [97, 99, 10, 100, 4]))
    (by decide +kernel)
  have facts := of_decide_eq_true test
  exact ⟨past, s, path, facts.1, facts.2, (console_lines_exact path).1⟩

end Xv6.Stream
