import Xv6.Sched.Table
import Xv6.Stream.Editing
import Xv6.Terminal.Format
import Xv6.Terminal.Screen

namespace Xv6.Terminal

open Function Ring Xv6.Stream Transition
open Xv6.Sched (ProcState)

def killEcho : Nat → Input → List Nat
  | 0, _ => []
  | fuel + 1, input =>
    if input.e ≠ input.w ∧ input.buf (slot INPUT_BUF (input.e - 1)) ≠ newline then
      BACKSPACE :: killEcho fuel { input with e := input.e - 1 }
    else []

/-- What one pass of the loop of `consoleintr` prints. -/
def echo (input : Input) (c : UInt8) : List Nat :=
  if c = C 'P' then []
  else if c = C 'U' then killEcho (input.e - input.w).toNat input
  else if c = C 'H' ∨ c = 127 then if input.e ≠ input.w then [BACKSPACE] else []
  else if c ≠ 0 ∧ (input.e - input.r).toNat < INPUT_BUF then [(if c = 13 then newline else c).toNat]
  else []

def echoes (input : Input) : List UInt8 → List Nat
  | [] => []
  | c :: chars => echo input c ++ echoes (input.key c) chars

/-- `states` of `procdump` -/
def states : ProcState → List UInt8
  | .unused => ascii "unused"
  | .embryo => ascii "embryo"
  | .sleeping => ascii "sleep "
  | .runnable => ascii "runble"
  | .running => ascii "run   "
  | .zombie => ascii "zombie"

/-- What `procdump` reads of a process. Its callers are what `getcallerpcs` finds on the stack of a sleeping one. -/
structure Dumped where
  state : ProcState
  pid : Word
  name : List UInt8
  pcs : List Word

namespace Dumped

/-- The words behind the format in the first call of `cprintf`, with the two strings that the last two point to. -/
def stack (p : Dumped) : Stack where
  word ap := [p.pid, 1, 2].getD ap 0
  string ptr := if ptr = 1 then states p.state else p.name

/-- One pass of the loop of `procdump`. -/
def procdump (p : Dumped) : List UInt8 :=
  if p.state = .unused then []
  else
    let pcs := (p.pcs.take 10).takeWhile (· ≠ 0)
    p.stack.cprintf (ascii "%d %s %s") 0 ++
      (if p.state = .sleeping then pcs.flatMap fun pc => Stack.cprintf ⟨fun _ => pc, fun _ => []⟩ (ascii " %p") 0 else []) ++
      p.stack.cprintf (ascii "\n") 0

end Dumped

def procdump (ptable : List Dumped) : List UInt8 := ptable.flatMap Dumped.procdump

/-- What happens at the console. A key interrupt finds the processes `ptable`, and a program writes bytes. -/
inductive Act (ι : Type) where
  | console (e : Stream.Event ι) (ptable : List Dumped)
  | write (bytes : List UInt8)

namespace Act

variable {ι : Type}

/-- The processes are listed once the keys of the interrupt are all handled. -/
def prints (s : Console ι) : Act ι → List Nat
  | console (.consoleintr chars) ptable =>
    echoes s.input chars ++ if C 'P' ∈ chars then (procdump ptable).map UInt8.toNat else []
  | console _ _ => []
  | write bytes => bytes.map UInt8.toNat

def step [DecidableEq ι] (s : Console ι) (a : Act ι) (s' : Console ι) : Prop :=
  match a with
  | console e _ => Event.step s e s'
  | write _ => s' = s

/-- Programs do not write and processes are not listed while a line is edited. -/
def Waits (s : Console ι) : Act ι → Prop
  | console (.consoleintr chars) _ => C 'P' ∈ chars → (consoleintr s.input chars).e = (consoleintr s.input chars).w
  | console _ _ => True
  | write _ => s.input.e = s.input.w

end Act

section History

variable {ι : Type}

def printed : List (Console ι × Act ι) → List Nat
  | [] => []
  | (s, a) :: past => printed past ++ a.prints s

def events : List (Console ι × Act ι) → List (Console ι × Stream.Event ι)
  | [] => []
  | (s, .console e _) :: past => (s, e) :: events past
  | (_, .write _) :: past => events past

end History

/-- The line ends at the cursor, and all of it is on the screen. -/
structure Sheet.Edits (s : Sheet) (text : List UInt8) : Prop where
  begins : 80 * s.top + text.length ≤ s.cursor
  cells : ∀ i (inside : i < text.length), s.paper (s.cursor - text.length + i) = cell text[i].toNat

variable {s : Sheet} {text unread : List UInt8} {c : UInt8} {input : Input} {l : Lines}

namespace Sheet

theorem Edits.nil (proper : s.Proper) : s.Edits [] :=
  ⟨proper.above, fun _ inside => absurd inside (Nat.not_lt_zero _)⟩

theorem puts_append (s : Sheet) (xs ys : List Nat) : s.puts (xs ++ ys) = (s.puts xs).puts ys := List.foldl_append

theorem put_character (s : Sheet) {c : Nat} (plain : c ≠ 10) (character : c ≠ BACKSPACE) :
    s.put c = ⟨update (update s.paper s.cursor (cell c)) (s.cursor + 1) blank, s.cursor + 1,
      if s.cursor + 1 < 80 * (s.top + 24) then s.top else s.top + 1⟩ := by
  have moved : s.move c = { s with paper := update s.paper s.cursor (cell c), cursor := s.cursor + 1 } := by
    rw [move, if_neg plain, if_neg character]
  simp only [put, moved]

theorem put_backspace (proper : s.Proper) (room : 80 * s.top < s.cursor) :
    s.put BACKSPACE = ⟨update s.paper (s.cursor - 1) blank, s.cursor - 1, s.top⟩ := by
  have below := proper.below
  have moved : s.move BACKSPACE = { s with cursor := s.cursor - 1 } := by
    rw [move, if_neg (by decide), if_pos rfl, if_pos room]
  have inside : s.cursor - 1 < 80 * (s.top + 24) := by omega
  simp only [put, moved]
  rw [if_pos inside]

theorem Edits.type (edits : s.Edits text) (short : text.length < 128) (plain : c ≠ newline) :
    (s.put c.toNat).Edits (text ++ [c]) := by
  have begins := edits.begins
  have small := c.toNat_lt
  have notNewline : c.toNat ≠ 10 := fun same => plain (UInt8.toNat_inj.mp same)
  have character : c.toNat ≠ BACKSPACE := by
    intro same
    rw [same] at small
    exact absurd small (by decide)
  rw [put_character s notNewline character]
  constructor
  · rw [List.length_append, List.length_singleton]
    dsimp only
    split
    · omega
    · omega
  · intro i inside
    rw [List.length_append, List.length_singleton] at inside ⊢
    dsimp only
    rw [update_of_ne (by omega)]
    by_cases last : i = text.length
    · subst last
      rw [show s.cursor + 1 - (text.length + 1) + text.length = s.cursor by omega, update_self, List.getElem_concat_length]
      rfl
    · rw [update_of_ne (by omega), List.getElem_append_left (by omega), ← edits.cells i (by omega)]
      exact congrArg s.paper (by omega)

theorem Edits.erase (edits : s.Edits (text ++ [c])) (proper : s.Proper) : (s.put BACKSPACE).Edits text := by
  have begins := edits.begins
  rw [List.length_append, List.length_singleton] at begins
  rw [put_backspace proper (by omega)]
  constructor
  · dsimp only
    omega
  · intro i inside
    dsimp only
    have before := edits.cells i (by rw [List.length_append]; omega)
    rw [List.getElem_append_left inside] at before
    rw [update_of_ne (by omega), ← before]
    exact congrArg s.paper (by rw [List.length_append, List.length_singleton]; omega)

theorem Edits.kill {fuel : Nat} (edits : s.Edits text) (proper : s.Proper) (held : input.Shows ⟨unread, text⟩)
    (length : text.length = fuel) : (s.puts (killEcho fuel input)).Edits [] := by
  induction fuel generalizing input text s with
  | zero => exact .nil proper
  | succ fuel ih =>
    have some : text ≠ [] := List.ne_nil_of_length_pos (by omega)
    obtain ⟨start, c, rfl⟩ : ∃ start c, text = start ++ [c] := ⟨_, _, (List.dropLast_append_getLast some).symm⟩
    have last : c ≠ newline := fun eq => held.plain (eq ▸ List.mem_append_right _ (List.mem_singleton_self c))
    rw [killEcho, if_pos ⟨fun same => some (held.edited_iff.mp same), by rwa [held.last]⟩]
    rw [List.length_append, List.length_singleton] at length
    exact ih (edits.erase proper) (proper.put BACKSPACE) held.erase (Nat.succ.inj length)

theorem Edits.key (edits : s.Edits l.line) (proper : s.Proper) (held : input.Shows l) (c : UInt8) :
    (s.puts (echo input c)).Edits ((input.accepts c).toList.foldl Lines.edit l).line := by
  rw [echo, Input.accepts]
  by_cases listing : c = C 'P'
  · rw [if_pos listing, if_pos listing]
    exact edits
  rw [if_neg listing, if_neg listing]
  by_cases kill : c = C 'U'
  · rw [if_pos kill, if_pos kill, held.line_distance]
    exact edits.kill proper held rfl
  rw [if_neg kill, if_neg kill]
  by_cases erase : c = C 'H' ∨ c = 127
  · rw [if_pos erase, if_pos erase]
    by_cases none : l.line = []
    · rw [if_neg (not_not.mpr (held.edited_iff.mpr none))]
      change s.Edits l.line.dropLast
      rw [none] at edits ⊢
      exact edits
    · rw [if_pos fun same => none (held.edited_iff.mp same)]
      change (s.put BACKSPACE).Edits l.line.dropLast
      rw [← List.dropLast_append_getLast none] at edits
      exact edits.erase proper
  rw [if_neg erase, if_neg erase]
  by_cases accepted : c ≠ 0 ∧ (input.e - input.r).toNat < INPUT_BUF
  · rw [if_pos accepted, if_pos accepted]
    have short : l.line.length < 128 := by
      have room := accepted.2
      rw [held.edited_distance] at room
      have size : INPUT_BUF = 128 := rfl
      omega
    generalize (if c = 13 then newline else c) = typed
    change (s.put typed.toNat).Edits (l.edit (.type typed _)).line
    rw [Lines.edit]
    split
    · exact .nil (proper.put _)
    · next goes_on => exact edits.type short fun same => goes_on (Or.inl same)
  · rw [if_neg accepted, if_neg accepted]
    exact edits

theorem Edits.keys (edits : s.Edits l.line) (proper : s.Proper) (held : input.Shows l) (chars : List UInt8) :
    (s.puts (echoes input chars)).Edits ((input.keys chars).foldl Lines.edit l).line := by
  induction chars generalizing s input l with
  | nil => exact edits
  | cons c chars ih =>
    rw [echoes, puts_append, Input.keys, List.foldl_append]
    exact ih (edits.key proper held c) (proper.puts _) (held.key c)

end Sheet

section Runs

variable {ι : Type} [DecidableEq ι] {buf : Fin INPUT_BUF → UInt8} {past : List (Console ι × Act ι)} {state : Console ι}

theorem events_run {start : Console ι} (path : Path Act.step start past state) :
    Path Event.step start (events past) state := by
  induction path with
  | nil => exact .nil
  | @snoc past x y a before taken ih =>
    cases a with
    | console e _ => exact .snoc ih taken
    | write bytes =>
      cases (taken : y = x)
      exact ih

theorem edits_run (path : Path Act.step ⟨⟨buf, 0, 0, 0⟩, fun _ => none⟩ past state)
    (waits : ∀ entry ∈ past, entry.2.Waits entry.1) (proper : s.Proper) :
    (s.puts (printed past)).Edits (edited (events past)).line := by
  induction path with
  | nil => exact .nil proper
  | @snoc past x y a before step ih =>
    have edits := ih fun entry member => waits entry (List.mem_cons_of_mem _ member)
    have fits := proper.puts (printed past)
    obtain ⟨unread, left⟩ := left_run (events_run before)
    rw [printed, Sheet.puts_append]
    cases a with
    | write bytes =>
      have none : (edited (events past)).line = [] := left.held.edited_iff.mp (waits _ List.mem_cons_self)
      rw [events, none]
      exact .nil (fits.puts _)
    | console e ptable =>
      cases e with
      | consoleintr chars =>
        have split := Lines.foldl_append (taken (events past)) unread (edited (events past)).line (x.input.keys chars)
        rw [left.all] at split
        have same : edited (events ((x, Act.console (.consoleintr chars) ptable) :: past)) =
            (x.input.keys chars).foldl Lines.edit (edited (events past)) := List.foldl_append
        have echoed := edits.keys (l := ⟨unread, (edited (events past)).line⟩) fits left.held chars
        have held := left.held.consoleintr chars
        rw [same, split, Act.prints, Sheet.puts_append]
        by_cases listing : C 'P' ∈ chars
        · have between := waits _ List.mem_cons_self listing
          rw [if_pos listing]
          change Sheet.Edits _ ((x.input.keys chars).foldl Lines.edit ⟨unread, (edited (events past)).line⟩).line
          rw [held.edited_iff.mp between]
          exact .nil ((fits.puts _).puts _)
        · rw [if_neg listing]
          exact echoed
      | enter t n killed => exact edits
      | resume t killed => exact edits

/-- Whatever is typed, read and written, the line that is edited stands in front of the cursor as its keys mean it,
    when programs write, and processes are listed, only between lines. -/
theorem screen_shows_line (screen : Cga) (inside : screen.pos < 24 * 80)
    (path : Path Act.step ⟨⟨buf, 0, 0, 0⟩, fun _ => none⟩ past state) (waits : ∀ entry ∈ past, entry.2.Waits entry.1) :
    ∃ screen', screen.consputs (printed past) = some screen' ∧
      (edited (events past)).line.length ≤ screen'.pos ∧
      ∀ i (low : i < (edited (events past)).line.length),
        screen'.crt (screen'.pos - (edited (events past)).line.length + i) = cell (edited (events past)).line[i].toNat := by
  have proper := screen.sheet_proper inside
  rcases screen.sheet_shown.puts proper (printed past) with ⟨screen', does, shown⟩
  have edits := edits_run path waits proper
  have begins := edits.begins
  have cursor := shown.cursor
  have below := (proper.puts (printed past)).below
  refine ⟨screen', does, by omega, ?_⟩
  intro i low
  rw [shown.window _ (by omega), ← edits.cells i low]
  exact congrArg _ (by omega)

end Runs

/-- Only `init` is there, and it sleeps in `wait`. -/
def dumped : List Dumped := [⟨.sleeping, 1, ascii "init", [0x80104d8e, 0x80105a1d, 0]⟩, ⟨.unused, 0, [], []⟩]

/-- The processes are listed, then two characters are typed, and one is taken back. -/
def typedRun : List (Console Unit × Act Unit) :=
  [(⟨⟨fun _ => 0, 0, 0, 0⟩, fun _ => none⟩, .console (.consoleintr [97, 98, 127]) dumped),
   (⟨⟨fun _ => 0, 0, 0, 0⟩, fun _ => none⟩, .console (.consoleintr [C 'P']) dumped)]

example : procdump dumped = ascii "1 sleep  init 80104d8e 80105a1d\n" := by decide

theorem screen_shows_line_typed : ∃ screen', Cga.consputs ⟨fun _ => 0, 0⟩ (printed typedRun) = some screen' ∧
    (edited (events typedRun)).line = [97] ∧ screen'.crt (screen'.pos - 1) = cell 97 := by
  have line : (edited (events typedRun)).line = [97] := by decide
  have path : Path Act.step ⟨⟨fun _ => 0, 0, 0, 0⟩, fun _ => none⟩ typedRun
      ⟨consoleintr ⟨fun _ => 0, 0, 0, 0⟩ [97, 98, 127], fun _ => none⟩ := .snoc (.snoc .nil rfl) rfl
  have waits : ∀ entry ∈ typedRun, entry.2.Waits entry.1 := by
    intro entry member
    rcases List.mem_pair.mp member with rfl | rfl
    · exact fun listing => absurd listing (by decide)
    · exact fun _ => rfl
  rcases screen_shows_line ⟨fun _ => 0, 0⟩ (by decide) path waits with ⟨screen', does, -, shows⟩
  rw [line] at shows
  exact ⟨screen', does, line, shows 0 (by decide)⟩

end Xv6.Terminal
