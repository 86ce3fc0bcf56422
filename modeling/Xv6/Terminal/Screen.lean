import Xv6.Library.Transition
import Mathlib.Logic.Function.Basic

namespace Xv6.Terminal

open Function Transition

def BACKSPACE : Nat := 0x100

abbrev Cell := BitVec 16

def blank : Cell := 0x0720

def cell (c : Nat) : Cell := BitVec.ofNat 16 (c % 256) ||| 0x0700

/-- CGA memory and the cursor position of the controller. -/
structure Cga where
  crt : Nat → Cell
  pos : Nat

namespace Cga

/-- `memmove(crt, crt+80, sizeof(crt[0])*23*80)` and `memset` from the cursor to the end of row 23. -/
def scroll (s : Cga) : Cga where
  crt i :=
    if s.pos - 80 ≤ i ∧ i < 24 * 80 then 0
    else if i < 23 * 80 then s.crt (i + 80)
    else s.crt i
  pos := s.pos - 80

def move (s : Cga) (c : Nat) : Cga :=
  if c = 10 then { s with pos := s.pos + (80 - s.pos % 80) }
  else if c = BACKSPACE then { s with pos := if s.pos > 0 then s.pos - 1 else s.pos }
  else ⟨update s.crt s.pos (cell c), s.pos + 1⟩

def cgaputc (s : Cga) (c : Nat) : Option Cga :=
  let s := s.move c
  if s.pos > 25 * 80 then none
  else
    let s := if s.pos / 80 ≥ 24 then s.scroll else s
    some { s with crt := update s.crt s.pos blank }

/-- The output of several calls of `consputc`. -/
def consputs : Cga → List Nat → Option Cga
  | s, [] => some s
  | s, c :: cs => (s.cgaputc c).bind fun s => consputs s cs

end Cga

/-- An endless sheet of rows of 80 cells; from row `top` on 24 of them are on the screen. -/
structure Sheet where
  paper : Nat → Cell
  cursor : Nat
  top : Nat

namespace Sheet

def move (s : Sheet) (c : Nat) : Sheet :=
  if c = 10 then { s with cursor := s.cursor + (80 - s.cursor % 80) }
  else if c = BACKSPACE then { s with cursor := if s.cursor > 80 * s.top then s.cursor - 1 else s.cursor }
  else { s with paper := update s.paper s.cursor (cell c), cursor := s.cursor + 1 }

/-- The cell under the cursor is blanked, and the sheet is pulled up by a row when the cursor has left the screen. -/
def put (s : Sheet) (c : Nat) : Sheet :=
  let s := s.move c
  { s with
    paper := update s.paper s.cursor blank
    top := if s.cursor < 80 * (s.top + 24) then s.top else s.top + 1 }

def puts (s : Sheet) (cs : List Nat) : Sheet := cs.foldl put s

/-- The cursor is on the screen, and below the screen nothing is written yet. -/
structure Proper (s : Sheet) : Prop where
  above : 80 * s.top ≤ s.cursor
  below : s.cursor < 80 * (s.top + 24)
  fresh : ∀ j, 80 * (s.top + 24) ≤ j → s.paper j = 0

/-- The CGA memory is the window of the sheet, behind which it is as it was. -/
structure Shown (s : Sheet) (screen : Cga) (past : Nat → Cell) : Prop where
  cursor : s.cursor = 80 * s.top + screen.pos
  window : ∀ i, i < 24 * 80 → screen.crt i = s.paper (80 * s.top + i)
  behind : ∀ i, 24 * 80 ≤ i → screen.crt i = past i

end Sheet

def Cga.sheet (s : Cga) : Sheet := ⟨fun i => if i < 24 * 80 then s.crt i else 0, s.pos, 0⟩

variable {s : Sheet} {screen : Cga} {past : Nat → Cell} {c : Nat} {cs : List Nat}

namespace Sheet

/-- Moving the cursor by a character takes it at most to the row below the screen. -/
theorem Proper.move (proper : s.Proper) (c : Nat) :
    80 * s.top ≤ (s.move c).cursor ∧ (s.move c).cursor ≤ 80 * (s.top + 24) ∧ (s.move c).top = s.top ∧
      ∀ j, 80 * (s.top + 24) ≤ j → (s.move c).paper j = 0 := by
  have above := proper.above
  have below := proper.below
  rw [Sheet.move]
  split
  · refine ⟨?_, ?_, rfl, proper.fresh⟩
    · dsimp only
      omega
    · dsimp only
      omega
  · split
    · refine ⟨?_, ?_, rfl, proper.fresh⟩
      · dsimp only
        split
        · omega
        · omega
      · dsimp only
        split
        · omega
        · omega
    · refine ⟨?_, ?_, rfl, ?_⟩
      · dsimp only
        omega
      · dsimp only
        omega
      · intro j far
        dsimp only
        rw [update_of_ne (by omega)]
        exact proper.fresh j far

theorem Shown.move (shown : s.Shown screen past) (proper : s.Proper) (c : Nat) :
    (s.move c).Shown (screen.move c) past := by
  have cursor := shown.cursor
  have below := proper.below
  rw [Sheet.move, Cga.move]
  split
  · refine ⟨?_, shown.window, shown.behind⟩
    dsimp only
    omega
  · split
    · refine ⟨?_, shown.window, shown.behind⟩
      dsimp only
      split
      · rw [if_pos (by omega)]
        omega
      · rw [if_neg (by omega)]
        omega
    · refine ⟨?_, ?_, ?_⟩
      · dsimp only
        omega
      · intro i inside
        dsimp only
        by_cases here : i = screen.pos
        · rw [here, update_self, ← cursor, update_self]
        · rw [update_of_ne here, update_of_ne (by omega)]
          exact shown.window i inside
      · intro i outside
        dsimp only
        rw [update_of_ne (by omega)]
        exact shown.behind i outside

theorem Shown.blanked (shown : s.Shown screen past) (inside : screen.pos < 24 * 80) :
    Shown { s with paper := update s.paper s.cursor blank } { screen with crt := update screen.crt screen.pos blank } past := by
  have cursor := shown.cursor
  refine ⟨cursor, ?_, ?_⟩
  · intro i low
    dsimp only
    by_cases here : i = screen.pos
    · rw [here, update_self, ← cursor, update_self]
    · rw [update_of_ne here, update_of_ne (by omega)]
      exact shown.window i low
  · intro i outside
    dsimp only
    rw [update_of_ne (by omega)]
    exact shown.behind i outside

theorem Shown.pulled (shown : s.Shown screen past) (reached : s.cursor = 80 * (s.top + 24))
    (fresh : ∀ j, 80 * (s.top + 24) ≤ j → s.paper j = 0) : Shown { s with top := s.top + 1 } screen.scroll past := by
  have cursor := shown.cursor
  have last : screen.pos = 24 * 80 := by omega
  refine ⟨?_, ?_, ?_⟩
  · simp only [Cga.scroll]
    omega
  · intro i inside
    simp only [Cga.scroll]
    by_cases lastRow : screen.pos - 80 ≤ i
    · rw [if_pos ⟨lastRow, inside⟩]
      exact (fresh _ (by omega)).symm
    · rw [if_neg (by omega), if_pos (by omega), shown.window _ (by omega)]
      exact congrArg s.paper (by omega)
  · intro i outside
    simp only [Cga.scroll]
    rw [if_neg (by omega), if_neg (by omega)]
    exact shown.behind i outside

theorem put_stays (inside : (s.move c).cursor < 80 * ((s.move c).top + 24)) :
    s.put c = { s.move c with paper := update (s.move c).paper (s.move c).cursor blank } := by
  simp only [Sheet.put]
  rw [if_pos inside]

theorem put_pulls (outside : ¬(s.move c).cursor < 80 * ((s.move c).top + 24)) :
    s.put c = { s.move c with
      paper := update (s.move c).paper (s.move c).cursor blank, top := (s.move c).top + 1 } := by
  simp only [Sheet.put]
  rw [if_neg outside]

theorem Proper.put (proper : s.Proper) (c : Nat) : (s.put c).Proper := by
  rcases proper.move c with ⟨above, below, top, fresh⟩
  rw [← top] at below
  by_cases inside : (s.move c).cursor < 80 * ((s.move c).top + 24)
  · rw [put_stays inside]
    refine ⟨by rw [top]; exact above, inside, ?_⟩
    intro j far
    dsimp only at far ⊢
    rw [update_of_ne (by omega)]
    exact fresh j (by omega)
  · rw [put_pulls inside]
    refine ⟨by dsimp only; omega, by dsimp only; omega, ?_⟩
    intro j far
    dsimp only at far ⊢
    rw [update_of_ne (by omega)]
    exact fresh j (by omega)

theorem Proper.puts (proper : s.Proper) (cs : List Nat) : (s.puts cs).Proper := by
  induction cs generalizing s with
  | nil => exact proper
  | cons c cs ih => exact ih (proper.put c)

theorem Shown.put (shown : s.Shown screen past) (proper : s.Proper) (c : Nat) :
    ∃ screen', screen.cgaputc c = some screen' ∧ (s.put c).Shown screen' past := by
  rcases proper.move c with ⟨above, below, top, fresh⟩
  have moved := shown.move proper c
  have cursor := moved.cursor
  by_cases inside : (s.move c).cursor < 80 * ((s.move c).top + 24)
  · refine ⟨{ screen.move c with crt := update (screen.move c).crt (screen.move c).pos blank }, ?_, ?_⟩
    · simp only [Cga.cgaputc]
      rw [if_neg (by omega), if_neg (by omega)]
    · rw [put_stays inside]
      exact moved.blanked (by omega)
  · have pulled := moved.pulled (by omega) (by rw [top]; exact fresh)
    refine ⟨{ (screen.move c).scroll with
      crt := update (screen.move c).scroll.crt (screen.move c).scroll.pos blank }, ?_, ?_⟩
    · simp only [Cga.cgaputc]
      rw [if_neg (by omega), if_pos (by omega)]
    · rw [put_pulls inside]
      exact pulled.blanked (by simp only [Cga.scroll]; omega)

theorem Shown.puts (shown : s.Shown screen past) (proper : s.Proper) (cs : List Nat) :
    ∃ screen', screen.consputs cs = some screen' ∧ (s.puts cs).Shown screen' past := by
  induction cs generalizing s screen with
  | nil => exact ⟨screen, rfl, shown⟩
  | cons c cs ih =>
    rcases shown.put proper c with ⟨first, does, shows⟩
    rw [Cga.consputs, does]
    exact ih shows (proper.put c)

end Sheet

theorem Cga.sheet_shown (screen : Cga) : screen.sheet.Shown screen screen.crt := by
  refine ⟨?_, ?_, fun i outside => rfl⟩
  · simp only [Cga.sheet]
    omega
  · intro i low
    simp only [Cga.sheet]
    rw [if_pos (by omega)]
    exact congrArg screen.crt (by omega)

theorem Cga.sheet_proper (inside : screen.pos < 24 * 80) : screen.sheet.Proper := by
  refine ⟨Nat.zero_le _, inside, ?_⟩
  intro j far
  simp only [Cga.sheet] at far ⊢
  exact if_neg (by omega)

/-- Whatever is printed, the console does not panic, and the screen is the window of an endless sheet, with nothing
    written behind its 24 rows. -/
theorem screen_is_window (screen : Cga) (inside : screen.pos < 24 * 80) (cs : List Nat) :
    ∃ screen', screen.consputs cs = some screen' ∧ (screen.sheet.puts cs).Shown screen' screen.crt ∧
      screen'.pos < 24 * 80 := by
  rcases screen.sheet_shown.puts (screen.sheet_proper inside) cs with ⟨screen', does, shown⟩
  refine ⟨screen', does, shown, ?_⟩
  have cursor := shown.cursor
  have below := ((screen.sheet_proper inside).puts cs).below
  omega

theorem screen_is_window_scrolled : ∃ screen', Cga.consputs ⟨fun _ => 0, 24 * 80 - 1⟩ [97, 10] = some screen' ∧
    ((Cga.sheet ⟨fun _ => 0, 24 * 80 - 1⟩).puts [97, 10]).Shown screen' (fun _ => 0) ∧
    screen'.pos < 24 * 80 :=
  screen_is_window ⟨fun _ => 0, 24 * 80 - 1⟩ (by decide) [97, 10]

end Xv6.Terminal
