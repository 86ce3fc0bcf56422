import Mathlib.Logic.Function.Basic
import Mathlib.Algebra.Ring.Nat
import Mathlib.Data.List.FinRange

namespace Xv6.Shell

open Function

def MAXARGS : Nat := 10
def O_RDONLY : Nat := 0
def O_WRONLY : Nat := 1
def O_CREATE : Nat := 0x200

/-- A line in memory, with its terminating zero at `es`. -/
structure Line where
  text : Nat → UInt8
  es : Nat
  terminated : text es = 0
  inside : ∀ i, i < es → text i ≠ 0

/-- Parsed command representation. A word is where it begins and where it ends. -/
inductive Cmd where
  | exec (argv : Fin MAXARGS → Option (Nat × Nat))
  | redir (cmd : Cmd) (file efile mode fd : Nat)
  | pipe (left right : Cmd)
  | list (left right : Cmd)
  | back (cmd : Cmd)

/-- `panic`, a cursor behind the end of the line, an access behind the end of `argv`, a loop that is cut off. -/
inductive Fault where
  | panic (message : String)
  | past
  | argv
  | loops
  deriving DecidableEq

abbrev Parser := StateT Nat (Except Fault)

def bar : UInt8 := 124
def leftParen : UInt8 := 40
def rightParen : UInt8 := 41
def semicolon : UInt8 := 59
def ampersand : UInt8 := 38
def less : UInt8 := 60
def greater : UInt8 := 62

/-- What `gettoken` returns for `>>`. -/
def plus : UInt8 := 43

/-- What `gettoken` returns for a word. -/
def word : UInt8 := 97

def whitespace : List UInt8 := [32, 9, 13, 10, 11]

def symbols : List UInt8 := [less, bar, greater, ampersand, semicolon, leftParen, rightParen]

def isSpace (c : UInt8) : Bool := c ∈ whitespace

def isWord (c : UInt8) : Bool := c ∉ whitespace && c ∉ symbols

variable (line : Line)

/-- `while(s < es && p(*s)) s++` -/
def skipLoop (p : UInt8 → Bool) : Nat → Nat → Nat
  | 0, s => s
  | n + 1, s => if s < line.es ∧ p (line.text s) then skipLoop p n (s + 1) else s

def skip (p : UInt8 → Bool) (s : Nat) : Nat := skipLoop line p (line.es - s) s

def move (s : Nat) : Parser Unit := if s ≤ line.es then set s else throw .past

def gettoken : Parser (UInt8 × Nat × Nat) := do
  let q := skip line isSpace (← get)
  let c := line.text q
  let (ret, eq) :=
    if c = 0 then (c, q)
    else if c ∈ [bar, leftParen, rightParen, semicolon, ampersand, less] then (c, q + 1)
    else if c = greater then if line.text (q + 1) = greater then (plus, q + 2) else (c, q + 1)
    else (word, skip line isWord q)
  move line (skip line isSpace eq)
  return (ret, q, eq)

def peek (toks : List UInt8) : Parser Bool := do
  let s := skip line isSpace (← get)
  move line s
  return line.text s ≠ 0 && line.text s ∈ toks

/-- The loop of `parseredirs`. -/
def parseredirs : Nat → Cmd → Parser Cmd
  | 0, _ => throw .loops
  | n + 1, cmd => do
    if ← peek line [less, greater] then
      let (tok, _, _) ← gettoken line
      let (ret, q, eq) ← gettoken line
      if ret ≠ word then throw (.panic "missing file for redirection")
      parseredirs n <|
        if tok = less then .redir cmd q eq O_RDONLY 0
        else if tok = greater then .redir cmd q eq (O_WRONLY ||| O_CREATE) 1
        else if tok = plus then .redir cmd q eq (O_WRONLY ||| O_CREATE) 1
        else cmd
    else return cmd

/-- The `execcmd` below the redirections changes. -/
def Cmd.setArg (i : Fin MAXARGS) (w : Option (Nat × Nat)) : Cmd → Cmd
  | exec argv => exec (update argv i w)
  | redir cmd file efile mode fd => redir (cmd.setArg i w) file efile mode fd
  | cmd => cmd

/-- `cmd->argv[argc] = q; cmd->eargv[argc] = eq;` -/
def setArg (ret : Cmd) (argc : Nat) (w : Option (Nat × Nat)) : Parser Cmd :=
  if h : argc < MAXARGS then return ret.setArg ⟨argc, h⟩ w else throw .argv

/-- The loop of `parseexec`. -/
def parseargs : Nat → Cmd → Nat → Parser (Cmd × Nat)
  | 0, _, _ => throw .loops
  | n + 1, ret, argc => do
    if ← peek line [bar, rightParen, ampersand, semicolon] then return (ret, argc)
    let (tok, q, eq) ← gettoken line
    if tok = 0 then return (ret, argc)
    if tok ≠ word then throw (.panic "syntax")
    let ret ← setArg ret argc (some (q, eq))
    if argc + 1 ≥ MAXARGS then throw (.panic "too many args")
    let ret ← parseredirs line n ret
    parseargs n ret (argc + 1)

/-- The first loop of `parseline`. -/
def parsebacks : Nat → Cmd → Parser Cmd
  | 0, _ => throw .loops
  | n + 1, cmd => do
    if ← peek line [ampersand] then
      let _ ← gettoken line
      parsebacks n (.back cmd)
    else return cmd

mutual

def parseline : Nat → Parser Cmd
  | 0 => throw .loops
  | n + 1 => do
    let cmd ← parsepipe n
    let cmd ← parsebacks line (n + 1) cmd
    if ← peek line [semicolon] then
      let _ ← gettoken line
      return .list cmd (← parseline n)
    else return cmd

def parsepipe : Nat → Parser Cmd
  | 0 => throw .loops
  | n + 1 => do
    let cmd ← parseexec n
    if ← peek line [bar] then
      let _ ← gettoken line
      return .pipe cmd (← parsepipe n)
    else return cmd

def parseblock : Nat → Parser Cmd
  | 0 => throw .loops
  | n + 1 => do
    if !(← peek line [leftParen]) then throw (.panic "parseblock")
    let _ ← gettoken line
    let cmd ← parseline n
    if !(← peek line [rightParen]) then throw (.panic "syntax - missing )")
    let _ ← gettoken line
    parseredirs line (n + 1) cmd

def parseexec : Nat → Parser Cmd
  | 0 => throw .loops
  | n + 1 => do
    if ← peek line [leftParen] then parseblock n
    else
      let ret ← parseredirs line (n + 1) (.exec fun _ => none)
      let (ret, argc) ← parseargs line (n + 1) ret 0
      setArg ret argc none

end

/-- The loop of `nulterminate` over the arguments, from one index on. -/
def nulArgs (argv : Fin MAXARGS → Option (Nat × Nat)) : List (Fin MAXARGS) → (Nat → UInt8) → Except Fault (Nat → UInt8)
  | [], _ => .error .argv
  | i :: rest, text =>
    match argv i with
    | some (_, eq) => nulArgs argv rest (update text eq 0)
    | none => .ok text

def nulterminate : Cmd → (Nat → UInt8) → Except Fault (Nat → UInt8)
  | .exec argv, text => nulArgs argv (List.finRange MAXARGS) text
  | .redir cmd _ efile _ _, text => do
    let text ← nulterminate cmd text
    return update text efile 0
  | .pipe left right, text => do nulterminate right (← nulterminate left text)
  | .list left right, text => do nulterminate right (← nulterminate left text)
  | .back cmd, text => nulterminate cmd text

def parsecmd : Except Fault (Cmd × (Nat → UInt8)) := do
  let (cmd, s) ← (do
    let cmd ← parseline line (4 * line.es + 4)
    let _ ← peek line []
    return cmd : Parser Cmd) 0
  if s ≠ line.es then throw (.panic "syntax")
  let text ← nulterminate cmd line.text
  return (cmd, text)

end Xv6.Shell
