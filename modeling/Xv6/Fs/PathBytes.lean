import Xv6.Fs.Mkfs
import Xv6.Fs.Paths

namespace Xv6.Fs.Bytewise

open Function Bytes Splitting

/-- A pointer into a string: the bytes from there on, with the NUL that ends it. -/
abbrev Pointer := List UInt8

/-- The buffer of `DIRSIZ` bytes for a name, and what lies behind it. -/
abbrev Name := Nat → UInt8

/-- `while(*path == '/') path++`; a load from behind the string has no result. -/
def skipSlashes : Pointer → Option Pointer
  | [] => none
  | c :: rest => if c = slash then skipSlashes rest else some (c :: rest)

/-- `while(*path != '/' && *path != 0) path++` -/
def skipName : Pointer → Option Pointer
  | [] => none
  | c :: rest => if c ≠ slash ∧ c ≠ 0 then skipName rest else some (c :: rest)

/-- The copy of `len` bytes into `name`. With a negative count `memmove`, which has a `uint`, leaves the string. -/
def copyName (name : Name) (s : Pointer) (len : BitVec 32) : Option Name :=
  if len.toInt < 0 then none
  else if DIRSIZ ≤ len.toInt then some (copy DIRSIZ name 0 fun i => s.getD i 0)
  else some (update (copy len.toNat name 0 fun i => s.getD i 0) len.toNat 0)

/-- `skipelem` on the bytes: the remaining path, or the null pointer, and the name. -/
def skipelem (path : Pointer) (name : Name) : Option (Option Pointer × Name) := do
  let s ← skipSlashes path
  let c ← s.head?
  if c = 0 then return (none, name)
  let path ← skipName s
  let name ← copyName name s (BitVec.ofNat 32 (s.length - path.length))
  let path ← skipSlashes path
  return (some path, name)

/-- Call after call of `skipelem`, up to the one that returns 0: what each of the others returns and leaves in `name`. -/
def elements : Nat → Pointer → Name → Option (List (Pointer × Name))
  | 0, _, _ => none
  | fuel + 1, path, name => do
    match ← skipelem path name with
    | (none, _) => return []
    | (some path, name) => return (path, name) :: (← elements fuel path name)

/-- The name as `strncmp` gets it. -/
def chars (name : Name) : Chars := (List.range DIRSIZ).map name

variable (sb : Superblock) (devsw : Devsw)

/-- `namexLoop` on the bytes. -/
def namexLoop (nameiparent : Bool) : Nat → Pointer → Fin NINODE → Name → Op (Option (Fin NINODE × Name))
  | 0, _, _, _ => throw "no end of the path"
  | fuel + 1, path, ip, name => do
    match skipelem path name with
    | none => throw "a load from behind the path"
    | some (none, name) =>
      if nameiparent then
        iput sb ip
        return none
      return some (ip, name)
    | some (some path, name) =>
      ilock sb ip
      if ((← get).inode ip).dinode.type ≠ T_DIR then
        iunlockput sb ip
        return none
      if nameiparent && path.head? = some 0 then
        iunlock ip
        return some (ip, name)
      match ← dirlookup sb devsw ip (chars name) with
      | none =>
        iunlockput sb ip
        return none
      | some (next, _) =>
        iunlockput sb ip
        namexLoop nameiparent fuel path next name

def namex (cwd : Fin NINODE) (path : Pointer) (nameiparent : Bool) (name : Name) : Op (Option (Fin NINODE × Name)) := do
  let ip ← if path.head? = some slash then iget ROOTINO else idup cwd
  namexLoop sb devsw nameiparent path.length path ip name

variable {sb : Superblock} {devsw : Devsw} {path run : Chars} {s t : Chars} {name : Name} {ip : Fin NINODE} {i n fuel : Nat}
variable {nameiparent : Bool}

theorem skipSlashes_eq (path : Chars) : skipSlashes (path ++ [0]) = some (path.dropWhile (· = slash) ++ [0]) := by
  induction path with
  | nil => rfl
  | cons c rest ih =>
    rw [List.cons_append, skipSlashes]
    by_cases separates : c = slash
    · rw [if_pos separates, ih, List.dropWhile_cons, if_pos (decide_eq_true separates)]
    · rw [if_neg separates, List.dropWhile_cons_of_neg (by simpa using separates)]
      rfl

theorem skipName_eq (string : 0 ∉ path) : skipName (path ++ [0]) = some (path.dropWhile (· ≠ slash) ++ [0]) := by
  induction path with
  | nil => rfl
  | cons c rest ih =>
    have nonzero : c ≠ 0 := fun zero => string (zero ▸ List.mem_cons_self)
    rw [List.cons_append, skipName]
    by_cases separates : c = slash
    · rw [if_neg fun inner => inner.1 separates, List.dropWhile_cons_of_neg (by simpa using separates)]
      rfl
    · rw [if_pos ⟨separates, nonzero⟩, ih fun member => string (List.mem_cons_of_mem _ member),
        List.dropWhile_cons_of_pos (by simpa using separates)]

/-- The buffer after a run of bytes has gone into it. -/
def stored (name : Name) (run : Chars) : Name :=
  if DIRSIZ ≤ run.length then copy DIRSIZ name 0 fun i => run.getD i 0
  else update (copy run.length name 0 fun i => run.getD i 0) run.length 0

/-- The buffer holds the bytes of a run as far as there is room, and a NUL behind a shorter one. -/
structure Named (run : Chars) (name : Name) : Prop where
  bytes : ∀ i, i < min run.length DIRSIZ → name i = run.getD i 0
  ends : run.length < DIRSIZ → name run.length = 0

theorem stored_named (name : Name) (run : Chars) : Named run (stored name run) := by
  unfold stored
  constructor
  · intro i inside
    split
    · rw [copy_of_mem (by omega) (by omega)]
      rfl
    · rw [update_of_ne (by omega), copy_of_mem (by omega) (by omega)]
      rfl
  · intro short
    rw [if_neg (by omega), update_self]

theorem stored_behind (name : Name) (run : Chars) (behind : DIRSIZ ≤ i) : stored name run i = name i := by
  unfold stored
  split
  · rw [copy_of_apart (by omega)]
  · rw [update_of_ne (by omega), copy_of_apart (by omega)]

theorem copy_congr {d src src' : Nat → UInt8} (same : ∀ i, i < n → src i = src' i) : copy n d 0 src = copy n d 0 src' := by
  funext i
  unfold copy
  split
  · exact same _ (by omega)
  · rfl

theorem copyName_eq (fits : run.length < 2 ^ 31) (name : Name) (after : Pointer) :
    copyName name (run ++ after) (BitVec.ofNat 32 run.length) = some (stored name run) := by
  have len : (BitVec.ofNat 32 run.length).toNat = run.length := by
    rw [BitVec.toNat_ofNat, Nat.mod_eq_of_lt (by omega)]
  have len' : (BitVec.ofNat 32 run.length).toInt = run.length := by
    rw [BitVec.toInt_eq_toNat_cond, len, if_pos (by omega)]
  have bytes : ∀ i, i < run.length → (run ++ after).getD i 0 = run.getD i 0 := by
    intro i inside
    rw [List.getD_eq_getElem?_getD, List.getElem?_append_left inside, ← List.getD_eq_getElem?_getD]
  unfold copyName stored
  rw [len, len', if_neg (by omega)]
  by_cases long : DIRSIZ ≤ run.length
  · rw [if_pos (by omega), if_pos long, copy_congr fun i inside => bytes i (by omega)]
  · rw [if_neg (by omega), if_neg long, copy_congr bytes]

theorem skipelem_eq (string : 0 ∉ path) (fits : path.length < 2 ^ 31) (name : Name) :
    skipelem (path ++ [0]) name = some (match Fs.skipelem path with
      | none => (none, name)
      | some (_, rest) => (some (rest ++ [0]), stored name ((path.dropWhile (· = slash)).takeWhile (· ≠ slash)))) := by
  unfold skipelem Fs.skipelem
  rw [skipSlashes_eq]
  have string' : 0 ∉ path.dropWhile (· = slash) := fun member => string (List.dropWhile_subset _ member)
  have short : (path.dropWhile (· = slash)).length ≤ path.length := (List.dropWhile_suffix _).length_le
  generalize path.dropWhile (· = slash) = start at string' short
  cases start with
  | nil => rfl
  | cons c tail =>
    have nonzero : c ≠ 0 := fun zero => string' (zero ▸ List.mem_cons_self)
    have split : c :: tail = (c :: tail).takeWhile (· ≠ slash) ++ (c :: tail).dropWhile (· ≠ slash) :=
      List.takeWhile_append_dropWhile.symm
    have ended : c :: tail ++ [0] =
        (c :: tail).takeWhile (· ≠ slash) ++ ((c :: tail).dropWhile (· ≠ slash) ++ [0]) := by
      rw [← List.append_assoc, ← split]
    have count : (c :: tail ++ [0]).length - ((c :: tail).dropWhile (· ≠ slash) ++ [0]).length =
        ((c :: tail).takeWhile (· ≠ slash)).length := by
      rw [ended, List.length_append, Nat.add_sub_cancel]
    have bound : ((c :: tail).takeWhile (· ≠ slash)).length < 2 ^ 31 := by
      have := (List.takeWhile_sublist (p := fun c => decide (c ≠ slash)) (l := c :: tail)).length_le
      omega
    have copied : copyName name (c :: tail ++ [0]) (BitVec.ofNat 32
        ((c :: tail ++ [0]).length - ((c :: tail).dropWhile (· ≠ slash) ++ [0]).length)) =
          some (stored name ((c :: tail).takeWhile (· ≠ slash))) := by
      rw [count, ended]
      exact copyName_eq bound name _
    show (if c = 0 then _ else (skipName (c :: tail ++ [0])).bind _) = _
    rw [if_neg nonzero, skipName_eq string', Option.bind_some]
    show (copyName name (c :: tail ++ [0]) _).bind _ = _
    rw [copied, Option.bind_some]
    show (skipSlashes ((c :: tail).dropWhile (· ≠ slash) ++ [0])).bind _ = _
    rw [skipSlashes_eq]
    rfl

/-- What iterating `skipelem` on a path gives: a call for each run, with its name. The remaining path is empty after the
last call only, and nothing behind the buffer changes. -/
structure Exact (path : Chars) (name : Name) (calls : List (Pointer × Name)) : Prop where
  names : List.Forall₂ (fun call run => Named run call.2) calls (runs path)
  last : ∀ before call after, calls = before ++ call :: after → (call.1 = [0] ↔ after = [])
  behind : ∀ call ∈ calls, ∀ i, DIRSIZ ≤ i → call.2 i = name i

theorem elements_exact (string : 0 ∉ path) (fits : path.length < 2 ^ 31) (name : Name) (enough : path.length < fuel) :
    ∃ calls, elements fuel (path ++ [0]) name = some calls ∧ Exact path name calls := by
  induction fuel generalizing path name with
  | zero => exact absurd enough (Nat.not_lt_zero _)
  | succ fuel ih =>
    unfold elements
    rw [skipelem_eq string fits]
    cases found : Fs.skipelem path with
    | none =>
      refine ⟨[], rfl, ?_, ?_, fun call member => nomatch member⟩
      · rw [skipelem_none found]
        exact .nil
      · intro before call after split
        simp at split
    | some next =>
      obtain ⟨element, rest⟩ := next
      have shorter := skipelem_shorter found
      obtain ⟨calls, ran, exact⟩ := ih (skipelem_mem found string) (by omega)
        (stored name ((path.dropWhile (· = slash)).takeWhile (· ≠ slash))) (by omega)
      refine ⟨(rest ++ [0], stored name ((path.dropWhile (· = slash)).takeWhile (· ≠ slash))) :: calls, ?_, ?_, ?_, ?_⟩
      · show (elements fuel (rest ++ [0]) _).bind _ = _
        rw [ran]
        rfl
      · rw [skipelem_runs found]
        exact .cons (stored_named ..) exact.names
      · intro before call after split
        cases before with
        | nil =>
          cases split
          have count : calls = [] ↔ runs rest = [] := by
            rw [← List.length_eq_zero_iff, exact.names.length_eq, List.length_eq_zero_iff]
          rw [count, ← skipelem_last found]
          exact List.append_left_eq_self
        | cons first before =>
          cases split
          exact exact.last before call after rfl
      · intro call member i behind
        rcases List.mem_cons.mp member with rfl | later
        · exact stored_behind _ _ behind
        · rw [exact.behind call later i behind, stored_behind _ _ behind]

theorem strncmp_congr {u : Chars} (same : ∀ i, i < n → (∀ j, j < i → s.getD j 0 ≠ 0) → s.getD i 0 = t.getD i 0) :
    strncmp s u n = strncmp t u n := by
  induction n generalizing s t u with
  | zero => rfl
  | succ n ih =>
    have heads : ∀ l : Chars, l.headD 0 = l.getD 0 0 := fun l => by cases l <;> rfl
    have tails : ∀ (l : Chars) i, l.tail.getD i 0 = l.getD (i + 1) 0 := fun l i => by cases l <;> rfl
    have head : s.headD 0 = t.headD 0 := by
      rw [heads, heads]
      exact same 0 (by omega) fun j low => absurd low (Nat.not_lt_zero j)
    unfold strncmp
    rw [head]
    split
    · rename_i going
      apply ih
      intro i small before
      rw [tails, tails]
      apply same (i + 1) (by omega)
      intro j low
      cases j with
      | zero =>
        rw [← heads, head]
        exact going.1
      | succ j =>
        rw [← tails]
        exact before j (by omega)
    · rfl

theorem namecmp_named (named : Named run name) (t : Chars) : namecmp (chars name) t = namecmp (run.take DIRSIZ) t := by
  unfold namecmp
  apply strncmp_congr
  intro i inside before
  have bytes : ∀ j, j < DIRSIZ → (chars name).getD j 0 = name j := fun j low => getD_map_range low
  have run_bytes : (run.take DIRSIZ).getD i 0 = run.getD i 0 := by
    rw [List.getD_eq_getElem?_getD, List.getElem?_take_of_lt inside, ← List.getD_eq_getElem?_getD]
  rw [bytes i inside, run_bytes]
  rcases Nat.lt_trichotomy i run.length with low | last | high
  · exact named.bytes i (by omega)
  · subst last
    rw [named.ends inside, List.getD_eq_getElem?_getD, List.getElem?_eq_none (Nat.le_refl _), Option.getD_none]
  · have := before run.length high
    rw [bytes _ (by omega), named.ends (by omega)] at this
    exact absurd rfl this

theorem dirlookup_named (named : Named run name) :
    dirlookup sb devsw ip (chars name) = dirlookup sb devsw ip (run.take DIRSIZ) := by
  unfold dirlookup
  simp only [namecmp_named named]

theorem head_zero (string : 0 ∉ path) : (path ++ [0]).head? = some 0 ↔ path = [] := by
  cases path with
  | nil => exact iff_of_true rfl rfl
  | cons c rest =>
    have nonzero : c ≠ 0 := fun zero => string (zero ▸ List.mem_cons_self)
    simp [nonzero]

/-- The loop of `namex` on the bytes ends where the names lead to, and leaves the last one in the buffer. -/
theorem namexLoop_eq (string : 0 ∉ path) (fits : path.length < 2 ^ 31) (enough : path.length < fuel) :
    namexLoop sb devsw nameiparent fuel (path ++ [0]) ip name =
      target sb devsw nameiparent (names path) ip >>= fun r => pure (r.map fun ip => (ip, (runs path).foldl stored name)) := by
  induction fuel generalizing path ip name with
  | zero => exact absurd enough (Nat.not_lt_zero _)
  | succ fuel ih =>
    unfold namexLoop
    rw [skipelem_eq string fits]
    cases found : Fs.skipelem path with
    | none =>
      rw [names, skipelem_none found]
      cases nameiparent
      · exact (pure_bind _ _).symm
      · show (iput sb ip >>= fun _ => pure none) = (iput sb ip >>= fun _ => pure none) >>= _
        rw [bind_assoc]
        rfl
    | some next =>
      obtain ⟨element, rest⟩ := next
      have shorter := skipelem_shorter found
      dsimp only
      have named := stored_named name ((path.dropWhile (· = slash)).takeWhile (· ≠ slash))
      rw [names_cons found, skipelem_runs found, List.foldl_cons, dirlookup_named named, ← (skipelem_some found).2.1]
      apply target_pass
      · rw [Bool.and_eq_true, decide_eq_true_eq, head_zero (skipelem_mem found string), skipelem_last found, names,
          List.map_eq_nil_iff]
      · intro none
        rw [List.map_eq_nil_iff.mp none]
        rfl
      · exact fun next => ih (skipelem_mem found string) (by omega) (by omega)

theorem namex_string {cwd : Fin NINODE} (string : 0 ∉ path) (fits : path.length < 2 ^ 31) :
    namex sb devsw cwd (path ++ [0]) nameiparent name =
      Fs.namex sb devsw cwd path nameiparent >>= fun r => pure (r.map fun found => (found.1, (runs path).foldl stored name)) := by
  have first : (path ++ [0]).head? = some slash ↔ path.head? = some slash := by
    cases path with
    | nil => exact iff_of_false (by decide) (by decide)
    | cons c rest => exact Iff.rfl
  have enough : path.length < (path ++ [0]).length := by
    rw [List.length_append]
    exact Nat.lt_succ_self _
  have loops : ∀ ip, namexLoop sb devsw nameiparent (path ++ [0]).length (path ++ [0]) ip name =
      Fs.namexLoop sb devsw nameiparent (path.length + 1) path ip [] >>= fun r =>
        pure (r.map fun found => (found.1, (runs path).foldl stored name)) := by
    intro ip
    rw [namexLoop_eq string fits enough, Fs.namexLoop_eq (Nat.lt_succ_self _), bind_assoc]
    apply bind_congr
    intro r
    rw [pure_bind, Option.map_map]
    rfl
  unfold namex Fs.namex
  by_cases absolute : path.head? = some slash
  · simp only [first, absolute, if_true, bind_assoc]
    exact bind_congr loops
  · simp only [first, absolute, if_false, bind_assoc]
    exact bind_congr loops

/-- Splitting a path is exact: each run without a slash is an element, in order, and `namex` stops one level early for the
last one. -/
theorem path_elements (sb : Superblock) (devsw : Devsw) {path : Chars} (string : 0 ∉ path) (fits : path.length < 2 ^ 31)
    (name : Name) :
    (∃ calls, elements (path.length + 1) (path ++ [0]) name = some calls ∧ Exact path name calls) ∧
      (runs path = [] → ∀ cwd, namex sb devsw cwd (path ++ [0]) true name = (do
        let ip ← start cwd path
        iput sb ip
        return none)) ∧
      ∀ before last, runs path = before ++ [last] →
        Named last ((runs path).foldl stored name) ∧
          ∀ cwd, namex sb devsw cwd (path ++ [0]) true name = (do
            let ip ← start cwd path
            let above ← walk sb devsw (before.map (List.take DIRSIZ)) ip
            let dp ← follow (enter sb) above
            return dp.map fun dp => (dp, (runs path).foldl stored name)) := by
  refine ⟨elements_exact string fits name (Nat.lt_succ_self _), ?_, ?_⟩
  · intro empty cwd
    rw [namex_string string fits, namex_eq, names, empty, bind_assoc]
    apply bind_congr
    intro ip
    show ((iput sb ip >>= fun _ => pure none) >>= _) >>= _ = _
    rw [bind_assoc, bind_assoc]
    rfl
  · intro before last split
    constructor
    · rw [split, List.foldl_append]
      exact stored_named _ last
    · intro cwd
      rw [namex_string string fits, namex_eq, names, split, List.map_append, bind_assoc]
      apply bind_congr
      intro ip
      show (walkParent sb devsw (before.map (List.take DIRSIZ) ++ [last.take DIRSIZ]) ip >>= _) >>= _ = _
      rw [walkParent_append, bind_assoc, bind_assoc]
      simp only [pure_bind, Option.map_map]
      rfl

/-- An element of 15 bytes between slashes, and a short one behind it. -/
def twoElements : Chars := [47, 49, 50, 51, 52, 53, 54, 55, 56, 57, 48, 49, 50, 51, 52, 53, 47, 47, 98, 47]

/-- The entry of the cache that the working directory is in. -/
def workingDirectory : Fin NINODE := ⟨7, by decide⟩

theorem path_elements_of_two :
    (∃ calls, elements 21 (twoElements ++ [0]) (fun _ => 7) = some calls ∧ Exact twoElements (fun _ => 7) calls) ∧
      ∃ name, Named [98] name ∧
        namex Mkfs.sb noDevice workingDirectory (twoElements ++ [0]) true (fun _ => 7) = (do
          let ip ← start workingDirectory twoElements
          let above ← walk Mkfs.sb noDevice [[49, 50, 51, 52, 53, 54, 55, 56, 57, 48, 49, 50, 51, 52]] ip
          let dp ← follow (enter Mkfs.sb) above
          return dp.map fun dp => (dp, name)) := by
  have string : 0 ∉ twoElements := by decide
  have fits : twoElements.length < 2 ^ 31 := by decide
  obtain ⟨exact, -, parent⟩ := path_elements Mkfs.sb noDevice string fits fun _ => 7
  obtain ⟨named, calls⟩ := parent [[49, 50, 51, 52, 53, 54, 55, 56, 57, 48, 49, 50, 51, 52, 53]] [98] (by decide)
  exact ⟨exact, _, named, calls workingDirectory⟩

end Xv6.Fs.Bytewise
