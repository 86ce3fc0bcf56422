import Xv6.Fs.Directory
import Xv6.Library.Splitting

namespace Xv6.Fs

open Splitting

/-- The elements of a path in full: the longest pieces without a slash. -/
def runs (path : Chars) : List Chars := Splitting.pieces (fun c => decide (c = slash)) path

variable (sb : Superblock) (devsw : Devsw)

/-- From one directory to what its entry for the element leads to; 0 if it is no directory or has no such entry. -/
def descend (ip : Fin NINODE) (element : Chars) : Op (Option (Fin NINODE)) := do
  ilock sb ip
  if ((← get).inode ip).dinode.type ≠ T_DIR then
    iunlockput sb ip
    return none
  match ← dirlookup sb devsw ip element with
  | none =>
    iunlockput sb ip
    return none
  | some (next, _) =>
    iunlockput sb ip
    return some next

/-- Where the elements lead to from `ip`. -/
def walk : List Chars → Fin NINODE → Op (Option (Fin NINODE))
  | [], ip => return some ip
  | element :: rest, ip => do
    match ← descend sb devsw ip element with
    | none => return none
    | some next => walk rest next

/-- What comes after a step, if there is anything to go on with. -/
def follow {β : Type} (rest : Fin NINODE → Op (Option β)) : Option (Fin NINODE) → Op (Option β)
  | none => return none
  | some next => rest next

def enter (dp : Fin NINODE) : Op (Option (Fin NINODE)) := do
  ilock sb dp
  if ((← get).inode dp).dinode.type ≠ T_DIR then
    iunlockput sb dp
    return none
  iunlock dp
  return some dp

/-- The directory that all elements but the last lead to, if it is one. -/
def walkParent (elements : List Chars) (ip : Fin NINODE) : Op (Option (Fin NINODE)) :=
  if elements = [] then do
    iput sb ip
    return none
  else walk sb devsw elements.dropLast ip >>= follow (enter sb)

variable {sb : Superblock} {devsw : Devsw} {path rest element name : Chars} {es : List Chars} {ip : Fin NINODE}
variable {fuel : Nat} {nameiparent : Bool} {β γ : Type}

theorem skipelem_some (found : skipelem path = some (element, rest)) : path.dropWhile (· = slash) ≠ [] ∧
    element = ((path.dropWhile (· = slash)).takeWhile (· ≠ slash)).take DIRSIZ ∧
      rest = ((path.dropWhile (· = slash)).dropWhile (· ≠ slash)).dropWhile (· = slash) := by
  unfold skipelem at found
  dsimp only at found
  split_ifs at found with empty
  cases found
  exact ⟨empty, rfl, rfl⟩

theorem skipelem_none (none : skipelem path = none) : runs path = [] := by
  unfold skipelem at none
  dsimp only at none
  split_ifs at none with empty
  rw [runs, ← pieces_dropWhile, empty, pieces_nil]

theorem skipelem_runs (found : skipelem path = some (element, rest)) :
    runs path = (path.dropWhile (· = slash)).takeWhile (· ≠ slash) :: runs rest := by
  obtain ⟨nonempty, -, rfl⟩ := skipelem_some found
  have same : ∀ c : UInt8, decide (c ≠ slash) = !decide (c = slash) := fun c => decide_not
  rw [runs, ← pieces_dropWhile, pieces_step (fun _ head => dropWhile_head head) nonempty]
  simp only [same, runs]

/-- What remains of a path does not begin with a slash, so that it is empty when the element was the last one. -/
theorem skipelem_last (found : skipelem path = some (element, rest)) : rest = [] ↔ runs rest = [] := by
  constructor
  · rintro rfl
    exact pieces_nil
  · intro none
    obtain ⟨-, -, rfl⟩ := skipelem_some found
    by_contra remains
    rw [runs, pieces_step (fun _ head => dropWhile_head head) remains] at none
    cases none

theorem skipelem_mem (found : skipelem path = some (element, rest)) (string : 0 ∉ path) : 0 ∉ rest := by
  obtain ⟨-, -, rfl⟩ := skipelem_some found
  intro member
  apply string
  exact (List.dropWhile_subset _) ((List.dropWhile_subset _) ((List.dropWhile_subset _) member))

theorem skipelem_shorter (found : skipelem path = some (element, rest)) : rest.length < path.length := by
  obtain ⟨nonempty, -, rfl⟩ := skipelem_some found
  have first := (List.dropWhile_suffix (p := fun c => decide (c = slash)) (l := path)).length_le
  cases start : path.dropWhile (· = slash) with
  | nil => exact absurd start nonempty
  | cons c tail =>
    have head : (path.dropWhile (· = slash)).head? = some c := by rw [start, List.head?_cons]
    have not_slash : decide (c = slash) = false := dropWhile_head (p := fun c => decide (c = slash)) head
    have second := (List.dropWhile_suffix (p := fun c => decide (c ≠ slash)) (l := tail)).length_le
    have third := (List.dropWhile_suffix (p := fun c => decide (c = slash))
      (l := tail.dropWhile fun c => decide (c ≠ slash))).length_le
    rw [start, List.length_cons] at first
    rw [List.dropWhile_cons, if_pos (by simpa using not_slash)]
    omega

theorem follow_bind (rest : Fin NINODE → Op (Option β)) (f : β → γ) (r : Option (Fin NINODE)) :
    (follow rest r >>= fun r => pure (r.map f)) = follow (fun ip => rest ip >>= fun r => pure (r.map f)) r := by
  cases r with
  | none => exact pure_bind ..
  | some next => rfl

theorem walk_cons : walk sb devsw (element :: es) ip = descend sb devsw ip element >>= follow (walk sb devsw es) := by
  rw [walk]
  apply bind_congr
  rintro (_ | next)
  · rfl
  · rfl

theorem walkParent_cons (more : es ≠ []) :
    walkParent sb devsw (element :: es) ip = descend sb devsw ip element >>= follow (walkParent sb devsw es) := by
  unfold walkParent
  rw [if_neg (List.cons_ne_nil _ _), List.dropLast_cons_of_ne_nil more, walk_cons, bind_assoc]
  apply bind_congr
  rintro (_ | next)
  · exact pure_bind ..
  · dsimp only [follow]
    rw [if_neg more]

theorem walkParent_append {before : List Chars} {last : Chars} :
    walkParent sb devsw (before ++ [last]) ip = walk sb devsw before ip >>= follow (enter sb) := by
  unfold walkParent
  rw [if_neg (by simp), List.dropLast_concat]

theorem walkParent_last : walkParent sb devsw [element] ip = enter sb ip := by
  rw [← List.nil_append [element], walkParent_append]
  exact pure_bind ..

theorem descend_follow (rest : Fin NINODE → Op (Option β)) : (descend sb devsw ip element >>= follow rest) = (do
    ilock sb ip
    if ((← get).inode ip).dinode.type ≠ T_DIR then
      iunlockput sb ip
      return none
    match ← dirlookup sb devsw ip element with
    | none =>
      iunlockput sb ip
      return none
    | some (next, _) =>
      iunlockput sb ip
      rest next) := by
  unfold descend
  simp only [bind_assoc]
  apply bind_congr
  intro _
  apply bind_congr
  intro s
  split
  · simp only [bind_assoc, pure_bind]
    rfl
  · simp only [bind_assoc]
    apply bind_congr
    rintro (_ | ⟨next, off⟩)
    · simp only [bind_assoc, pure_bind]
      rfl
    · simp only [bind_assoc, pure_bind]
      rfl

/-- Where `namex` ends: at what all elements lead to, or one level early. -/
def target (sb : Superblock) (devsw : Devsw) (nameiparent : Bool) (es : List Chars) (ip : Fin NINODE) : Op (Option (Fin NINODE)) :=
  if nameiparent then walkParent sb devsw es ip else walk sb devsw es ip

theorem target_cons {nameiparent : Bool} (goes_on : nameiparent = true → es ≠ []) :
    target sb devsw nameiparent (element :: es) ip = descend sb devsw ip element >>= follow (target sb devsw nameiparent es) := by
  cases nameiparent with
  | false => exact walk_cons
  | true => exact walkParent_cons (goes_on rfl)

def names (path : Chars) : List Chars := (runs path).map (List.take DIRSIZ)

theorem names_cons (found : skipelem path = some (element, rest)) : names path = element :: names rest := by
  rw [names, skipelem_runs found, List.map_cons, ← (skipelem_some found).2.1, names]

/-- Where `namex` starts. -/
def start (cwd : Fin NINODE) (path : Chars) : Op (Fin NINODE) := if path.head? = some slash then iget ROOTINO else idup cwd

/-- One pass of the loop of `namex`: it ends here for the parent directory of the last element, or goes on with the rest. -/
theorem target_pass {reached : Fin NINODE → β} {here : β} {rest : Fin NINODE → Op (Option β)} {stop : Bool}
    (stops : stop = true ↔ nameiparent = true ∧ es = []) (arrived : es = [] → here = reached ip)
    (continues : ∀ next, rest next = target sb devsw nameiparent es next >>= fun r => pure (r.map reached)) :
    (do
      ilock sb ip
      if ((← get).inode ip).dinode.type ≠ T_DIR then
        iunlockput sb ip
        return none
      if stop then
        iunlock ip
        return some here
      match ← dirlookup sb devsw ip element with
      | none =>
        iunlockput sb ip
        return none
      | some (next, _) =>
        iunlockput sb ip
        rest next) = target sb devsw nameiparent (element :: es) ip >>= fun r => pure (r.map reached) := by
  by_cases last : nameiparent = true ∧ es = []
  · rw [stops.mpr last]
    obtain ⟨rfl, rfl⟩ := last
    rw [arrived rfl]
    show _ = walkParent sb devsw [element] ip >>= _
    rw [walkParent_last, enter]
    simp only [bind_assoc]
    apply bind_congr
    intro _
    apply bind_congr
    intro s
    split
    · simp only [bind_assoc, pure_bind]
      rfl
    · simp only [bind_assoc, pure_bind]
      rfl
  · have goes_on : nameiparent = true → es ≠ [] := fun parent none => last ⟨parent, none⟩
    rw [Bool.eq_false_iff.mpr fun stop => last (stops.mp stop), target_cons goes_on, bind_assoc]
    simp only [follow_bind, Bool.false_eq_true, if_false]
    rw [descend_follow, funext continues]

theorem namexLoop_eq (enough : path.length < fuel) : namexLoop sb devsw nameiparent fuel path ip name =
    target sb devsw nameiparent (names path) ip >>= fun r => pure (r.map fun ip => (ip, (names path).getLastD name)) := by
  induction fuel generalizing path ip name with
  | zero => exact absurd enough (Nat.not_lt_zero _)
  | succ fuel ih =>
    unfold namexLoop
    cases found : skipelem path with
    | none =>
      rw [names, skipelem_none found]
      cases nameiparent
      · exact (pure_bind _ _).symm
      · show (iput sb ip >>= fun _ => pure none) = (iput sb ip >>= fun _ => pure none) >>= _
        rw [bind_assoc]
        rfl
    | some next =>
      obtain ⟨element, rest⟩ := next
      have shorter := skipelem_shorter found
      dsimp only
      rw [names_cons found, List.getLastD_cons]
      apply target_pass
      · rw [Bool.and_eq_true, List.isEmpty_iff, skipelem_last found, names, List.map_eq_nil_iff]
      · intro none
        rw [none]
        rfl
      · exact fun next => ih (by omega)

theorem namex_eq {cwd : Fin NINODE} : namex sb devsw cwd path nameiparent = (do
    let ip ← start cwd path
    let r ← target sb devsw nameiparent (names path) ip
    return r.map fun ip => (ip, (names path).getLastD [])) := by
  unfold namex start
  by_cases absolute : path.head? = some slash
  · simp only [absolute, if_true]
    apply bind_congr
    intro ip
    exact namexLoop_eq (Nat.lt_succ_self _)
  · simp only [absolute, if_false]
    apply bind_congr
    intro ip
    exact namexLoop_eq (Nat.lt_succ_self _)

end Xv6.Fs
