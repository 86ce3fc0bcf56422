import Xv6.Exec.Succeeds

namespace Xv6

open CommandProgram Function Ledger Discipline Reading

/-- What the `main` of a C program is given: `argc`, and the strings that `argv` leads to. -/
def mainArguments (mem : Space) (fuel esp : Nat) : Option (Nat × List (List UInt8)) := do
  let argc ← number mem 4 (esp + 4)
  let argv ← number mem 4 (esp + 8)
  let pointers ← array mem fuel argv
  let strings ← pointers.mapM (string mem fuel)
  return (argc, strings)

/-- What lies on the stack, by place and length: the words for `main`, and each string with its NUL. -/
def stackAreas (esp : Nat) (argv : List (List UInt8)) (pointers : List Nat) : List (Nat × Nat) :=
  (esp, 16 + 4 * pointers.length) :: Placed.areas argv pointers

/-- The arguments of a program of size `sz` that begins with stack pointer `esp`. -/
structure StackArguments (mem : Space) (sz esp : Nat) (argv : List (List UInt8)) (pointers : List Nat) : Prop where
  read : ∀ fuel, pgSize ≤ fuel → mainArguments mem fuel esp = some (argv.length, argv)
  base : number mem 4 (esp + 8) = some (esp + 12)
  pointed : ∀ fuel, pgSize ≤ fuel → array mem fuel (esp + 12) = some pointers
  aligned : esp % 4 = 0 ∧ ∀ q ∈ pointers, q % 4 = 0
  inside : ∀ a ∈ stackAreas esp argv pointers, sz - pgSize ≤ a.1 ∧ a.1 + a.2 ≤ sz
  apart : (stackAreas esp argv pointers).Pairwise fun a b => a.1 + a.2 ≤ b.1 ∨ b.1 + b.2 ≤ a.1

theorem word_eq (n : Nat) : word n = digits 4 n := by
  simp [word, digits, Nat.div_div_eq_div_mul]

section StackLayout

variable {mem : Space} {sz esp : Nat} {argv : List (List UInt8)} {pointers : List Nat}

namespace StackLayout

theorem frame (layout : StackLayout mem sz esp argv pointers) (bound : sz < kernBase) :
    number mem 4 (esp + 4) = some pointers.length ∧ number mem 4 (esp + 8) = some (esp + 12) ∧
      Holds mem (esp + 12) ((pointers ++ [0]).flatMap (digits 4)) := by
  have top := layout.placed.le
  have words := layout.words
  unfold ustack at words
  have encode : word = digits 4 := funext word_eq
  rw [encode, List.append_assoc, List.flatMap_append] at words
  simp only [List.flatMap_cons, List.flatMap_nil, List.append_nil] at words
  obtain ⟨first, rest⟩ := Holds.append_iff.mp words
  obtain ⟨_, first⟩ := Holds.append_iff.mp first
  obtain ⟨argc, base⟩ := Holds.append_iff.mp first
  unfold kernBase at bound
  have place : (esp + 16 + 4 * pointers.length + 2 ^ 32 - (pointers.length + 1) * 4) % 2 ^ 32 = esp + 12 := by omega
  rw [place] at base
  exact ⟨number_digits (by omega) argc, number_digits (by omega) base, rest⟩

theorem array_eq (layout : StackLayout mem sz esp argv pointers) (stack : 2 * pgSize ≤ sz) (bound : sz < kernBase) {fuel : Nat}
    (enough : pgSize ≤ fuel) : array mem fuel (esp + 12) = some pointers := by
  have low := layout.low
  have top := layout.placed.le
  refine array_words (fun q member => ?_) (by omega) (layout.frame bound).2.2
  have there := layout.placed.pointer q member
  unfold kernBase at bound
  unfold pgSize at *
  omega

theorem arguments (layout : StackLayout mem sz esp argv pointers) (whole : sz % pgSize = 0) (stack : 2 * pgSize ≤ sz)
    (bound : sz < kernBase) (nul : ∀ arg ∈ argv, 0 ∉ arg) : StackArguments mem sz esp argv pointers := by
  have low := layout.low
  have top := layout.placed.le
  obtain ⟨argc, base, _⟩ := layout.frame bound
  have aligned := layout.placed.aligned (by unfold pgSize at whole; omega)
  constructor
  case read =>
    intro fuel enough
    have strings : pointers.mapM (string mem fuel) = some argv := layout.placed.strings nul (by omega)
    rw [mainArguments, argc, base, Option.bind_eq_bind, Option.bind_some, Option.bind_eq_bind, Option.bind_some,
      layout.array_eq stack bound enough, Option.bind_eq_bind, Option.bind_some, strings, layout.placed.length_eq]
    rfl
  case base => exact base
  case pointed => exact fun fuel enough => layout.array_eq stack bound enough
  case aligned => exact ⟨by omega, fun q member => (layout.placed.pointer q member).1⟩
  case inside =>
    intro a member
    rcases List.mem_cons.mp member with rfl | later
    · exact ⟨low, by dsimp only; omega⟩
    · have area := layout.placed.area a later
      exact ⟨area.1, area.2.2⟩
  case apart =>
    refine List.Pairwise.cons (fun b member => .inl ?_) layout.placed.apart
    have area := layout.placed.area b member
    dsimp only
    omega

end StackLayout

end StackLayout

variable [KernelImage] {ι : Type} [Fintype ι] [DecidableEq ι]
variable {κ : Kernel} {t : ι} {s s' : Shared} {own : ι → Proc} {p' : Proc} {x : PgDir} {mark : Nat → Mark}

/-- The arguments of `exec` come back from the memory of the new program as its `main` reads them. -/
theorem exec_arguments {task task' : Exec.Task} {path : List UInt8} {file : Option Exec.Binary} {argv : List (List UInt8)}
    (calm : (execSetting ι κ).Calm s own mark) (at_pgdir : (own t).dirs (own t).pgdir = some x)
    (nul : ∀ arg ∈ argv, 0 ∉ arg)
    (ran : Program.run (execute κ) (Exec.exec task path (own t).pgdir file argv) (s, own t) = (.ok (true, task'), (s', p'))) :
    p'.sz % pgSize = 0 ∧ p'.table.User (pageOf p'.sz - 1) ∧
      ∃ pointers, StackArguments (p'.table.space s'.ram) p'.sz task'.esp argv pointers := by
  have outline : (execSetting ι κ).Outline (Exec.exec task path (own t).pgdir file argv) (own t) (.calm s mark) _ :=
    Exec.exec_outline at_pgdir (fun _ claim => claim) (fun _ => rfl) id
  obtain ⟨gh', mark', ⟨_, _, installed⟩, change⟩ := calm.ran trivial outline
    (fun _ _ _ after => ⟨after.1.1, after.1.2.1⟩) ran
  obtain ⟨y, pointers, at_d, ready, layout⟩ := installed rfl
  have table : p'.table = y := Proc.dir_of at_d
  have whole := ready.whole
  have stack := ready.stack
  have bound := ready.bound
  have same : y.space s'.ram = y.space gh'.pages := by
    funext va
    unfold PgDir.space
    by_cases user : y.User (pageOf (va % 2 ^ 32))
    · have opened := ready.opened user.1 user.2
      rw [if_pos user, if_pos user, change.page at_d opened.user opened.present]
      rfl
    · rw [if_neg user, if_neg user]
  rw [table, same]
  refine ⟨whole, ?_, pointers, layout.arguments whole stack bound nul⟩
  have mapped := ready.mapped (pageOf p'.sz - 1) (by unfold pageOf pgSize at *; omega)
  exact ⟨mapped.1, mapped.2.2.mpr (by unfold pageOf pgSize at *; omega)⟩

omit [KernelImage] in
/-- A program of no bytes with the arguments "wc", "notes.txt", "" and "a". -/
theorem exec_arguments_of_four :
    letI := builtImage
    ∃ (s s' : Shared) (own : Fin 1 → Proc) (p' : Proc) (task' : Exec.Task),
      Program.run (execute .cow) (Exec.exec ⟨0, 0, false, [], 0, 0⟩ [47, 119, 99] (own 0).pgdir (some ⟨bare, 0⟩)
        [[119, 99], [110, 111, 116, 101, 115, 46, 116, 120, 116], [], [97]]) (s, own 0) = (.ok (true, task'), (s', p')) ∧
      (p'.sz % pgSize = 0 ∧ p'.table.User (pageOf p'.sz - 1) ∧
        ∃ pointers, StackArguments (p'.table.space s'.ram) p'.sz task'.esp
          [[119, 99], [110, 111, 116, 101, 115, 46, 116, 120, 116], [], [97]] pointers) := by
  let := builtImage
  obtain ⟨c, x₀, first⟩ := first_reached .cow (fun _ _ => True) (0 : Fin 1) (by decide : [].length < pgSize) fun _ => Shared.junk
  obtain ⟨mark, calm⟩ := first.sane.calm
  obtain ⟨s', p', execed⟩ := exec_succeeds first [[119, 99], [110, 111, 116, 101, 115, 46, 116, 120, 116], [], [97]]
    (by decide) (by decide)
  obtain ⟨task', ran⟩ := execed.code ⟨0, 0, false, [], 0, 0⟩ [47, 119, 99]
  exact ⟨_, _, _, _, _, ran, exec_arguments (calm.transfer rfl rfl) first.occupied.at_pgdir (by decide) ran⟩

end Xv6
