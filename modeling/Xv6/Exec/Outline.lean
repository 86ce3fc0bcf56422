import Xv6.Exec.Stack

namespace Xv6

open CommandProgram Function Ledger Discipline Reading

variable [KernelImage] {ι : Type} [Fintype ι] [DecidableEq ι]
variable {S : Setting ι} {lo : Proc} {gh : Gh} {d pgdir : Nat} {x : PgDir} {task : Exec.Task} {path : List UInt8}
variable {argv : List (List UInt8)}

namespace Exec

/-- What `exec` began it has ended, and if it fails then the registers and the name are as they were. -/
structure Settled (task : Task) (replaced : Bool) (task' : Task) : Prop where
  outstanding : task'.outstanding = task.outstanding
  refs : task'.refs = task.refs
  unlocked : task.locked = false → task'.locked = false
  kept : replaced = false → task'.name = task.name ∧ task'.eip = task.eip ∧ task'.esp = task.esp

/-- The new program with its arguments, as user code finds it. -/
def Installed (lo : Proc) (gh : Gh) (esp : Nat) (argv : List (List UInt8)) : Prop :=
  ∃ y pointers, lo.dirs lo.pgdir = some y ∧ Loaded y lo.sz ∧ StackLayout (y.space gh.pages) lo.sz esp argv pointers

/-- After `exec`: all is as before, or the new program is there with its arguments. -/
def After (task : Task) (pgdir : Nat) (argv : List (List UInt8)) (a : Proc × Gh) (result : Bool × Task) (lo : Proc) (gh : Gh) :
    Prop :=
  Replaced pgdir a result.1 (lo, gh) ∧ Settled task result.1 result.2 ∧
    (result.1 = true → Installed lo gh result.2.esp argv)

theorem exec_outline {file : Option Binary} (at_pgdir : lo.dirs pgdir = some x) (noclaim : ∀ f, ¬ gh.claim f)
    (settled : ∀ f, gh.tok .uncounted f = 0) (lax : ¬ S.strict) :
    S.Outline (exec task path pgdir file argv) lo gh (After task pgdir argv (lo, gh)) := by
  have unchanged : ∀ {task' : Task} {lo' : Proc} {gh' : Gh}, Settled task false task' → gh'.tok = gh.tok →
      (∀ f, ¬ gh'.claim f) → lo' = lo → SeesAs (lo, gh) (lo', gh') →
      After task pgdir argv (lo, gh) (false, task') lo' gh' :=
    fun ended tok noclaim' own sees => ⟨⟨tok, noclaim', own, sees⟩, ended, fun wrong => absurd wrong Bool.false_ne_true⟩
  have bare : Settled task false task.begin_op.namei.ilock.iunlockput.end_op :=
    ⟨Nat.add_sub_cancel .., Nat.add_sub_cancel .., fun _ => rfl, fun _ => ⟨rfl, rfl, rfl⟩⟩
  have early : S.Outline (bad task.begin_op.namei.ilock none true) lo gh (After task pgdir argv (lo, gh)) :=
    pure_rule (unchanged bare rfl noclaim rfl fun _ _ => rfl)
  have late : ∀ {d : Nat} {y : PgDir} {lo' : Proc} {gh' : Gh} {task' : Task} (ip : Bool), Beside d y (lo, gh) (lo', gh') →
      (if ip then task'.iunlockput.end_op else task') = task.begin_op.namei.ilock.iunlockput.end_op →
      S.Outline (bad task' (some d) ip) lo' gh' (After task pgdir argv (lo, gh)) := by
    intro d y lo' gh' task' ip beside same
    unfold bad
    rw [same]
    apply Outline.andThen (freevm_outline beside.at_d beside.noclaim (by rw [beside.tok]; exact settled))
    rintro _ lo₃ gh₃ ⟨own, rfl⟩
    have back : lo₃ = lo := by
      rw [own, beside.own]
      exact Proc.drop_setDir beside.absent y
    exact pure_rule (unchanged bare beside.tok beside.noclaim back beside.sees)
  unfold exec
  rcases file with _ | ip
  · exact pure_rule (unchanged ⟨Nat.add_sub_cancel .., rfl, id, fun _ => ⟨rfl, rfl, rfl⟩⟩ rfl noclaim rfl fun _ _ => rfl)
  · dsimp only
    rcases ip.elf with _ | elf
    · exact early
    · dsimp only
      by_cases foreign : elf.magic ≠ elfMagic
      · rw [if_pos foreign]
        exact early
      · rw [if_neg foreign]
        apply Outline.andThen (setupkvm_outline noclaim settled)
        rintro (_ | d) lo₁ gh₁ made
        · obtain ⟨_, rfl, tok, noclaim₁, grows⟩ := made
          exact pure_rule (unchanged bare tok noclaim₁ rfl grows.seesAs)
        · obtain ⟨absent, y, added, kernel⟩ := made
          have flat : Flat y 0 := by
            refine ⟨fun v low => absurd low (by omega), fun v _ user => ?_, fun v _ => by rw [kernel]⟩
            rw [kernel, kmapPte_user user]
            rfl
          have beside : Beside d y (lo, gh) (lo₁, gh₁) := ⟨absent, added.own, added.tok, added.noclaim, added.grows.seesAs⟩
          dsimp only
          apply Outline.andThen (segments_outline flat beside (by decide) settled)
          rintro (_ | size) lo₂ gh₂ ⟨y₂, beside₂, loaded⟩
          · exact late true beside₂ rfl
          · obtain ⟨-, flat₂⟩ := loaded size rfl
            dsimp only
            apply Outline.andThen (stack_outline flat₂ beside₂ settled lax)
            rintro (_ | ⟨sz, esp⟩) lo₃ gh₃ ⟨y₃, beside₃, stacked⟩
            · exact late false beside₃ rfl
            · obtain ⟨ready, pointers, layout⟩ := stacked sz esp rfl
              dsimp only
              apply commit_rule beside₃.noclaim
              have apart : pgdir ≠ d := by
                rintro rfl
                rw [at_pgdir] at absent
                exact absurd absent (by simp)
              have own₃ : lo₃ = lo.setDir d y₃ := beside₃.own
              have at_pgdir₃ : ({ lo₃ with pgdir := d, sz := sz } : Proc).dirs pgdir = some x := by
                simp [own₃, apart, at_pgdir]
              apply Outline.andThen (freevm_outline at_pgdir₃ beside₃.noclaim (by rw [beside₃.tok]; exact settled))
              rintro _ lo₄ gh₄ ⟨own, rfl⟩
              rw [own₃] at own
              refine pure_rule ⟨⟨beside₃.tok, beside₃.noclaim, d, y₃, sz, absent, ready, own⟩, ⟨bare.outstanding, bare.refs,
                bare.unlocked, fun wrong => absurd wrong.symm Bool.false_ne_true⟩, fun _ => ?_⟩
              rw [own]
              refine ⟨y₃, pointers, ?_, ready, layout⟩
              show update (update lo.dirs d (some y₃)) pgdir none d = some y₃
              rw [update_of_ne apart.symm, update_self]

end Exec

theorem exec_outline {ip : Option Inode} (at_pgdir : lo.dirs pgdir = some x)
    (noclaim : ∀ f, ¬ gh.claim f) (settled : ∀ f, gh.tok .uncounted f = 0) (lax : ¬ S.strict) :
    S.Outline (exec pgdir ip argv) lo gh (fun replaced lo' gh' => Replaced pgdir (lo, gh) replaced (lo', gh')) := by
  have file : ip = (ip.map fun ip => (⟨ip, 0⟩ : Exec.Binary)).map Exec.Binary.toInode := by
    cases ip with
    | none => rfl
    | some ip => rfl
  rw [file, ← Exec.exec_memory ⟨0, 0, false, [], 0, 0⟩ []]
  apply Outline.andThen (Exec.exec_outline at_pgdir noclaim settled lax)
  exact fun result lo' gh' after => pure_rule after.1

end Xv6
