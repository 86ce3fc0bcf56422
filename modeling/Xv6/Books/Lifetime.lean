import Xv6.Books.Sharing
import Xv6.Tables.Boot

namespace Xv6

open CommandProgram Function Ledger Discipline

variable {ι : Type} [Fintype ι] [DecidableEq ι]
variable {S : Setting ι} {lo lo₂ : Proc} {gh gh₂ : Gh}

/-- What holds of a process between two operations: everything it refers to is in its tables. -/
structure Rested (g : Gh) : Prop where
  tok : g.tok = fun _ _ => 0
  noclaim : ∀ f, ¬ g.claim f

def Gh.resting (seen : Nat → Page × Mark) : Gh := ⟨fun _ _ => 0, fun _ => False, seen⟩

theorem Gh.resting_rested (seen : Nat → Page × Mark) : Rested (.resting seen) := ⟨rfl, fun _ claim => claim⟩

theorem Rested.settled {g : Gh} (rested : Rested g) (f : Nat) : g.tok .uncounted f = 0 := by rw [rested.tok]

theorem Proc.unused_refs (k : Kind) (f : Nat) : Proc.unused.refs k f = 0 := by
  simp [Proc.refs, Proc.unused, dirRefs]

variable [KernelImage]

omit [DecidableEq ι] in
theorem boot_inv (S : Setting ι) {s : Shared} (boot : Booted S.kernel s) :
    S.Inv s (fun _ => (Proc.unused, .resting fun f => (s.ram f, ⟨0, false⟩))) (fun _ => 0) (fun _ => ⟨0, false⟩) := by
  have none : ∀ k f, (account Proc.unused (.resting fun f => (s.ram f, ⟨0, false⟩))).tally k f = 0 := by
    intro k f
    simp [account, Proc.unused_refs, Gh.resting]
  constructor
  case agrees =>
    cases kernel : S.kernel
    · exact ⟨fun f => by rw [boot.page_rCount kernel, Nat.zero_add], by rw [boot.free_pages kernel, boot.freelist]⟩
    · exact fun _ => Nat.zero_le 1
  case books =>
    constructor
    case nodup => simpa only [boot.freelist] using nodup_bootPages
    case free_managed => simpa only [boot.freelist] using fun f => (mem_bootPages f).mp
    case free_count => exact fun _ _ => rfl
    case balance =>
      intro f
      simp only [totalHeld, total, none]
      simp
    case lag =>
      intro t f
      rw [none]
      omega
    case alone =>
      rintro t f (writer | owner | claim)
      · rw [none] at writer
        omega
      · rw [none] at owner
        omega
      · exact absurd claim id
    case claimed => exact fun _ _ claim => absurd claim id
    case seen => exact fun _ _ _ => rfl
    case managed =>
      intro t f holds
      simp only [held, none] at holds
      omega
  case tidy =>
    intro t
    exact ⟨fun d present => absurd rfl present, fun d x v at_d => by simp [Proc.unused] at at_d⟩

theorem Setting.Inv.give {s : Shared} {env : ι → Proc × Gh} {count : Nat → ℕ} {mark : Nat → Mark} {t u : ι}
    {a b : Proc} (inv : S.Inv s env count mark) (different : t ≠ u) (at_t : env t = (lo, gh))
    (at_u : env u = (lo₂, gh₂)) (rest_t : Rested gh) (rest_u : Rested gh₂) (related : S.family t = S.family u)
    (refs : ∀ k f, a.refs k f + b.refs k f = lo.refs k f + lo₂.refs k f)
    (tables : ∀ d x, a.dirs d = some x ∨ b.dirs d = some x → lo.dirs d = some x ∨ lo₂.dirs d = some x) :
    S.Inv s (update (update env t (a, .resting fun f => (s.ram f, mark f))) u
      (b, .resting fun f => (s.ram f, mark f))) count mark := by
  have tidy : ∀ p : Proc, (∀ d x, p.dirs d = some x → a.dirs d = some x ∨ b.dirs d = some x) →
      Tidy (S.family t) p (.resting fun f => (s.ram f, mark f)) := by
    intro p from_both
    constructor
    · intro d present
      cases at_d : p.dirs d with
      | none => exact absurd at_d present
      | some x =>
        rcases tables d x (from_both d x at_d) with mine | other
        · exact (inv.own_tidy at_t).bound d (by simp [mine])
        · exact (inv.own_tidy at_u).bound d (by simp [other])
    · intro d x v at_d user present
      rcases tables d x (from_both d x at_d) with mine | other
      · have bound := (inv.own_tidy at_t).bound d (by simp [mine])
        have seen := inv.seen_of_held at_t (held_of_pte bound mine user present)
        have marked := (inv.own_tidy at_t).mark d x v mine user present
        rw [seen] at marked
        exact marked
      · have bound := (inv.own_tidy at_u).bound d (by simp [other])
        have seen := inv.seen_of_held at_u (held_of_pte bound other user present)
        have marked := (inv.own_tidy at_u).mark d x v other user present
        rw [seen] at marked
        rw [related]
        exact marked
  have zero := rest_t.tok
  have zero₂ := rest_u.tok
  constructor
  case agrees => exact inv.agrees
  case books =>
    rw [accounts_update, accounts_update]
    apply inv.books.transfer different
    · intro k f
      have both := refs k f
      simp only [at_t, at_u, account, Gh.resting, zero, zero₂]
      omega
    · intro f
      simp only [at_t, at_u, account, zero, zero₂, (Proc.refs_books _ f).1, and_self]
    · exact fun f => ⟨fun claim => claim, fun claim => claim⟩
    · exact fun f => ⟨fun _ => rfl, fun _ => rfl⟩
  case tidy =>
    apply tidy_update
    · apply tidy_update inv.tidy
      exact tidy a fun d x at_d => .inl at_d
    · rw [← related]
      exact tidy b fun d x at_d => .inr at_d

theorem Setting.Inv.dirs_apart {s : Shared} {env : ι → Proc × Gh} {count : Nat → ℕ} {mark : Nat → Mark} {t u : ι}
    (inv : S.Inv s env count mark) (different : t ≠ u) {d : Nat} (mine : (env t).1.dirs d ≠ none) :
    (env u).1.dirs d = none := by
  cases other : (env u).1.dirs d with
  | none => rfl
  | some y =>
    cases own : (env t).1.dirs d with
    | none => exact absurd own mine
    | some x =>
      have owns : ∀ v z, (env v).1.dirs d = some z → 0 < (account (env v).1 (env v).2).tally .owner d := by
        intro v z at_d
        have dir := Proc.dir_refs_le ((inv.tidy v).bound d (by simp [at_d])) at_d .owner d
        simp only [PgDir.refs, unit, and_self, if_true] at dir
        simp only [account]
        omega
      have first := owns t x own
      have second := owns u y other
      have only := inv.books.alone t d (.inr (.inl first))
      have none := other_held_zero different (by unfold held; omega) only
      unfold held at none
      omega

omit [KernelImage] in
theorem Proc.refs_without {p : Proc} {d : Nat} {x : PgDir} (bound : d < frames) (at_d : p.dirs d = some x)
    (k : Kind) (f : Nat) :
    (p.dropDir d).refs k f + x.refs d k f = p.refs k f := by
  have change := p.refs_update bound none k f
  rw [at_d] at change
  simpa only [dirRefs, Nat.add_zero, Proc.dropDir] using change

omit [KernelImage] in
theorem Proc.refs_with {p : Proc} {d : Nat} (bound : d < frames) (absent : p.dirs d = none) (x : PgDir)
    (k : Kind) (f : Nat) : (p.setDir d x).refs k f = p.refs k f + x.refs d k f := by
  have change := p.refs_update bound (some x) k f
  rw [absent] at change
  simpa only [dirRefs, Nat.add_zero, Proc.setDir] using change

end Xv6
