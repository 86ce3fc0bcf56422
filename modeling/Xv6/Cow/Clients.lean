import Xv6.Books.Lifetime

namespace Xv6

open CommandProgram Function Ledger Discipline

variable [KernelImage] {ι : Type} [Fintype ι] [DecidableEq ι]

/-- What the kernel does for one process, and what its user code does: the operations whose steps may
    interleave with those of other processes. -/
inductive VmOp where
  | setupkvm
  | allocuvm (pgdir oldsz newsz : Nat)
  | deallocuvm (pgdir oldsz newsz : Nat)
  | clearpteu (pgdir uva : Nat)
  | copyuvm (pgdir sz : Nat)
  | cowFault (pgdir va : Nat)
  | freevm (pgdir : Nat)
  | kalloc
  | kfree (pa : Nat)
  | write (pgdir va : Nat) (byte : UInt8)

def kallocOwn : Vm Unit := do
  let page ← kalloc
  match page with
  | none => return ()
  | some pa => ask (.keep pa)

def kfreeOwn (pa : Nat) : Vm Unit := do
  ask (.unkeep pa)
  kfree pa

def discard {α : Type} (program : Vm α) : Vm Unit := do
  let _ ← program
  return ()

def VmOp.program : VmOp → Vm Unit
  | setupkvm => discard Xv6.setupkvm
  | allocuvm pgdir oldsz newsz => discard (Xv6.allocuvm pgdir oldsz newsz)
  | deallocuvm pgdir oldsz newsz => discard (Xv6.deallocuvm pgdir oldsz newsz)
  | clearpteu pgdir uva => Xv6.clearpteu pgdir uva
  | copyuvm pgdir sz => discard (Xv6.copyuvm .cow pgdir sz)
  | cowFault pgdir va => Xv6.cowFault pgdir va
  | freevm pgdir => Xv6.freevm pgdir
  | kalloc => kallocOwn
  | kfree pa => kfreeOwn pa
  | write pgdir va byte => discard (userWrite pgdir va byte)

/-- Operations are called on page tables of the process, with sizes that stay below KERNBASE and for faults
    on present pages of the user half. -/
def VmOp.Allowed (p : Proc) : VmOp → Prop
  | setupkvm => True
  | allocuvm pgdir _ _ => p.dirs pgdir ≠ none
  | deallocuvm pgdir oldsz _ => p.dirs pgdir ≠ none ∧ oldsz ≤ kernBase
  | clearpteu pgdir _ => p.dirs pgdir ≠ none
  | copyuvm pgdir sz => p.dirs pgdir ≠ none ∧ sz ≤ kernBase
  | cowFault pgdir va => p.dirs pgdir ≠ none ∧ pageOf va < userPages ∧ ((p.dir pgdir).pte (pageOf va)).p = true
  | freevm pgdir => p.dirs pgdir ≠ none
  | kalloc => True
  | kfree pa => pa ∈ p.kpages
  | write pgdir va _ => p.dirs pgdir ≠ none ∧ pageOf va < userPages

section Outlines

variable {S : Setting ι} {α : Type} {lo : Proc} {gh : Gh}

theorem discard_outline {program : Vm α}
    (outline : S.Outline program lo gh fun _ _ gh' => Rested gh') :
    S.Outline (discard program) lo gh fun _ _ gh' => Rested gh' :=
  Outline.andThen outline fun _ _ _ rested => pure_rule rested

theorem userWrite_outline {pgdir va : Nat} {byte : UInt8} (own : lo.dirs pgdir ≠ none)
    (user : pageOf va < userPages) (rested : Rested gh) :
    S.Outline (userWrite pgdir va byte) lo gh fun _ _ gh' => Rested gh' := by
  obtain ⟨x, at_d⟩ := Option.ne_none_iff_exists'.mp own
  unfold userWrite
  apply pte_rule
  intro known
  rw [Proc.dir_of at_d]
  by_cases permitted : ((x.pte (pageOf va)).p && (x.pte (pageOf va)).w && (x.pte (pageOf va)).u) = true
  · rw [if_pos permitted]
    simp only [Bool.and_eq_true] at permitted
    apply store_rule (.inl (known.writer at_d user permitted.1.1 permitted.1.2))
    exact pure_rule ⟨rested.tok, fun _ claim => claim⟩
  · rw [if_neg permitted]
    exact pure_rule rested

theorem kallocOwn_outline (rested : Rested gh) : S.Outline kallocOwn lo gh fun _ _ gh' => Rested gh' := by
  unfold kallocOwn
  apply kalloc_rule
  · intro f c managed unheld
    dsimp only
    rw [← Program.bind_ret (ask _)]
    apply keep_rule (by simp [Gh.take, unit])
    intro _
    refine pure_rule ⟨?_, fun _ claim => claim⟩
    funext k g
    simp [Gh.lose, Gh.take, rested.tok]
  · exact fun _ => pure_rule rested

theorem kfreeOwn_outline {pa : Nat} (kept : pa ∈ lo.kpages) (rested : Rested gh) :
    S.Outline (kfreeOwn pa) lo gh fun _ _ gh' => Rested gh' := by
  unfold kfreeOwn
  apply unkeep_rule kept
  intro managed
  rw [← Program.bind_ret (kfree pa)]
  apply kfree_rule managed (by simp [Gh.gain, unit])
  exact pure_rule ⟨by rw [Gh.gain_lose, rested.tok], fun _ claim => claim⟩

/-- Every operation runs under the invariant from rest to rest, whatever the other processes do. -/
theorem VmOp.outline (cow : S.kernel = .cow) (lax : ¬ S.strict) {o : VmOp} (allowed : o.Allowed lo)
    (rested : Rested gh) : S.Outline o.program lo gh fun _ _ gh' => Rested gh' := by
  cases o with
  | setupkvm =>
    apply discard_outline
    refine (setupkvm_outline rested.noclaim rested.settled).mono ?_
    rintro (_ | d) lo' gh'
    · rintro ⟨_, _, tok, noclaim, _⟩
      exact ⟨tok.trans rested.tok, noclaim⟩
    · rintro ⟨_, x, added, _⟩
      exact ⟨added.tok.trans rested.tok, added.noclaim⟩
  | allocuvm pgdir oldsz newsz =>
    obtain ⟨x, at_d⟩ := Option.ne_none_iff_exists'.mp allowed
    apply discard_outline
    refine (allocuvm_outline at_d rested.noclaim rested.settled (fun strict => absurd strict lax)).mono ?_
    intro size lo' gh' done
    split at done
    · rcases done with ⟨_, x', added, _⟩ | ⟨_, _, x', _, tok, noclaim, _⟩
      · exact ⟨added.tok.trans rested.tok, added.noclaim⟩
      · exact ⟨tok.trans rested.tok, noclaim⟩
    · obtain ⟨_, _, rfl⟩ := done
      exact rested
  | deallocuvm pgdir oldsz newsz =>
    obtain ⟨x, at_d⟩ := Option.ne_none_iff_exists'.mp allowed.1
    apply discard_outline
    refine (deallocuvm_outline at_d allowed.2 rested.noclaim rested.settled).mono ?_
    rintro size lo' gh' ⟨_, rfl, _⟩
    exact rested
  | clearpteu pgdir uva =>
    obtain ⟨x, at_d⟩ := Option.ne_none_iff_exists'.mp allowed
    refine (clearpteu_outline at_d rested.noclaim (fun strict => absurd strict lax)).mono ?_
    rintro _ lo' gh' ⟨rfl, _⟩
    exact rested
  | copyuvm pgdir sz =>
    obtain ⟨x, at_d⟩ := Option.ne_none_iff_exists'.mp allowed.1
    apply discard_outline
    have copy := copyuvm_outline (S := S) at_d allowed.2 rested.noclaim rested.settled
      (fun strict => absurd strict lax)
    rw [cow] at copy
    refine copy.mono ?_
    rintro (_ | d) lo' gh' ⟨x', _, _, done⟩
    · obtain ⟨_, _, tok, noclaim, _⟩ := done
      exact ⟨tok.trans rested.tok, noclaim⟩
    · obtain ⟨_, _, y, forked, _⟩ := done
      exact ⟨forked.tok.trans rested.tok, forked.noclaim⟩
  | cowFault pgdir va =>
    obtain ⟨x, at_d⟩ := Option.ne_none_iff_exists'.mp allowed.1
    have present := allowed.2.2
    rw [Proc.dir_of at_d] at present
    refine (cowFault_outline cow at_d allowed.2.1 present rested.noclaim rested.settled).mono ?_
    rintro _ lo' gh' ⟨_, tok, noclaim, _⟩
    exact ⟨tok.trans rested.tok, noclaim⟩
  | freevm pgdir =>
    obtain ⟨x, at_d⟩ := Option.ne_none_iff_exists'.mp allowed
    refine (freevm_outline at_d rested.noclaim rested.settled).mono ?_
    rintro _ lo' gh' ⟨_, rfl⟩
    exact rested
  | kalloc => exact kallocOwn_outline rested
  | kfree pa => exact kfreeOwn_outline allowed rested
  | write pgdir va byte => exact discard_outline (userWrite_outline allowed.1 allowed.2 rested)

end Outlines

abbrev Clients (ι : Type) := Threads sig Halt Shared Proc ι

/-- A page table that was made for a child goes to the child. -/
def Clients.give (c : Clients ι) (t u : ι) (d : Nat) (x : PgDir) : Clients ι where
  shared := c.shared
  own := update (update c.own t ((c.own t).dropDir d)) u ((c.own u).setDir d x)
  left := c.left

/-- The states that processes reach from boot when their steps interleave in any order. `permits` restricts
    the steps that are taken. -/
inductive Run (permits : Cmd → Shared → Prop) : Clients ι → Prop where
  | boot (ram : Nat → Page) : Run permits ⟨booted .cow ram, fun _ => .unused, fun _ => .ret ()⟩
  | start {c : Clients ι} {t : ι} {o : VmOp} (run : Run permits c) (idle : c.left t = .ret ())
      (allowed : o.Allowed (c.own t)) : Run permits { c with left := update c.left t o.program }
  | issue {c : Clients ι} {t : ι} {command : Cmd} {next : sig.Resp command → Vm Unit} (run : Run permits c)
      (current : c.left t = .call command next) (permitted : permits command c.shared) :
      Run permits (c.issue (execute .cow) t command next)
  | give {c : Clients ι} {t u : ι} {d : Nat} {x : PgDir} (run : Run permits c) (different : t ≠ u)
      (idle : c.left t = .ret ()) (idle' : c.left u = .ret ()) (at_d : (c.own t).dirs d = some x) :
      Run permits (c.give t u d x)

/-- The circumstances of interleaving processes: memory may run out and any operation may panic. -/
@[reducible] def clientSetting (ι : Type) : Setting ι := ⟨.cow, True, False, fun _ => false⟩

theorem Run.sound {permits : Cmd → Shared → Prop} {c : Clients ι} (run : Run permits c) :
    c.Sound (clientSetting ι).discipline (fun _ gh => Rested gh) := by
  induction run with
  | boot ram =>
    have boot := booted_booted .cow ram
    generalize booted .cow ram = s at boot
    exact ⟨_, ⟨_, _, boot_inv (clientSetting ι) boot⟩, fun t => outline_ret.mpr (Gh.resting_rested _)⟩
  | start run idle allowed sound =>
    exact sound.start idle (fun gh rested => VmOp.outline rfl id allowed rested)
  | issue run current _ sound =>
    exact sound.issue current (fun _ => .inl trivial)
  | @give c t u d x run different idle idle' at_d sound =>
    obtain ⟨gh, ⟨count, mark, inv⟩, outlines⟩ := sound
    have rest_t := outlines t
    have rest_u := outlines u
    rw [idle, outline_ret] at rest_t
    rw [idle', outline_ret] at rest_u
    have bound : d < frames := (inv.tidy t).bound d (by simp [at_d])
    have absent : (c.own u).dirs d = none := inv.dirs_apart different (by simp [at_d])
    have given := inv.give different rfl rfl rest_t rest_u rfl
      (a := (c.own t).dropDir d) (b := (c.own u).setDir d x) ?_ ?_
    · refine ⟨update (update gh t (.resting fun f => (c.shared.ram f, mark f))) u
        (.resting fun f => (c.shared.ram f, mark f)), ⟨count, mark, ?_⟩, fun v => ?_⟩
      · have pairs : (fun v => ((c.give t u d x).own v, update (update gh t
            (.resting fun f => (c.shared.ram f, mark f))) u (.resting fun f => (c.shared.ram f, mark f)) v)) =
            update (update (fun v => (c.own v, gh v)) t (((c.own t).dropDir d),
              .resting fun f => (c.shared.ram f, mark f))) u
              ((c.own u).setDir d x, .resting fun f => (c.shared.ram f, mark f)) := by
          funext v
          by_cases isU : v = u
          · subst isU
            simp [Clients.give]
          · by_cases isT : v = t
            · subst isT
              simp [Clients.give, isU]
            · simp [Clients.give, isU, isT]
        rw [pairs]
        exact given
      · by_cases isU : v = u
        · subst isU
          simp [Clients.give, idle', Gh.resting_rested]
        · by_cases isT : v = t
          · subst isT
            simp [Clients.give, idle, isU, Gh.resting_rested]
          · simpa [Clients.give, isU, isT] using outlines v
    · intro k f
      have less := Proc.refs_without bound at_d k f
      have more := Proc.refs_with bound absent x k f
      omega
    · intro d' y
      by_cases same : d' = d
      · subst same
        simp only [Proc.dropDir, update_self, Proc.setDir_dirs, at_d, reduceCtorEq, false_or]
        exact .inl
      · simp [Proc.dropDir, same]

/-- A present entry of the user half of some page table in use. -/
structure Mapped (own : ι → Proc) (t : ι) (d v : Nat) (e : Pte) : Prop where
  user : v < userPages
  present : e.p = true
  entry : ∃ x, (own t).dirs d = some x ∧ x.pte v = e

end Xv6
