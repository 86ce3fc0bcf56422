import Xv6.Exec.Arguments

namespace Xv6

open CommandProgram Function Ledger Discipline

namespace Proghdr

/-- A byte that `loaduvm` brings from the file. -/
def Covers (ph : Proghdr) (va : Nat) : Prop :=
  ph.type = elfProgLoad ∧ ph.vaddr.toNat ≤ va ∧ va < ph.vaddr.toNat + ph.filesz.toNat

instance (ph : Proghdr) (va : Nat) : Decidable (ph.Covers va) := inferInstanceAs (Decidable (_ ∧ _ ∧ _))

def extent (ph : Proghdr) : Nat := if ph.type = elfProgLoad then ph.vaddr.toNat + ph.memsz.toNat else 0

/-- A segment that lies below the kernel, begins with a page and has its bytes in the file. -/
structure Loadable (ph : Proghdr) (content : List UInt8) : Prop where
  aligned : ph.vaddr.toNat % pgSize = 0
  whole : ph.filesz ≤ ph.memsz
  below : ph.vaddr.toNat + ph.memsz.toNat < kernBase
  inside : ph.filesz ≠ 0 → ph.off.toNat + ph.filesz.toNat ≤ content.length

end Proghdr

namespace Inode

variable (ip : Inode)

/-- The memory that the first `n` program headers describe: a segment lies on top of those before it, and where none has
    bytes there are zeros. -/
def described : Nat → Nat → UInt8
  | 0, _ => 0
  | n + 1, va => (ip.ph n).elim (described n va) fun ph =>
    if ph.Covers va then ip.content.getD (ph.off.toNat + (va - ph.vaddr.toNat)) 0 else described n va

def extent : Nat → Nat
  | 0 => 0
  | n + 1 => max (extent n) ((ip.ph n).elim 0 Proghdr.extent)

/-- The first `n` program headers can be read, and their segments loaded. -/
def Loadable (n : Nat) : Prop := ∀ i, i < n → ∃ ph, ip.ph i = some ph ∧ (ph.type = elfProgLoad → ph.Loadable ip.content)

end Inode

variable {ip : Inode} {ph : Proghdr} {n va : Nat}

theorem described_skip (header : ip.ph n = some ph) (other : ph.type ≠ elfProgLoad) : ip.described (n + 1) = ip.described n := by
  funext va
  have away : ¬ph.Covers va := fun covers => other covers.1
  simp only [Inode.described, header, Option.elim_some, if_neg away]

theorem described_load (header : ip.ph n = some ph) (load : ph.type = elfProgLoad) (va : Nat) : ip.described (n + 1) va =
    if ph.vaddr.toNat ≤ va ∧ va < ph.vaddr.toNat + ph.filesz.toNat then
      ip.content.getD (ph.off.toNat + (va - ph.vaddr.toNat)) 0 else ip.described n va := by
  simp only [Inode.described, header, Option.elim_some, Proghdr.Covers, load, true_and]

theorem Inode.Loadable.succ (loadable : ip.Loadable n) (header : ip.ph n = some ph)
    (load : ph.type = elfProgLoad → ph.Loadable ip.content) : ip.Loadable (n + 1) := by
  intro i low
  rcases Nat.lt_succ_iff_lt_or_eq.mp low with before | rfl
  · exact loadable i before
  · exact ⟨ph, header, load⟩

theorem described_blank (loadable : ip.Loadable n)
    (beyond : ip.extent n ≤ va) : ip.described n va = 0 := by
  induction n with
  | zero => rfl
  | succ n ih =>
    have beyond' : max (ip.extent n) ((ip.ph n).elim 0 Proghdr.extent) ≤ va := beyond
    have before := ih (fun i low => loadable i (Nat.lt_succ_of_lt low)) (by omega)
    obtain ⟨ph, header, loads⟩ := loadable n (Nat.lt_succ_self n)
    by_cases load : ph.type = elfProgLoad
    · have fits : ph.filesz.toNat ≤ ph.memsz.toNat := UInt32.le_iff_toNat_le.mp (loads load).whole
      rw [header, Option.elim_some, Proghdr.extent, if_pos load] at beyond'
      rw [described_load header load, if_neg (by omega)]
      exact before
    · rw [described_skip header load]
      exact before

theorem pageOf_lt : pageOf va < n ↔ va < n * pgSize := Nat.div_lt_iff_lt_mul (by decide)

/-- The byte that page table `x` has at an address. -/
def PgDir.byte (x : PgDir) (ram : Nat → Page) (va : Nat) : UInt8 := ram (x.pte (pageOf va)).addr (va % pgSize)

section LoadLoop

variable {x : PgDir} {κ : Kernel} {s s' : Shared} {p p' : Proc} {d addr offset sz i k last : Nat} {bytes : List UInt8}

theorem PgDir.byte_store (apart : ∀ v w, v < last → w < last → (x.pte v).addr = (x.pte w).addr → v = w) {at_page : Nat}
    (aligned : at_page % pgSize = 0) (fits : bytes.length ≤ pgSize) (low : pageOf at_page < last) (below : va < last * pgSize) :
    x.byte (s.setPage (x.pte (pageOf at_page)).addr ((s.ram (x.pte (pageOf at_page)).addr).store 0 bytes)).ram va =
      if at_page ≤ va ∧ va < at_page + bytes.length then bytes.getD (va - at_page) 0 else x.byte s.ram va := by
  have inside : pageOf va < last := pageOf_lt.mpr below
  show update s.ram (x.pte (pageOf at_page)).addr ((s.ram (x.pte (pageOf at_page)).addr).store 0 bytes)
    (x.pte (pageOf va)).addr (va % pgSize) = _
  by_cases here : pageOf va = pageOf at_page
  · have offset : va % pgSize = va - at_page := by
      unfold pageOf pgSize at *
      omega
    rw [here, update_self, Page.store, offset]
    by_cases range : at_page ≤ va ∧ va < at_page + bytes.length
    · rw [if_pos range, if_pos ⟨Nat.zero_le _, by omega⟩]
      rfl
    · rw [if_neg range, if_neg (by unfold pageOf pgSize at *; omega), ← offset, PgDir.byte, here]
  · rw [update_of_ne fun same => here (apart _ _ inside low same), if_neg]
    · rfl
    · unfold pageOf pgSize at *
      omega

theorem loadLoop_loads (at_d : p.dirs d = some x) (has : ∀ v, v < last → x.Has v)
    (apart : ∀ v w, v < last → w < last → (x.pte v).addr = (x.pte w).addr → v = w) (aligned : addr % pgSize = 0)
    (start : i % pgSize = 0) (span : i / pgSize + k = pgRoundUp sz) (room : addr + sz ≤ last * pgSize)
    (small : ip.content.length < 2 ^ 32) (below : k = 0 ∨ offset + i < 2 ^ 32)
    (ran : Program.run (execute κ) (loadLoop d addr ip offset sz k i) (s, p) = (.ok true, (s', p'))) :
    p' = p ∧ (i < sz → offset + sz ≤ ip.content.length) ∧ ∀ va, va < last * pgSize → x.byte s'.ram va =
      if addr + i ≤ va ∧ va < addr + sz then ip.content.getD (offset + (va - addr)) 0 else x.byte s.ram va := by
  induction k generalizing i s with
  | zero =>
    cases ran
    have done : sz ≤ i := by
      unfold pgRoundUp pgSize at *
      omega
    exact ⟨rfl, fun more => absurd more (by omega), fun va _ => by rw [if_neg (by omega)]⟩
  | succ k ih =>
    have more : i < sz := by
      unfold pgRoundUp pgSize at *
      omega
    have page : pageOf (addr + i) < last := by
      unfold pageOf pgSize at *
      omega
    have no_wrap : (offset + i) % 2 ^ 32 = offset + i := Nat.mod_eq_of_lt (by omega)
    rw [loadLoop, run_walk, Proc.dir_of at_d, if_pos (has _ page)] at ran
    dsimp only at ran
    rw [run_pte, Proc.dir_of at_d, run_store, no_wrap] at ran
    obtain ⟨bytes, read⟩ : ∃ bytes, bytes = ip.readi (offset + i) (min (sz - i) pgSize) := ⟨_, rfl⟩
    rw [← read] at ran
    by_cases short : bytes.length = min (sz - i) pgSize
    · rw [if_pos short] at ran
      have length : bytes.length = min (min (sz - i) pgSize) (ip.content.length - (offset + i)) := by
        rw [read, Inode.readi, List.length_take, List.length_drop]
      have enough : offset + i + bytes.length ≤ ip.content.length := by
        unfold pgSize at *
        omega
      have byte : ∀ j, j < bytes.length → bytes.getD j 0 = ip.content.getD (offset + i + j) 0 := by
        intro j low
        rw [List.getD_eq_getElem?_getD, List.getD_eq_getElem?_getD, read, Inode.readi, List.getElem?_take_of_lt (by omega),
          List.getElem?_drop]
      obtain ⟨own, whole, loaded⟩ := ih (by unfold pgSize at *; omega) (by unfold pgRoundUp pgSize at *; omega)
        (by unfold pgRoundUp pgSize at *; omega) ran
      refine ⟨own, fun _ => ?_, fun va low => ?_⟩
      · by_cases rest : i + pgSize < sz
        · exact whole rest
        · omega
      · rw [loaded va low]
        by_cases later : addr + (i + pgSize) ≤ va ∧ va < addr + sz
        · rw [if_pos later, if_pos (by omega)]
        · rw [if_neg later, PgDir.byte_store apart (by unfold pgSize at *; omega) (by omega) page low]
          by_cases now : addr + i ≤ va ∧ va < addr + i + bytes.length
          · rw [if_pos now, if_pos (by omega), byte _ (by omega)]
            congr 1
            omega
          · rw [if_neg now, if_neg (by omega)]
    · rw [if_neg short] at ran
      cases ran

end LoadLoop

variable [KernelImage] {ι : Type} [Fintype ι] [DecidableEq ι]
variable {κ : Kernel} {t : ι} {d last : Nat} {x : PgDir} {mem : Nat → UInt8} {base p' : Proc} {s s' : Shared} {own : ι → Proc}

/-- Process `t` makes a program in page table `d`, beside what it has in `base`: `last` pages for user code, with `mem` in
    them, while the books balance. -/
structure Making (κ : Kernel) (t : ι) (d : Nat) (base : Proc) (x : PgDir) (last : Nat) (mem : Nat → UInt8) (s : Shared)
    (own : ι → Proc) : Prop where
  calm : ∃ mark, (execSetting ι κ).Calm s own mark
  own : own t = base.setDir d x
  absent : base.dirs d = none
  flat : Flat x last
  low : last ≤ userPages
  bytes : ∀ va, va < last * pgSize → x.byte s.ram va = mem va

theorem Flat.extended {x' : PgDir} {g : Gh} {n : Nat} (flat : Flat x last) (more : last ≤ n)
    (outside : ∀ v, ¬(last ≤ v ∧ v < n) → x'.pte v = x.pte v) (inside : ∀ v, last ≤ v → v < n → ZeroPage x' g v)
    (user : n ≤ userPages) : Flat x' n where
  mapped v low := by
    by_cases before : v < last
    · rw [outside v (by omega)]
      exact flat.mapped v before
    · have zero := inside v (by omega) low
      exact ⟨zero.present, zero.writable, zero.unprivileged⟩
  unmapped v high below := by
    rw [outside v (by omega)]
    exact flat.unmapped v (by omega) below
  kernel v kernel := by
    rw [outside v (by omega)]
    exact flat.kernel v kernel

namespace Making

section Facts

variable (making : Making κ t d base x last mem s own)
include making

omit [DecidableEq ι] in
theorem at_d : (own t).dirs d = some x := by
  rw [making.own, Proc.setDir_dirs, update_self]

omit [DecidableEq ι] in
theorem opened {v : Nat} (below : v < last) : Open x v := by
  have low := making.low
  have mapped := making.flat.mapped v below
  exact ⟨by omega, mapped.1, mapped.2.1⟩

theorem apart (v w : Nat) (below : v < last) (below' : w < last) (same : (x.pte v).addr = (x.pte w).addr) : v = w := by
  obtain ⟨mark, count, inv⟩ := making.calm
  have first := making.opened below
  have second := making.opened below'
  exact (inv.writer_alone (t := t) (u := t) making.at_d making.at_d second.user first.user second.present first.present
    second.writable same).2.2

omit [DecidableEq ι] in
theorem beside {mark : Nat → Mark} : Beside d x (base, .calm s mark) (own t, .calm s mark) :=
  ⟨making.absent, making.own, rfl, fun _ claim => claim, fun _ _ => rfl⟩

end Facts

theorem grow {sz newsz size : Nat} (making : Making κ t d base x (pgRoundUp sz) mem s own)
    (blank : ∀ va, pgRoundUp sz * pgSize ≤ va → mem va = 0)
    (ran : Program.run (execute κ) (allocuvm d sz newsz) (s, own t) = (.ok size, (s', p'))) (grown : size ≠ 0) :
    ∃ x', size = max sz newsz ∧ newsz < kernBase ∧ Making κ t d base x' (pgRoundUp size) mem s' (update own t p') := by
  obtain ⟨mark, calm⟩ := making.calm
  have outline : (execSetting ι κ).Outline (allocuvm d sz newsz) (own t) (.calm s mark) _ :=
    allocuvm_outline making.at_d (fun _ claim => claim) (fun _ => rfl) fun strict => absurd strict id
  have rested : ∀ size lo gh, (if newsz < kernBase ∧ sz ≤ newsz then
      Grown (execSetting ι κ) d x (pgRoundUp sz) (pgRoundUp sz) (pgRoundUp newsz) newsz (own t, .calm s mark) size (lo, gh)
      else size = (if kernBase ≤ newsz then 0 else sz) ∧ lo = own t ∧ gh = .calm s mark) → Rested gh := by
    intro size lo gh done
    split at done
    · rcases done with ⟨-, x', added, -⟩ | ⟨-, -, x', -, tok, noclaim, -⟩
      · exact ⟨added.tok, added.noclaim⟩
      · exact ⟨tok, noclaim⟩
    · rw [done.2.2]
      exact Gh.resting_rested _
  obtain ⟨gh', mark', done, change⟩ := calm.ran trivial outline rested ran
  by_cases more : newsz < kernBase ∧ sz ≤ newsz
  · rw [if_pos more] at done
    rcases done with ⟨rfl, x', added, outside, inside⟩ | ⟨failed, -⟩
    · have user := roundUp_user (Nat.le_of_lt more.1)
      have own' : p' = base.setDir d x' := by rw [show p' = _ from added.own, making.own, Proc.setDir_setDir]
      have at_d' : p'.dirs d = some x' := by rw [own', Proc.setDir_dirs, update_self]
      refine ⟨x', (max_eq_right more.2).symm, more.1, ⟨mark', change.calm⟩, by rw [update_self, own'], making.absent,
        making.flat.extended (roundUp_mono more.2) outside inside user, user, fun va low => ?_⟩
      have below : pageOf va < pgRoundUp size := pageOf_lt.mpr low
      have mapped := (making.flat.extended (roundUp_mono more.2) outside inside user).mapped _ below
      unfold PgDir.byte
      rw [change.page at_d' (by omega) mapped.1]
      by_cases before : pageOf va < pgRoundUp sz
      · have opened := making.opened before
        have holds := calm.held making.at_d opened.user opened.present (.calm s mark)
        rw [outside _ (by omega), (added.grows.held _ holds).2]
        exact making.bytes va (pageOf_lt.mp before)
      · rw [(inside _ (by omega) below).zero]
        exact (blank va (Nat.le_of_not_lt fun low => before (pageOf_lt.mpr low))).symm
    · exact absurd failed grown
  · rw [if_neg more] at done
    obtain ⟨same, rfl, rfl⟩ := done
    by_cases large : kernBase ≤ newsz
    · rw [if_pos large] at same
      exact absurd same grown
    · rw [if_neg large] at same
      subst same
      refine ⟨x, by omega, by omega, ⟨mark', change.calm⟩, by rw [update_self, making.own], making.absent, making.flat,
        making.low, fun va low => ?_⟩
      have below : pageOf va < pgRoundUp size := pageOf_lt.mpr low
      have opened := making.opened below
      unfold PgDir.byte
      rw [change.page making.at_d opened.user opened.present]
      exact making.bytes va low

theorem grow_succeeds {sz : Nat} (making : Making κ t d base x (pgRoundUp sz) mem s own) (newsz n : Nat) (more : sz ≤ newsz)
    (below : newsz < kernBase) (room : Room d (n + (pgRoundUp newsz - pgRoundUp sz)) (s, own t)) :
    ∃ s' p', Program.run (execute κ) (allocuvm d sz newsz) (s, own t) = (.ok newsz, (s', p')) ∧ (newsz ≠ 0 → Room d n (s', p')) := by
  obtain ⟨mark, calm⟩ := making.calm
  have user := roundUp_user (Nat.le_of_lt below)
  have outline : (sureSetting ι κ).Outline (allocuvm d sz newsz) (own t) (.calm s mark) _ :=
    allocuvm_outline making.at_d (fun _ claim => claim) (fun _ => rfl) fun _ _ v low high =>
      making.flat.unmapped v low (by omega)
  have sure : (sureSetting ι κ).Calm s own mark := calm.transfer rfl rfl
  obtain ⟨size, s', p', gh', count', mark', done, post, room', -⟩ := sure.succeed (t := t) trivial outline (supply_allocuvm room)
  rw [if_pos ⟨below, more⟩] at post
  rcases post with ⟨rfl, -⟩ | ⟨-, scarce, -⟩
  · exact ⟨s', p', done, room'⟩
  · exact absurd scarce id

theorem load {addr offset sz : Nat} (making : Making κ t d base x last mem s own) (room : addr + sz ≤ last * pgSize)
    (small : ip.content.length < 2 ^ 32) (word : offset < 2 ^ 32)
    (ran : Program.run (execute κ) (loaduvm d addr ip offset sz) (s, own t) = (.ok true, (s', p'))) :
    (0 < sz → offset + sz ≤ ip.content.length) ∧ Making κ t d base x last
      (fun va => if addr ≤ va ∧ va < addr + sz then ip.content.getD (offset + (va - addr)) 0 else mem va) s' (update own t p') := by
  unfold loaduvm at ran
  split_ifs at ran with skewed
  · cases ran
  · have aligned : addr % pgSize = 0 := not_not.mp skewed
    have loop := loadLoop_loads making.at_d (fun v low => PgDir.has_of_present (making.opened low).present) making.apart aligned
      (Nat.zero_mod _) (by rw [Nat.zero_div, Nat.zero_add]) room small (Or.inr word) ran
    obtain ⟨rfl, whole, loaded⟩ := loop
    obtain ⟨mark, calm⟩ := making.calm
    have outline : (execSetting ι κ).Outline (loadLoop d addr ip offset sz (pgRoundUp sz) 0) (own t) (.calm s mark) _ :=
      loadLoop_outline making.beside fun j below => by
        apply making.opened
        rw [pageOf_lt]
        unfold pgRoundUp pgSize at *
        omega
    obtain ⟨gh', mark', -, change⟩ := calm.ran trivial outline (fun _ _ _ after => ⟨after.tok, after.noclaim⟩) ran
    refine ⟨whole, ⟨mark', change.calm⟩, by rw [update_self, making.own], making.absent, making.flat, making.low, fun va low => ?_⟩
    rw [loaded va low, Nat.add_zero, making.bytes va low]

theorem segment {i sz : Nat} {rest : Nat → Vm (Option Nat)} {size : Nat}
    (making : Making κ t d base x (pgRoundUp sz) (ip.described i) s own) (extent : sz = ip.extent i) (loadable : ip.Loadable i)
    (small : ip.content.length < 2 ^ 32) (header : ip.ph i = some ph) (load : ph.type = elfProgLoad)
    (whole : ph.filesz ≤ ph.memsz) (wraps : ¬ph.vaddr + ph.memsz < ph.vaddr)
    (ran : Program.run (execute κ) (do
      let grown ← allocuvm d sz (ph.vaddr + ph.memsz).toNat
      if grown = 0 then return none
      else if ph.vaddr.toNat % pgSize ≠ 0 then return none
      else
        let loaded ← loaduvm d ph.vaddr.toNat ip ph.off.toNat ph.filesz.toNat
        if loaded then rest grown else return none) (s, own t) = (.ok (some size), (s', p'))) :
    ∃ x₁ s₁ p₁, ph.Loadable ip.content ∧ Program.run (execute κ) (rest (ip.extent (i + 1))) (s₁, p₁) = (.ok (some size), (s', p')) ∧
      Making κ t d base x₁ (pgRoundUp (ip.extent (i + 1))) (ip.described (i + 1)) s₁ (update own t p₁) := by
  have sum : (ph.vaddr + ph.memsz).toNat = ph.vaddr.toNat + ph.memsz.toNat := by
    rw [UInt32.lt_iff_toNat_lt] at wraps
    rw [UInt32.toNat_add] at wraps ⊢
    have v := ph.vaddr.toNat_lt
    have m := ph.memsz.toNat_lt
    omega
  have fits : ph.filesz.toNat ≤ ph.memsz.toNat := UInt32.le_iff_toNat_le.mp whole
  obtain ⟨grown, ⟨s₁, p₁⟩, first, ran⟩ := Program.exists_of_run_bind ran
  by_cases failed : grown = 0
  · rw [if_pos failed] at ran
    cases ran
  · rw [if_neg failed] at ran
    by_cases skewed : ph.vaddr.toNat % pgSize ≠ 0
    · rw [if_pos skewed] at ran
      cases ran
    · rw [if_neg skewed] at ran
      obtain ⟨loaded, ⟨s₂, p₂⟩, second, ran⟩ := Program.exists_of_run_bind ran
      cases loaded with
      | false => cases ran
      | true =>
        have blank : ∀ va, pgRoundUp sz * pgSize ≤ va → ip.described i va = 0 := by
          intro va high
          apply described_blank loadable
          unfold pgRoundUp pgSize at high
          omega
        obtain ⟨x₁, covers, below, making₁⟩ := making.grow blank first failed
        rw [sum] at covers below
        have at_t : update own t p₁ t = p₁ := update_self ..
        rw [← at_t] at second
        obtain ⟨inside, making₂⟩ := making₁.load (by unfold pgRoundUp pgSize; omega) small ph.off.toNat_lt second
        have extent₁ : grown = ip.extent (i + 1) := by
          rw [Inode.extent, header, Option.elim_some, Proghdr.extent, if_pos load, covers, extent]
        have described : (fun va => if ph.vaddr.toNat ≤ va ∧ va < ph.vaddr.toNat + ph.filesz.toNat then
            ip.content.getD (ph.off.toNat + (va - ph.vaddr.toNat)) 0 else ip.described i va) = ip.described (i + 1) :=
          funext fun va => (described_load header load va).symm
        rw [update_idem, extent₁, described] at making₂
        rw [if_pos rfl, extent₁] at ran
        refine ⟨x₁, s₂, p₂, ⟨not_not.mp skewed, whole, below, fun some => ?_⟩, ran, making₂⟩
        exact inside (Nat.pos_of_ne_zero fun zero => some (UInt32.toNat_inj.mp zero))

theorem segments {k i sz size : Nat} (making : Making κ t d base x (pgRoundUp sz) (ip.described i) s own)
    (extent : sz = ip.extent i) (loadable : ip.Loadable i) (small : ip.content.length < 2 ^ 32)
    (ran : Program.run (execute κ) (segments d ip k i sz) (s, own t) = (.ok (some size), (s', p'))) :
    ∃ x', size = ip.extent (i + k) ∧ ip.Loadable (i + k) ∧
      Making κ t d base x' (pgRoundUp size) (ip.described (i + k)) s' (update own t p') := by
  induction k generalizing i sz x s own with
  | zero =>
    cases ran
    rw [update_eq_self]
    exact ⟨x, extent, loadable, making⟩
  | succ k ih =>
    unfold Xv6.segments at ran
    cases header : ip.ph i with
    | none =>
      rw [header] at ran
      cases ran
    | some ph =>
      rw [header] at ran
      dsimp only at ran
      rw [show i + (k + 1) = i + 1 + k by omega]
      by_cases other : ph.type ≠ elfProgLoad
      · rw [if_pos other] at ran
        have same : ip.extent (i + 1) = ip.extent i := by
          rw [Inode.extent, header, Option.elim_some, Proghdr.extent, if_neg other, Nat.max_zero]
        rw [← described_skip header other] at making
        exact ih making (extent.trans same.symm) (loadable.succ header fun load => absurd load other) ran
      · rw [if_neg other] at ran
        have load : ph.type = elfProgLoad := not_not.mp other
        by_cases short : ph.memsz < ph.filesz
        · rw [if_pos short] at ran
          cases ran
        · rw [if_neg short] at ran
          by_cases wraps : ph.vaddr + ph.memsz < ph.vaddr
          · rw [if_pos wraps] at ran
            cases ran
          · rw [if_neg wraps] at ran
            have whole : ph.filesz ≤ ph.memsz := UInt32.not_lt.mp short
            obtain ⟨x₁, s₁, p₁, good, ran, making₁⟩ := making.segment extent loadable small header load whole wraps ran
            have at_t : update own t p₁ t = p₁ := update_self ..
            rw [← at_t] at ran
            have last := ih making₁ rfl (loadable.succ header fun _ => good) ran
            rwa [update_idem] at last

end Making

/-- The program is in memory, with a stack that has been filled down to `sp`. -/
structure Pushing (κ : Kernel) (t : ι) (d : Nat) (base : Proc) (x : PgDir) (sz sp : Nat) (mem : Nat → UInt8) (s : Shared)
    (own : ι → Proc) : Prop where
  calm : ∃ mark, (execSetting ι κ).Calm s own mark
  own : own t = base.setDir d x
  absent : base.dirs d = none
  loaded : Loaded x sz
  ready : x.Ready
  low : sz - pgSize ≤ sp
  high : sp ≤ sz
  bytes : ∀ va, va < sp → pageOf va ≠ pageOf sz - 2 → x.space s.ram va = some (mem va)

variable {sz sp : Nat}

omit [KernelImage] in
theorem clearpteu_run {p : Proc} {va : Nat} (at_d : p.dirs d = some x) (has : x.Has (pageOf va)) :
    Program.run (execute κ) (clearpteu d va) (s, p) =
      (.ok (), (s, p.setDir d (x.setPte (pageOf va) { x.pte (pageOf va) with u := false }))) := by
  unfold clearpteu
  rw [run_walk, Proc.dir_of at_d, if_pos has]
  dsimp only
  rw [run_pte, Proc.dir_of at_d]
  show (_, (s, p.setDir d ((p.dir d).setPte (pageOf va) _))) = _
  rw [Proc.dir_of at_d]

theorem Making.guard {size n : Nat} (making : Making κ t d base x (n + 2) mem s own) (same : size = (n + 2) * pgSize)
    (bound : size < kernBase)
    (ran : Program.run (execute κ) (clearpteu d (size - 2 * pgSize)) (s, own t) = (.ok (), (s', p'))) :
    ∃ x', Pushing κ t d base x' size size mem s' (update own t p') := by
  obtain ⟨mark, calm⟩ := making.calm
  have pages : pageOf size = n + 2 := by rw [same, pageOf, Nat.mul_div_cancel _ (by decide)]
  have guard : pageOf (size - 2 * pgSize) = n := by rw [same, pageOf, ← Nat.sub_mul, Nat.add_sub_cancel, Nat.mul_div_cancel _ (by decide)]
  have outline : (execSetting ι κ).Outline (clearpteu d (size - 2 * pgSize)) (own t) (.calm s mark) _ :=
    clearpteu_outline making.at_d (fun _ claim => claim) fun strict => absurd strict id
  obtain ⟨gh', mark', ⟨rfl, x', own', entries, -⟩, change⟩ := calm.ran trivial outline
    (fun _ _ _ after => after.1 ▸ Gh.resting_rested _) ran
  rw [guard] at entries
  have at_d' : p'.dirs d = some x' := by rw [own', Proc.setDir_dirs, update_self]
  have flat := making.flat
  rw [← pages] at flat
  have loaded := flat.loaded (by rw [same, Nat.mul_mod_left]) (by rw [same]; unfold pgSize; omega) bound
    (by rw [pages, Nat.add_sub_cancel]; exact entries)
  have apart : ∀ v w, Open x v → Open x w → (x.pte v).addr = (x.pte w).addr → v = w := by
    intro v w first second equal
    obtain ⟨count, inv⟩ := calm
    exact (inv.writer_alone (t := t) (u := t) making.at_d making.at_d second.user first.user second.present first.present
      second.writable equal).2.2
  have ready := loaded.ready (by rw [pages, Nat.add_sub_cancel]; exact entries) apart
  refine ⟨x', ⟨mark', change.calm⟩, by rw [update_self, own', making.own, Proc.setDir_setDir], making.absent, loaded, ready,
    Nat.sub_le .., Nat.le_refl _, fun va below other => ?_⟩
  have inside : pageOf va < n + 2 := pageOf_lt.mpr (by rw [← same]; exact below)
  have mapped := loaded.mapped (pageOf va) (by rw [pages]; exact inside)
  have user : x'.User (pageOf va) := ⟨mapped.1, mapped.2.2.mpr other⟩
  have opened := ready.opened _ user
  rw [pages, Nat.add_sub_cancel] at other
  unfold PgDir.space
  rw [Nat.mod_eq_of_lt (by unfold kernBase at bound; omega), if_pos user, change.page at_d' opened.user opened.present, entries,
    update_of_ne other]
  exact congrArg some (making.bytes va (pageOf_lt.mp inside))

namespace Pushing

section Facts

variable (pushing : Pushing κ t d base x sz sp mem s own)
include pushing

omit [DecidableEq ι] in
theorem at_d : (own t).dirs d = some x := by
  rw [pushing.own, Proc.setDir_dirs, update_self]

omit [DecidableEq ι] in
theorem beside {mark : Nat → Mark} : Beside d x (base, .calm s mark) (own t, .calm s mark) :=
  ⟨pushing.absent, pushing.own, rfl, fun _ claim => claim, fun _ _ => rfl⟩

end Facts

theorem copy {k place : Nat} {bytes : List UInt8} (pushing : Pushing κ t d base x sz sp mem s own) (word : place < 2 ^ 32)
    (fuel : place % pgSize + bytes.length ≤ k * pgSize) (some : 0 < bytes.length)
    (fits : place + bytes.length ≤ userPages * pgSize → place + bytes.length ≤ sp ∧ sp < place + bytes.length + 4)
    (ran : Program.run (execute κ) (copyout d k place bytes) (s, own t) = (.ok true, (s', p'))) :
    Pushing κ t d base x sz place mem s' (update own t p') := by
  obtain ⟨mark, calm⟩ := pushing.calm
  have plain := pushing.ready.toPlain
  have dir : (own t).dir d = x := Proc.dir_of pushing.at_d
  have outline : (execSetting ι κ).Outline (copyout d k place bytes) (own t) (.calm s mark) _ :=
    copyout_outline pushing.beside pushing.ready id word (Or.inr fuel)
  obtain ⟨gh', mark', ⟨-, delivered⟩, change⟩ := calm.ran trivial outline (fun _ _ _ after => ⟨after.1.tok, after.1.noclaim⟩) ran
  have reached := (delivered rfl).reached
  obtain ⟨upper, ends⟩ := fits ((plain.no_wrap word reached).resolve_left (by omega))
  have bottom := pushing.loaded.in_stack reached some pushing.low ends upper pushing.high
  have high := pushing.high
  have bound := pushing.loaded.bound
  rw [← dir] at plain reached
  obtain ⟨ram', -, ⟨done, -, stored⟩ | ⟨done, -⟩ | ⟨done, -⟩⟩ := copyout_run (κ := κ) s place bytes plain word (Or.inr fuel)
  · rw [ran] at done
    cases done
    rw [dir] at plain reached stored
    refine ⟨⟨mark', change.calm⟩, by rw [update_self, pushing.own], pushing.absent, pushing.loaded, pushing.ready, bottom,
      by omega, fun va below open_page => ?_⟩
    rw [show ({ s with ram := ram' } : Shared).ram = ram' from rfl, stored.frame reached plain fun j inside => ?_]
    · exact pushing.bytes va (by omega) open_page
    · unfold kernBase at bound
      omega
  · rw [ran] at done
    cases done
  · rw [ran] at done
    cases done

theorem pushArgs {argv : List (List UInt8)} {pointers all : List Nat} {sp' : Nat}
    (pushing : Pushing κ t d base x sz sp mem s own) (few : pointers.length ≤ maxArg)
    (ran : Program.run (execute κ) (pushArgs d argv sp pointers) (s, own t) = (.ok (some (sp', all)), (s', p'))) :
    all.length ≤ maxArg ∧ Pushing κ t d base x sz sp' mem s' (update own t p') := by
  induction argv generalizing sp pointers s own with
  | nil =>
    cases ran
    rw [update_eq_self]
    exact ⟨few, pushing⟩
  | cons arg rest ih =>
    unfold Xv6.pushArgs at ran
    by_cases many : maxArg ≤ pointers.length
    · rw [if_pos many] at ran
      cases ran
    · rw [if_neg many] at ran
      obtain ⟨place, eq⟩ : ∃ place, place = (sp + 2 ^ 32 - (arg.length + 1)) % 2 ^ 32 / 4 * 4 := ⟨_, rfl⟩
      dsimp only at ran
      rw [← eq] at ran
      obtain ⟨copied, ⟨s₁, p₁⟩, first, ran⟩ := Program.exists_of_run_bind ran
      cases copied with
      | false => cases ran
      | true =>
        have length : (arg ++ [0]).length = arg.length + 1 := List.length_append
        have bound := pushing.loaded.bound
        have high := pushing.high
        have pushing₁ := pushing.copy (by omega) (by rw [length]; unfold pgRoundUp pgSize; omega) (by omega)
          (by rw [length]; exact fun fits => (place_fits eq (by omega) fits).2) first
        have at_t : update own t p₁ t = p₁ := update_self ..
        rw [if_pos rfl, ← at_t] at ran
        have last := ih pushing₁ (by rw [List.length_append, List.length_singleton]; omega) ran
        rwa [update_idem] at last

omit [DecidableEq ι] in
theorem copy_succeeds {k place : Nat} {bytes : List UInt8} (pushing : Pushing κ t d base x sz sp mem s own) (word : place < 2 ^ 32)
    (fuel : place % pgSize + bytes.length ≤ k * pgSize) (reached : ReachesUser x place bytes.length) :
    ∃ s', Program.run (execute κ) (copyout d k place bytes) (s, own t) = (.ok true, (s', own t)) := by
  have plain := pushing.ready.toPlain
  have dir : (own t).dir d = x := Proc.dir_of pushing.at_d
  rw [← dir] at plain reached
  obtain ⟨ram', _, ⟨ran, -, -⟩ | ⟨-, other⟩ | ⟨-, hole⟩⟩ := copyout_run (κ := κ) s place bytes plain word (Or.inr fuel)
  · exact ⟨_, ran⟩
  · obtain ⟨j, low, _, away, _⟩ := other
    exact absurd (reached j low) away
  · exact absurd reached hole.not_other.1

end Pushing

theorem Making.stack {size esp : Nat} {argv : List (List UInt8)} (making : Making κ t d base x (pgRoundUp size) mem s own)
    (blank : ∀ va, pgRoundUp size * pgSize ≤ va → mem va = 0)
    (ran : Program.run (execute κ) (Exec.stack d size argv) (s, own t) = (.ok (some (sz, esp)), (s', p'))) :
    sz = (pgRoundUp size + 2) * pgSize ∧ esp < sz ∧ ∃ x', Pushing κ t d base x' sz esp mem s' (update own t p') := by
  unfold Exec.stack at ran
  dsimp only at ran
  obtain ⟨grown, ⟨s₁, p₁⟩, first, ran⟩ := Program.exists_of_run_bind ran
  by_cases failed : grown = 0
  · rw [if_pos failed] at ran
    cases ran
  · rw [if_neg failed] at ran
    obtain ⟨_, ⟨s₂, p₂⟩, second, ran⟩ := Program.exists_of_run_bind ran
    obtain ⟨pushed, ⟨s₃, p₃⟩, third, ran⟩ := Program.exists_of_run_bind ran
    have same : pgRoundUp (pgRoundUp size * pgSize) = pgRoundUp size := by
      unfold pgRoundUp pgSize
      omega
    rw [← same] at making
    obtain ⟨x₁, covers, below, making₁⟩ := making.grow (by rw [same]; exact blank) first failed
    have exact' : grown = (pgRoundUp size + 2) * pgSize := by
      rw [covers, Nat.add_mul]
      omega
    have pages : pgRoundUp grown = pgRoundUp size + 2 := by
      rw [exact']
      unfold pgRoundUp pgSize
      omega
    rw [pages] at making₁
    have at_t₁ : update own t p₁ t = p₁ := update_self ..
    rw [← at_t₁] at second
    obtain ⟨x₂, pushing⟩ := making₁.guard exact' (by rw [exact', Nat.add_mul]; exact below) second
    have at_t₂ : update own t p₂ t = p₂ := update_self ..
    rw [update_idem] at pushing
    rw [← at_t₂] at third
    cases pushed with
    | none => cases ran
    | some pushed =>
      obtain ⟨few, pushing₁⟩ := pushing.pushArgs (by decide) third
      obtain ⟨copied, ⟨s₄, p₄⟩, fourth, ran⟩ := Program.exists_of_run_bind ran
      cases copied with
      | false => cases ran
      | true =>
        have at_t₃ : update own t p₃ t = p₃ := update_self ..
        rw [update_idem] at pushing₁
        rw [← at_t₃] at fourth
        have length := ustack_length pushed.1 pushed.2
        have bound := pushing₁.loaded.bound
        have high := pushing₁.high
        have stack := pushing₁.loaded.stack
        have low := pushing₁.low
        have pushing₂ := pushing₁.copy (Nat.mod_lt _ (by decide)) (by
          rw [length]
          unfold maxArg at few
          unfold pgSize
          omega) (by omega) (by
          rw [length, userPages_eq]
          unfold kernBase at bound
          unfold maxArg at few
          unfold pgSize at *
          omega) fourth
        cases ran
        rw [update_idem] at pushing₂
        refine ⟨exact', ?_, x₂, pushing₂⟩
        rw [length]
        unfold kernBase at bound
        unfold maxArg at few
        unfold pgSize at *
        omega

theorem Making.kernel {mark : Nat → Mark} (calm : (execSetting ι κ).Calm s own mark)
    (ran : Program.run (execute κ) setupkvm (s, own t) = (.ok (some d), (s', p'))) :
    ∃ x, Making κ t d (own t) x 0 (fun _ => 0) s' (update own t p') := by
  have outline : (execSetting ι κ).Outline setupkvm (own t) (.calm s mark) _ :=
    setupkvm_outline (fun _ claim => claim) fun _ => rfl
  obtain ⟨gh', mark', ⟨absent, x, added, kernel⟩, change⟩ := calm.ran trivial outline (by
    intro new lo gh made
    cases new with
    | none => exact ⟨made.2.2.1, made.2.2.2.1⟩
    | some d =>
      obtain ⟨-, x, added, -⟩ := made
      exact ⟨added.tok, added.noclaim⟩) ran
  refine ⟨x, ⟨mark', change.calm⟩, (update_self ..).trans added.own, absent, ⟨fun v low => ?_, fun v _ user => ?_, fun v _ => ?_⟩,
    Nat.zero_le _, fun va low => ?_⟩
  · exact absurd low (Nat.not_lt_zero v)
  · rw [kernel, kmapPte_user user]
    rfl
  · rw [kernel]
  · rw [Nat.zero_mul] at low
    exact absurd low (Nat.not_lt_zero va)

section Commit

variable {old : Nat} {x₀ : PgDir} (pushing : Pushing κ t d base x sz sp mem s own) (at_old : base.dirs old = some x₀)
include pushing

theorem Pushing.commit : ∃ mark, (execSetting ι κ).Calm s (update own t { own t with pgdir := d, sz := sz }) mark := by
  obtain ⟨mark, calm⟩ := pushing.calm
  refine ⟨mark, calm.fields fun u => ?_⟩
  by_cases here : u = t
  · subst here
    rw [update_self]
    exact ⟨rfl, rfl⟩
  · rw [update_of_ne here]
    exact ⟨rfl, rfl⟩

include at_old

omit [DecidableEq ι] in
theorem Pushing.apart : old ≠ d := by
  rintro rfl
  rw [pushing.absent] at at_old
  cases at_old

theorem Pushing.keeps_old : (update own t { own t with pgdir := d, sz := sz } t).dirs old = some x₀ := by
  rw [update_self]
  show (own t).dirs old = some x₀
  rw [pushing.own, Proc.setDir_dirs, update_of_ne (pushing.apart at_old)]
  exact at_old

theorem Pushing.freed (ran : Program.run (execute κ) (freevm old) (s, { own t with pgdir := d, sz := sz }) = (.ok (), (s', p'))) :
    p'.sz = sz ∧ p'.table = x ∧ x.space s'.ram = x.space s.ram := by
  obtain ⟨mark, calm⟩ := pushing.commit
  set q : Proc := { own t with pgdir := d, sz := sz }
  have at_t : update own t q t = q := update_self ..
  have outline : (execSetting ι κ).Outline (freevm old) (update own t q t) (.calm s mark) _ :=
    freevm_outline (pushing.keeps_old at_old) (fun _ claim => claim) fun _ => rfl
  rw [← at_t] at ran
  obtain ⟨gh', mark', ⟨own', rfl⟩, change⟩ := calm.ran trivial outline (fun _ _ _ after => after.2 ▸ Gh.resting_rested _) ran
  rw [at_t] at own'
  have at_d : p'.dirs d = some x := by
    rw [own']
    show update q.dirs old none d = some x
    rw [update_of_ne (pushing.apart at_old).symm]
    exact pushing.at_d
  refine ⟨by rw [own']; rfl, ?_, ?_⟩
  · have pgdir : p'.pgdir = d := by rw [own']; rfl
    rw [Proc.table, pgdir]
    exact Proc.dir_of at_d
  · funext va
    unfold PgDir.space
    by_cases user : x.User (pageOf (va % 2 ^ 32))
    · have opened := pushing.ready.opened _ user
      rw [if_pos user, if_pos user, change.page at_d opened.user opened.present]
      rfl
    · rw [if_neg user, if_neg user]

theorem Pushing.free_succeeds :
    ∃ s' p', Program.run (execute κ) (freevm old) (s, { own t with pgdir := d, sz := sz }) = (.ok (), (s', p')) := by
  obtain ⟨mark, calm⟩ := pushing.commit
  have sure : (sureSetting ι κ).Calm s (update own t { own t with pgdir := d, sz := sz }) mark := calm.transfer rfl rfl
  have outline : (sureSetting ι κ).Outline (freevm old) (update own t { own t with pgdir := d, sz := sz } t) (.calm s mark) _ :=
    freevm_outline (pushing.keeps_old at_old) (fun _ claim => claim) fun _ => rfl
  obtain ⟨_, s', p', _, _, _, done, -⟩ := sure.succeed (t := t) trivial outline (Freeing.stocked freevm_uses _)
  rw [update_self] at done
  exact ⟨s', p', done⟩

end Commit

/-- After a successful `exec` the memory of the process up to its stack pointer is what the file describes, except for a
    page below the stack that it may not touch, and it has no memory from its size on. -/
theorem exec_loads {task task' : Exec.Task} {path : List UInt8} {file : Exec.Binary} {argv : List (List UInt8)}
    {mark : Nat → Mark} {x₀ : PgDir} (calm : (execSetting ι κ).Calm s own mark)
    (at_pgdir : (own t).dirs (own t).pgdir = some x₀) (small : file.content.length < 2 ^ 32)
    (ran : Program.run (execute κ) (Exec.exec task path (own t).pgdir (some file) argv) (s, own t) =
      (.ok (true, task'), (s', p'))) :
    ∃ elf, file.elf = some elf ∧ elf.magic = elfMagic ∧ file.Loadable elf.phnum ∧
      p'.sz = (pgRoundUp (file.extent elf.phnum) + 2) * pgSize ∧ task'.eip = file.entry ∧
      p'.sz - pgSize ≤ task'.esp ∧ task'.esp < p'.sz ∧ ∀ va, va < 2 ^ 32 →
        (va < task'.esp → pageOf va ≠ pgRoundUp (file.extent elf.phnum) →
          p'.table.space s'.ram va = some (file.described elf.phnum va)) ∧
        (pageOf va = pgRoundUp (file.extent elf.phnum) ∨ p'.sz ≤ va → p'.table.space s'.ram va = none) := by
  unfold Exec.exec at ran
  dsimp only at ran
  cases header : file.elf with
  | none =>
    rw [header] at ran
    cases ran
  | some elf =>
    rw [header] at ran
    dsimp only at ran
    by_cases foreign : elf.magic ≠ elfMagic
    · rw [if_pos foreign] at ran
      cases ran
    · rw [if_neg foreign] at ran
      obtain ⟨new, ⟨s₁, p₁⟩, first, ran⟩ := Program.exists_of_run_bind ran
      cases new with
      | none => cases ran
      | some d =>
        obtain ⟨loaded, ⟨s₂, p₂⟩, second, ran⟩ := Program.exists_of_run_bind ran
        obtain ⟨x₁, making⟩ := Making.kernel calm first
        have at_t₁ : update own t p₁ t = p₁ := update_self ..
        rw [← at_t₁] at second
        cases loaded with
        | none =>
          obtain ⟨_, ⟨s₃, p₃⟩, _, ran⟩ := Program.exists_of_run_bind ran
          cases ran
        | some size =>
          obtain ⟨stacked, ⟨s₃, p₃⟩, third, ran⟩ := Program.exists_of_run_bind ran
          have start : pgRoundUp 0 = 0 := by decide
          rw [← start] at making
          obtain ⟨x₂, rfl, loadable, making₂⟩ := Making.segments (i := 0) making rfl (fun i low => absurd low (Nat.not_lt_zero i)) small second
          rw [Nat.zero_add, update_idem] at making₂
          rw [Nat.zero_add] at loadable third
          cases stacked with
          | none =>
            obtain ⟨_, ⟨s₄, p₄⟩, _, ran⟩ := Program.exists_of_run_bind ran
            cases ran
          | some stacked =>
            have at_t₂ : update own t p₂ t = p₂ := update_self ..
            rw [← at_t₂] at third
            have blank : ∀ va, pgRoundUp (file.extent elf.phnum) * pgSize ≤ va → file.described elf.phnum va = 0 := by
              intro va high
              apply described_blank loadable
              unfold pgRoundUp pgSize at high
              omega
            obtain ⟨exact', below, x₃, pushing⟩ := making₂.stack blank third
            rw [update_idem] at pushing
            obtain ⟨_, ⟨s₄, p₄⟩, fourth, ran⟩ := Program.exists_of_run_bind (show Program.run (execute κ) (freevm (own t).pgdir >>= _)
              (s₃, { p₃ with pgdir := d, sz := stacked.1 }) = _ from ran)
            have at_t₃ : update own t p₃ t = p₃ := update_self ..
            rw [← at_t₃] at fourth
            obtain ⟨sz', table, space⟩ := pushing.freed at_pgdir fourth
            cases ran
            have guard : pageOf stacked.1 - 2 = pgRoundUp (file.extent elf.phnum) := by
              rw [exact', pageOf, Nat.mul_div_cancel _ (by decide), Nat.add_sub_cancel]
            have laid := pushing.loaded
            refine ⟨elf, rfl, not_not.mp foreign, loadable, sz'.trans exact', rfl, sz' ▸ pushing.low, sz' ▸ below, fun va word => ?_⟩
            rw [table, space]
            refine ⟨fun low other => pushing.bytes va low (by rw [guard]; exact other), fun closed => ?_⟩
            unfold PgDir.space
            rw [Nat.mod_eq_of_lt word, if_neg]
            intro user
            have opened := laid.opened user.1 user.2
            rcases closed with here | beyond
            · exact (laid.mapped (pageOf va) (by rw [here, exact', pageOf, Nat.mul_div_cancel _ (by decide)]; omega)).2.2.mp user.2
                (here.trans guard.symm)
            · have absent := laid.unmapped (pageOf va) (by rw [sz'] at beyond; exact Nat.div_le_div_right beyond) opened.user
              rw [user.1] at absent
              cases absent

omit [KernelImage] in
/-- A program of three bytes: the second of them, the zero behind them and the page that is closed. -/
theorem exec_loads_bytes :
    letI := builtImage
    ∃ (s s' : Shared) (own : Fin 1 → Proc) (p' : Proc) (task' : Exec.Task),
      Program.run (execute .cow) (Exec.exec ⟨0, 0, false, [], 0, 0⟩ [] (own 0).pgdir
        (some ⟨⟨some ⟨elfMagic, 1⟩, fun _ => some ⟨elfProgLoad, 0, 0, 3, 3⟩, [1, 2, 3]⟩, 0⟩) []) (s, own 0) =
          (.ok (true, task'), (s', p')) ∧
      p'.table.space s'.ram 1 = some 2 ∧ p'.table.space s'.ram 3 = some 0 ∧ p'.table.space s'.ram 4096 = none := by
  let := builtImage
  obtain ⟨c, x₀, first⟩ := first_reached .cow (fun _ _ => True) (0 : Fin 1) (by decide : [].length < pgSize) fun _ => Shared.junk
  obtain ⟨mark₀, calm₀⟩ := first.sane.calm
  have lax : (execSetting (Fin 1) .cow).Calm c.shared c.proc mark₀ := calm₀.transfer rfl rfl
  let ip : Inode := ⟨some ⟨elfMagic, 1⟩, fun _ => some ⟨elfProgLoad, 0, 0, 3, 3⟩, [1, 2, 3]⟩
  -- the page table
  have make : (sureSetting (Fin 1) .cow).Outline setupkvm (c.proc 0) (.calm c.shared mark₀) _ :=
    setupkvm_outline (fun _ claim => claim) (fun _ => rfl)
  have stock := first.stock
  obtain ⟨_ | d, s₁, p₁, _, _, _, done₁, post₁, room₁, -⟩ :=
    calm₀.succeed (t := 0) trivial make (supply_setupkvm (κ := .cow) (n := 3) (by unfold npdEntries; omega))
  · exact absurd post₁.1 id
  obtain ⟨x₁, making₁⟩ := Making.kernel lax done₁
  have at_t : ∀ p : Proc, update c.proc 0 p 0 = p := fun p => update_self ..
  -- a page for the segment
  have making₁' : Making .cow 0 d (c.proc 0) x₁ (pgRoundUp 0) (fun _ => 0) s₁ (update c.proc 0 p₁) := making₁
  obtain ⟨s₂, p₂, done₂, room₂⟩ := making₁'.grow_succeeds 3 2 (by decide) (by decide) (by
    rw [at_t]
    exact (room₁ d rfl).mono (by decide))
  have room₂' := room₂ (by decide)
  obtain ⟨x₂, -, -, making₂⟩ := making₁'.grow (fun _ _ => rfl) done₂ (by decide)
  rw [update_idem] at making₂
  rw [at_t] at done₂
  -- the segment
  have at_d₂ : p₂.dirs d = some x₂ := (at_t p₂ ▸ making₂.at_d)
  have opened₂ : Open x₂ 0 := making₂.opened (by decide)
  have has₂ : x₂.Has 0 := PgDir.has_of_present opened₂.present
  have done₃ : Program.run (execute .cow) (loaduvm d 0 ip 0 3) (s₂, p₂) = (.ok true,
      (s₂.setPage (x₂.pte 0).addr ((s₂.ram (x₂.pte 0).addr).store 0 [1, 2, 3]), p₂)) := by
    unfold loaduvm
    rw [if_neg (by decide)]
    show Program.run _ (loadLoop d 0 ip 0 3 1 0) _ = _
    have page : pageOf (0 + 0) = 0 := rfl
    rw [loadLoop, run_walk, Proc.dir_of at_d₂, page, if_pos has₂]
    dsimp only
    rw [run_pte, Proc.dir_of at_d₂, run_store]
    rfl
  have at_t₂ : update c.proc 0 p₂ 0 = p₂ := at_t p₂
  obtain ⟨s₃, loaded⟩ : ∃ s₃, s₃ = s₂.setPage (x₂.pte 0).addr ((s₂.ram (x₂.pte 0).addr).store 0 [1, 2, 3]) := ⟨_, rfl⟩
  rw [← loaded] at done₃
  have room₃ : Room d 2 (s₃, p₂) := by
    rw [loaded]
    exact room₂'
  rw [← at_t₂] at done₃
  obtain ⟨-, making₃⟩ := making₂.load (by decide) (by decide) (by decide) done₃
  rw [at_t₂, update_idem] at making₃
  rw [at_t₂] at done₃
  -- the stack
  have making₃' : Making .cow 0 d (c.proc 0) x₂ (pgRoundUp 4096) _ s₃ (update c.proc 0 p₂) := making₃
  obtain ⟨s₄, p₄, done₄, -⟩ := making₃'.grow_succeeds 12288 0 (by decide) (by decide) (by
    rw [at_t₂]
    exact room₃)
  obtain ⟨x₄, -, -, making₄⟩ := making₃'.grow (fun va high => if_neg (by
    change 4096 ≤ va at high
    omega)) done₄ (by decide)
  rw [update_idem] at making₄
  rw [at_t₂] at done₄
  have at_d₄ : p₄.dirs d = some x₄ := (at_t p₄ ▸ making₄.at_d)
  have has₄ : x₄.Has 1 := PgDir.has_of_present (making₄.opened (by decide)).present
  have done₅ : Program.run (execute .cow) (clearpteu d 4096) (s₄, p₄) = _ := clearpteu_run at_d₄ has₄
  obtain ⟨p₅, guarded⟩ : ∃ p₅, p₅ = p₄.setDir d (x₄.setPte (pageOf 4096) { x₄.pte (pageOf 4096) with u := false }) := ⟨_, rfl⟩
  rw [← guarded] at done₅
  have making₄' : Making .cow 0 d (c.proc 0) x₄ (1 + 2) _ s₄ (update c.proc 0 p₄) := making₄
  rw [← at_t p₄] at done₅
  obtain ⟨x₅, pushing⟩ := making₄'.guard (by decide : 12288 = _) (by decide) done₅
  rw [update_idem] at pushing
  rw [at_t p₄] at done₅
  have reached : ReachesUser x₅ 12272 (ustack 12288 []).length := by
    intro j low
    rw [ustack_length] at low
    have page : bytePage 12272 j = 2 := by
      unfold bytePage pageOf pgSize
      change j < 16 at low
      omega
    rw [page]
    have mapped := pushing.loaded.mapped 2 (by decide)
    exact ⟨mapped.1, mapped.2.2.mpr (by decide)⟩
  obtain ⟨s₆, done₆⟩ := pushing.copy_succeeds (k := 3) (by decide) (by decide) reached
  have pushing₆ := pushing.copy (by decide) (by decide) (by decide) (fun _ => by decide) done₆
  rw [update_idem] at pushing₆
  rw [at_t p₅] at done₆ pushing₆
  -- the old table goes
  obtain ⟨s₇, p₇, done₇⟩ := pushing₆.free_succeeds first.occupied.at_pgdir
  rw [at_t p₅] at done₇
  have segments : Program.run (execute .cow) (segments d ip 1 0 0) (s₁, p₁) = (.ok (some 3), (s₃, p₂)) := by
    show Program.run _ (allocuvm d 0 3 >>= _) _ = _
    rw [Program.run_bind_ok done₂, if_neg (by decide), if_neg (by decide)]
    show Program.run _ (loaduvm d 0 ip 0 3 >>= _) _ = _
    rw [Program.run_bind_ok done₃]
    rfl
  have stack : Program.run (execute .cow) (Exec.stack d 3 []) (s₃, p₂) = (.ok (some (12288, 12272)), (s₆, p₅)) := by
    unfold Exec.stack
    show Program.run _ (allocuvm d 4096 12288 >>= _) _ = _
    rw [Program.run_bind_ok done₄, if_neg (by decide)]
    show Program.run _ (clearpteu d 4096 >>= _) _ = _
    rw [Program.run_bind_ok done₅]
    show Program.run _ (copyout d 3 12272 (ustack 12288 []) >>= _) _ = _
    rw [Program.run_bind_ok done₆]
    rfl
  have ran : Program.run (execute .cow) (Exec.exec ⟨0, 0, false, [], 0, 0⟩ [] (c.proc 0).pgdir (some ⟨ip, 0⟩) [])
      (c.shared, c.proc 0) = (.ok (true, ⟨0, 0, false, [], 0, 12272⟩), (s₇, p₇)) := by
    show Program.run _ (setupkvm >>= _) _ = _
    rw [Program.run_bind_ok done₁]
    show Program.run _ (Xv6.segments d ip 1 0 0 >>= _) _ = _
    rw [Program.run_bind_ok segments]
    show Program.run _ (Exec.stack d 3 [] >>= _) _ = _
    rw [Program.run_bind_ok stack]
    show Program.run _ (freevm (c.proc 0).pgdir >>= _) (s₆, { p₅ with pgdir := d, sz := 12288 }) = _
    rw [Program.run_bind_ok done₇]
    rfl
  obtain ⟨elf, header, -, -, size, -, -, -, bytes⟩ := exec_loads lax first.occupied.at_pgdir (by decide) ran
  cases header
  have at_bytes := fun va word => (bytes va word).1
  refine ⟨_, _, _, _, _, ran, at_bytes 1 (by decide) (by decide) (by decide), at_bytes 3 (by decide) (by decide) (by decide),
    (bytes 4096 (by decide)).2 (.inl (by decide))⟩

end Xv6
