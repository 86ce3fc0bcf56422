import Mathlib.Algebra.Ring.Nat
import Xv6.Memory.Layout

namespace Xv6.Arguments

/-- `int` and `uint` of the 32-bit machine. -/
abbrev Word := BitVec 32

/-- What the argument checks see of the calling process; `mem` is what a load from an address gives. -/
structure Caller where
  sz : Word
  esp : Word
  mem : Word → UInt8

/-- What a check has done: the addresses that it loaded from, and its result (`none` where it returns -1). -/
structure Check (α : Type) where
  reads : List Word
  result : Option α

def Check.fail {α : Type} : Check α := ⟨[], none⟩

/-- Go on with the value of a check that has succeeded. -/
def Check.andThen {α β : Type} (check : Check α) (next : α → Check β) : Check β :=
  match check.result with
  | none => ⟨check.reads, none⟩
  | some a => ⟨check.reads ++ (next a).reads, (next a).result⟩

/-- The addresses of an access of `count` bytes. -/
def bytesAt (addr : Word) (count : Nat) : List Word := (List.range count).map (fun i => addr + BitVec.ofNat 32 i)

namespace Caller

/-- The 32-bit load of an `int`, little-endian. -/
def word (c : Caller) (addr : Word) : Word :=
  (c.mem (addr + 3)).toBitVec ++ (c.mem (addr + 2)).toBitVec ++ (c.mem (addr + 1)).toBitVec ++ (c.mem addr).toBitVec

def fetchint (c : Caller) (addr : Word) : Check Word :=
  if addr ≥ c.sz ∨ addr + 4 > c.sz then .fail else ⟨bytesAt addr 4, some (c.word addr)⟩

/-- The loop of `fetchstr`, with `s` the next address to look at. -/
def scan (c : Caller) (addr ep s : Word) : Check Word :=
  if s < ep then
    if c.mem s = 0 then ⟨[s], some (s - addr)⟩
    else ⟨s :: (c.scan addr ep (s + 1)).reads, (c.scan addr ep (s + 1)).result⟩
  else .fail
termination_by ep.toNat - s.toNat
decreasing_by all_goals bv_omega

def fetchstr (c : Caller) (addr : Word) : Check Word := if addr ≥ c.sz then .fail else c.scan addr c.sz addr

def argint (c : Caller) (n : Word) : Check Word := c.fetchint (c.esp + 4 + 4 * n)

/-- `size` is an `int`; the sum with it is a `uint`. -/
def argptr (c : Caller) (n size : Word) : Check Word :=
  (c.argint n).andThen fun i =>
    if size.toInt < 0 ∨ i ≥ c.sz ∨ i + size > c.sz then .fail else ⟨[], some i⟩

def argstr (c : Caller) (n : Word) : Check (Word × Word) :=
  (c.argint n).andThen fun addr => ⟨(c.fetchstr addr).reads, (c.fetchstr addr).result.map (fun length => (addr, length))⟩

/-- The `count` bytes at the address lie in the memory of the process, counted without wrap-around. -/
def Inside (c : Caller) (addr : Word) (count : Nat) : Prop := addr.toNat + count ≤ c.sz.toNat

/-- A check has loaded from the memory of the process only. -/
def Confined {α : Type} (c : Caller) (check : Check α) : Prop := ∀ a ∈ check.reads, a.toNat < c.sz.toNat

/-- The string at the address ends with the NUL that lies `length` bytes further on, below `ep`. -/
def EndsAt (c : Caller) (ep : Word) (addr : Word) (length : Nat) : Prop :=
  addr.toNat + length < ep.toNat ∧ c.mem (addr + BitVec.ofNat 32 length) = 0 ∧
    ∀ i < length, c.mem (addr + BitVec.ofNat 32 i) ≠ 0

instance (c : Caller) (addr : Word) (count : Nat) : Decidable (c.Inside addr count) :=
  inferInstanceAs (Decidable (_ ≤ _))

instance (c : Caller) (ep addr : Word) (length : Nat) : Decidable (c.EndsAt ep addr length) :=
  inferInstanceAs (Decidable (_ ∧ _ ∧ _))

end Caller

theorem mem_bytesAt {a addr : Word} {count : Nat} : a ∈ bytesAt addr count ↔ ∃ i < count, a = addr + BitVec.ofNat 32 i := by
  unfold bytesAt
  constructor
  · intro member
    obtain ⟨i, below, rfl⟩ := List.mem_map.mp member
    exact ⟨i, List.mem_range.mp below, rfl⟩
  · rintro ⟨i, below, rfl⟩
    exact List.mem_map.mpr ⟨i, List.mem_range.mpr below, rfl⟩

theorem toNat_add_ofNat {addr : Word} {i : Nat} (small : addr.toNat + i < 2 ^ 32) :
    (addr + BitVec.ofNat 32 i).toNat = addr.toNat + i := by
  rw [BitVec.toNat_add, BitVec.toNat_ofNat, Nat.add_mod_mod, Nat.mod_eq_of_lt small]

theorem add_ofNat_succ (s : Word) (i : Nat) : s + BitVec.ofNat 32 (i + 1) = s + 1 + BitVec.ofNat 32 i := by
  rw [Nat.add_comm i 1, BitVec.ofNat_add, ← BitVec.add_assoc]
  rfl

namespace Check

variable {α β : Type} {check : Check α} {next : α → Check β} {b : β}

theorem andThen_some (done : (check.andThen next).result = some b) :
    ∃ a, check.result = some a ∧ (next a).result = some b := by
  unfold andThen at done
  cases first : check.result with
  | none =>
    rw [first] at done
    cases done
  | some a =>
    rw [first] at done
    exact ⟨a, rfl, done⟩

theorem mem_andThen {a : Word} (member : a ∈ (check.andThen next).reads) :
    a ∈ check.reads ∨ ∃ v, check.result = some v ∧ a ∈ (next v).reads := by
  unfold andThen at member
  cases first : check.result with
  | none =>
    rw [first] at member
    exact .inl member
  | some v =>
    rw [first] at member
    rcases List.mem_append.mp member with member | member
    · exact .inl member
    · exact .inr ⟨v, rfl, member⟩

end Check

namespace Caller

variable {c : Caller} {addr ep s : Word}

theorem Inside.bytes {count : Nat} (inside : c.Inside addr count) : ∀ a ∈ bytesAt addr count, a.toNat < c.sz.toNat := by
  intro a member
  obtain ⟨i, below, rfl⟩ := mem_bytesAt.mp member
  unfold Inside at inside
  have small := c.sz.isLt
  rw [toNat_add_ofNat (by omega)]
  omega

theorem Confined.andThen {α β : Type} {check : Check α} {next : α → Check β} (first : c.Confined check)
    (second : ∀ v, check.result = some v → c.Confined (next v)) : c.Confined (check.andThen next) := by
  intro a member
  rcases Check.mem_andThen member with member | ⟨v, some, member⟩
  · exact first a member
  · exact second v some a member

theorem scan_confined : ∀ a ∈ (c.scan addr ep s).reads, a.toNat < ep.toNat := by
  fun_induction c.scan addr ep s with
  | case1 s below zero =>
    intro a member
    rw [List.mem_singleton.mp member]
    exact below
  | case2 s below nonzero ih =>
    intro a member
    rcases List.mem_cons.mp member with rfl | member
    · exact below
    · exact ih a member
  | case3 =>
    intro a member
    cases member

theorem EndsAt.first (zero : c.mem s = 0) (below : s < ep) : c.EndsAt ep s 0 := by
  refine ⟨below, ?_, ?_⟩
  · simpa using zero
  · intro i i_lt
    exact absurd i_lt (Nat.not_lt_zero i)

theorem endsAt_succ {length : Nat} (below : s < ep) :
    c.EndsAt ep s (length + 1) ↔ c.mem s ≠ 0 ∧ c.EndsAt ep (s + 1) length := by
  have next : (s + 1).toNat = s.toNat + 1 := by bv_omega
  unfold EndsAt
  rw [add_ofNat_succ, next]
  constructor
  · rintro ⟨inside, zero, before⟩
    refine ⟨by simpa using before 0 (by omega), by omega, zero, fun i i_lt => ?_⟩
    rw [← add_ofNat_succ]
    exact before (i + 1) (by omega)
  · rintro ⟨nonzero, inside, zero, before⟩
    refine ⟨by omega, zero, fun i i_lt => ?_⟩
    cases i with
    | zero => simpa using nonzero
    | succ i =>
      rw [add_ofNat_succ]
      exact before i (by omega)

theorem EndsAt.zero_of (zero : c.mem s = 0) {length : Nat} (ends : c.EndsAt ep s length) : length = 0 := by
  by_contra positive
  apply ends.2.2 0 (Nat.pos_of_ne_zero positive)
  simpa using zero

theorem scan_some {d : Word} :
    (c.scan addr ep s).result = some d ↔ ∃ length, c.EndsAt ep s length ∧ d = s + BitVec.ofNat 32 length - addr := by
  fun_induction c.scan addr ep s with
  | case1 s below zero =>
    constructor
    · intro done
      cases done
      exact ⟨0, .first zero below, by simp⟩
    · rintro ⟨length, ends, rfl⟩
      rw [ends.zero_of zero]
      simp
  | case2 s below nonzero ih =>
    rw [ih]
    constructor
    · rintro ⟨length, ends, rfl⟩
      exact ⟨length + 1, (endsAt_succ below).mpr ⟨nonzero, ends⟩, by rw [add_ofNat_succ]⟩
    · rintro ⟨length, ends, rfl⟩
      cases length with
      | zero => exact absurd (by simpa using ends.2.1) nonzero
      | succ length => exact ⟨length, ((endsAt_succ below).mp ends).2, by rw [add_ofNat_succ]⟩
  | case3 s above =>
    constructor
    · intro done
      cases done
    · rintro ⟨length, ends, -⟩
      exact absurd (BitVec.lt_def.mpr (Nat.lt_of_le_of_lt (Nat.le_add_right _ _) ends.1)) above

theorem scan_none :
    (c.scan addr ep s).result = none ↔ ∀ i, s.toNat + i < ep.toNat → c.mem (s + BitVec.ofNat 32 i) ≠ 0 := by
  fun_induction c.scan addr ep s with
  | case1 s below zero =>
    constructor
    · intro done
      cases done
    · intro none
      exact absurd (by simpa using zero) (none 0 below)
  | case2 s below nonzero ih =>
    have next : (s + 1).toNat = s.toNat + 1 := by bv_omega
    rw [ih, next]
    constructor
    · intro none i inside
      cases i with
      | zero => simpa using nonzero
      | succ i =>
        rw [add_ofNat_succ]
        exact none i (by omega)
    · intro none i inside
      rw [← add_ofNat_succ]
      exact none (i + 1) (by omega)
  | case3 s above =>
    constructor
    · intro _ i inside
      exact absurd (BitVec.lt_def.mpr (Nat.lt_of_le_of_lt (Nat.le_add_right _ _) inside)) above
    · intro _
      rfl

theorem fetchint_confined (user : c.sz.toNat < kernBase) : c.Confined (c.fetchint addr) := by
  unfold fetchint
  split
  · intro a member
    cases member
  · rename_i accepted
    apply Inside.bytes
    unfold Inside
    unfold kernBase at user
    bv_omega

theorem fetchint_some {v : Word} (user : c.sz.toNat < kernBase) :
    (c.fetchint addr).result = some v ↔ c.Inside addr 4 ∧ v = c.word addr := by
  unfold fetchint Inside
  unfold kernBase at user
  split
  · rename_i refused
    constructor
    · intro done
      cases done
    · rintro ⟨inside, -⟩
      exfalso
      bv_omega
  · rename_i accepted
    constructor
    · intro done
      cases done
      exact ⟨by bv_omega, rfl⟩
    · rintro ⟨-, rfl⟩
      rfl

theorem fetchstr_confined : c.Confined (c.fetchstr addr) := by
  unfold fetchstr
  split
  · intro a member
    cases member
  · exact scan_confined

theorem fetchstr_some {length : Word} : (c.fetchstr addr).result = some length ↔ c.EndsAt c.sz addr length.toNat := by
  have small := c.sz.isLt
  unfold fetchstr
  split
  · rename_i above
    constructor
    · intro done
      cases done
    · intro ends
      have inside := ends.1
      exfalso
      bv_omega
  · rw [scan_some]
    constructor
    · rintro ⟨d, ends, rfl⟩
      have inside := ends.1
      have same : (addr + BitVec.ofNat 32 d - addr).toNat = d := by
        rw [BitVec.add_comm, BitVec.add_sub_cancel, BitVec.toNat_ofNat, Nat.mod_eq_of_lt (by omega)]
      rw [same]
      exact ends
    · intro ends
      refine ⟨length.toNat, ends, ?_⟩
      rw [BitVec.add_comm, BitVec.add_sub_cancel, BitVec.ofNat_toNat, BitVec.setWidth_eq]

theorem fetchstr_none :
    (c.fetchstr addr).result = none ↔ ∀ i, addr.toNat + i < c.sz.toNat → c.mem (addr + BitVec.ofNat 32 i) ≠ 0 := by
  unfold fetchstr
  split
  · rename_i above
    constructor
    · intro _ i inside
      exfalso
      bv_omega
    · intro _
      rfl
  · exact scan_none

theorem argint_confined {n : Word} (user : c.sz.toNat < kernBase) : c.Confined (c.argint n) := fetchint_confined user

/-- The second test of `argptr`: an `int` that is not negative is added to an address below KERNBASE without wrap-around. -/
theorem region_iff {p size : Word} (user : c.sz.toNat < kernBase) :
    ¬(size.toInt < 0 ∨ p ≥ c.sz ∨ p + size > c.sz) ↔
      0 ≤ size.toInt ∧ p.toNat < c.sz.toNat ∧ c.Inside p size.toNat := by
  unfold kernBase at user
  unfold Inside
  have int := BitVec.toInt_eq_toNat_cond size
  have small := size.isLt
  constructor
  · intro accepted
    have nonneg : ¬size.toInt < 0 := fun neg => accepted (.inl neg)
    have below : p.toNat < c.sz.toNat := by
      by_contra above
      exact accepted (.inr (.inl (BitVec.le_def.mpr (Nat.le_of_not_lt above))))
    have sum : (p + size).toNat ≤ c.sz.toNat := by
      by_contra above
      exact accepted (.inr (.inr (BitVec.lt_def.mpr (Nat.lt_of_not_le above))))
    rw [BitVec.toNat_add] at sum
    refine ⟨by omega, below, ?_⟩
    split at int <;> omega
  · rintro ⟨nonneg, below, inside⟩ refused
    rcases refused with neg | above | above
    · omega
    · have := BitVec.le_def.mp above
      omega
    · have := BitVec.lt_def.mp above
      rw [BitVec.toNat_add, Nat.mod_eq_of_lt (by omega)] at this
      omega

theorem argptr_some {n size p : Word} (user : c.sz.toNat < kernBase) :
    (c.argptr n size).result = some p ↔
      (c.argint n).result = some p ∧ 0 ≤ size.toInt ∧ p.toNat < c.sz.toNat ∧ c.Inside p size.toNat := by
  rw [← region_iff user]
  constructor
  · intro done
    obtain ⟨i, fetched, checked⟩ := Check.andThen_some done
    split at checked
    · cases checked
    · rename_i accepted
      cases checked
      exact ⟨fetched, accepted⟩
  · rintro ⟨fetched, accepted⟩
    unfold argptr Check.andThen
    rw [fetched]
    dsimp only
    rw [if_neg accepted]

theorem argptr_confined {n size : Word} (user : c.sz.toNat < kernBase) : c.Confined (c.argptr n size) := by
  apply (argint_confined user).andThen
  intro i _ a member
  split at member <;> cases member

theorem argstr_some {n p length : Word} :
    (c.argstr n).result = some (p, length) ↔
      (c.argint n).result = some p ∧ (c.fetchstr p).result = some length := by
  constructor
  · intro done
    obtain ⟨addr, fetched, checked⟩ := Check.andThen_some done
    obtain ⟨d, found, same⟩ := Option.map_eq_some_iff.mp checked
    cases same
    exact ⟨fetched, found⟩
  · rintro ⟨fetched, found⟩
    unfold argstr Check.andThen
    rw [fetched]
    dsimp only
    rw [found]
    rfl

theorem argstr_confined {n : Word} (user : c.sz.toNat < kernBase) : c.Confined (c.argstr n) := by
  apply (argint_confined user).andThen
  intro addr _
  exact fetchstr_confined

end Caller

theorem length_nonneg {c : Caller} {addr length : Word} (user : c.sz.toNat < kernBase)
    (ends : c.EndsAt c.sz addr length.toNat) : 0 ≤ length.toInt := by
  have inside := ends.1
  have int := BitVec.toInt_eq_toNat_cond length
  unfold kernBase at user
  split at int <;> omega

/-- An accepted argument lies in the memory of the process, and so does all that the check has read. -/
theorem argument_checks_sound (c : Caller) (user : c.sz.toNat < kernBase) :
    (∀ addr, c.Confined (c.fetchint addr) ∧
      ∀ v, (c.fetchint addr).result = some v ↔ c.Inside addr 4 ∧ v = c.word addr) ∧
    (∀ n, c.Confined (c.argint n) ∧
      ∀ v, (c.argint n).result = some v ↔ c.Inside (c.esp + 4 + 4 * n) 4 ∧ v = c.word (c.esp + 4 + 4 * n)) ∧
    (∀ n size, c.Confined (c.argptr n size) ∧
      ∀ p, (c.argptr n size).result = some p ↔
        (c.argint n).result = some p ∧ 0 ≤ size.toInt ∧ p.toNat < c.sz.toNat ∧ c.Inside p size.toNat) ∧
    (∀ addr, c.Confined (c.fetchstr addr) ∧
      (∀ length, (c.fetchstr addr).result = some length ↔ c.EndsAt c.sz addr length.toNat) ∧
      (∀ length, (c.fetchstr addr).result = some length → 0 ≤ length.toInt ∧ c.Inside addr (length.toNat + 1)) ∧
      ((c.fetchstr addr).result = none ↔
        ∀ i, addr.toNat + i < c.sz.toNat → c.mem (addr + BitVec.ofNat 32 i) ≠ 0)) ∧
    (∀ n, c.Confined (c.argstr n) ∧
      ∀ p length, (c.argstr n).result = some (p, length) ↔
        (c.argint n).result = some p ∧ (c.fetchstr p).result = some length) := by
  refine ⟨?_, ?_, ?_, ?_, ?_⟩
  · intro addr
    exact ⟨Caller.fetchint_confined user, fun v => Caller.fetchint_some user⟩
  · intro n
    exact ⟨Caller.argint_confined user, fun v => Caller.fetchint_some user⟩
  · intro n size
    exact ⟨Caller.argptr_confined user, fun p => Caller.argptr_some user⟩
  · intro addr
    refine ⟨Caller.fetchstr_confined, fun length => Caller.fetchstr_some, ?_, Caller.fetchstr_none⟩
    intro length found
    have ends := Caller.fetchstr_some.mp found
    exact ⟨length_nonneg user ends, Nat.succ_le_of_lt ends.1⟩
  · intro n
    exact ⟨Caller.argstr_confined user, fun p length => Caller.argstr_some⟩

/-- A process of three pages with the string "ab" at 0x1000, its pointer the first argument. -/
def sample : Caller where
  sz := 0x3000
  esp := 0x2ff0
  mem := fun a => if a = 0x2ff5 then 0x10 else if a = 0x1000 then 97 else if a = 0x1001 then 98 else 0

theorem argument_checks_sound_sample :
    sample.sz.toNat < kernBase ∧ (sample.argstr 0).result = some (0x1000, 2) ∧ sample.Inside 0x1000 3 := by
  have user : sample.sz.toNat < kernBase := by decide
  obtain ⟨-, ints, -, strings, pairs⟩ := argument_checks_sound sample user
  have fetched : (sample.argint 0).result = some 0x1000 := ((ints 0).2 _).mpr (by decide)
  have found : (sample.fetchstr 0x1000).result = some 2 := ((strings _).2.1 _).mpr (by decide)
  exact ⟨user, ((pairs 0).2 _ _).mpr ⟨fetched, found⟩, ((strings _).2.2.1 _ found).2⟩

end Xv6.Arguments
