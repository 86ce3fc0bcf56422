import Mathlib.Algebra.Ring.Nat
import Xv6.Calls.Arguments
import Xv6.Sched.Table

open Xv6.Arguments (Caller bytesAt mem_bytesAt toNat_add_ofNat)

namespace Xv6.Sched

/-- The values of `enum procstate`. -/
def ProcState.value : ProcState → Word
  | .unused => 0
  | .embryo => 1
  | .sleeping => 2
  | .runnable => 3
  | .running => 4
  | .zombie => 5

/-- `sizeof(struct Info_req)` -/
def infoSize : Nat := 48

/-- The fields of a record with their offsets in `struct Info_req`, in the order in which `getprocstable` sets them. -/
def InfoReq.fields (info : InfoReq) : List (Nat × Word) :=
  [(0, info.pid), (4, info.state.value), (12, info.priority), (8, info.rtime), (28, info.ticks 0),
   (32, info.ticks 1), (36, info.ticks 2), (40, info.ticks 3), (44, info.ticks 4), (16, info.curq),
   (24, info.wtime), (20, info.nRun)]

/-- The stores that set the record at `base`, as addresses and values. -/
def InfoReq.stores (info : InfoReq) (base : Word) : List (Word × Word) :=
  info.fields.map (fun field => (base + BitVec.ofNat 32 field.1, field.2))

/-- `InfoTable[count]`, `InfoTable[count + 1]`, … are set, one for each record. -/
def storeInfos : List InfoReq → Word → List (Word × Word)
  | [], _ => []
  | info :: rest, base => info.stores base ++ storeInfos rest (base + BitVec.ofNat 32 infoSize)

namespace Table

/-- The number of slots that `getprocstable` reports. -/
def live (t : Table) : Nat := ((List.finRange NPROC).filter (fun k => (t k).state ≠ .unused)).length

/-- The result of the system call (`none` where it is -1) and its stores through the pointer;
    the pointer is checked for `sizeof(table)`, the four bytes of a pointer. -/
def sysGetprocstable (t : Table) (ticks : Word) (c : Caller) : Option Nat × List (Word × Word) :=
  match (c.argptr 0 4).result with
  | none => (none, [])
  | some table => (some (t.getprocstable ticks).length, storeInfos (t.getprocstable ticks) table)

/-- The call fails and writes nothing, or it writes to the memory of its process only. -/
def ListingSafe (t : Table) (ticks : Word) (c : Caller) : Prop :=
  ((t.sysGetprocstable ticks c).1 = none ∧ (t.sysGetprocstable ticks c).2 = []) ∨
    ∀ store ∈ (t.sysGetprocstable ticks c).2, ∀ a ∈ bytesAt store.1 4, a.toNat < c.sz.toNat

end Table

theorem add_ofNat_ofNat (base : Word) (m n : Nat) :
    base + BitVec.ofNat 32 m + BitVec.ofNat 32 n = base + BitVec.ofNat 32 (m + n) := by
  rw [BitVec.ofNat_add, BitVec.add_assoc]

/-- The offsets of the fields of `struct Info_req`, in the order in which they are set. -/
def infoOffsets : List Nat := [0, 4, 12, 8, 28, 32, 36, 40, 44, 16, 24, 20]

theorem InfoReq.fields_offsets (info : InfoReq) : info.fields.map Prod.fst = infoOffsets := rfl

theorem offsets_below : ∀ o ∈ infoOffsets, o + 4 ≤ infoSize := by decide

theorem offsets_cover : ∀ k < infoSize, ∃ o ∈ infoOffsets, ∃ i < 4, o + i = k := by decide

def touched (stores : List (Word × Word)) : List Word := stores.flatMap (fun store => bytesAt store.1 4)

theorem mem_touched {stores : List (Word × Word)} {a : Word} :
    a ∈ touched stores ↔ ∃ store ∈ stores, a ∈ bytesAt store.1 4 := List.mem_flatMap

theorem InfoReq.mem_touched (info : InfoReq) {base a : Word} :
    a ∈ touched (info.stores base) ↔ ∃ k < infoSize, a = base + BitVec.ofNat 32 k := by
  rw [Sched.mem_touched]
  constructor
  · rintro ⟨store, member, byte⟩
    obtain ⟨field, field_mem, rfl⟩ := List.mem_map.mp member
    obtain ⟨i, i_lt, rfl⟩ := mem_bytesAt.mp byte
    have offset : field.1 ∈ infoOffsets := info.fields_offsets ▸ List.mem_map_of_mem field_mem
    have below := offsets_below _ offset
    exact ⟨field.1 + i, by omega, add_ofNat_ofNat _ _ _⟩
  · rintro ⟨k, below, rfl⟩
    obtain ⟨o, offset, i, i_lt, rfl⟩ := offsets_cover k below
    rw [← info.fields_offsets] at offset
    obtain ⟨field, field_mem, rfl⟩ := List.mem_map.mp offset
    exact ⟨_, List.mem_map_of_mem field_mem, mem_bytesAt.mpr ⟨i, i_lt, (add_ofNat_ofNat _ _ _).symm⟩⟩

theorem mem_touched_infos {infos : List InfoReq} {base a : Word} :
    a ∈ touched (storeInfos infos base) ↔ ∃ k < infoSize * infos.length, a = base + BitVec.ofNat 32 k := by
  induction infos generalizing base with
  | nil =>
    constructor
    · intro member
      cases member
    · rintro ⟨k, below, -⟩
      exact absurd below (Nat.not_lt_zero k)
  | cons info rest ih =>
    have split : a ∈ touched (storeInfos (info :: rest) base) ↔
        a ∈ touched (info.stores base) ∨ a ∈ touched (storeInfos rest (base + BitVec.ofNat 32 infoSize)) := by
      unfold touched
      rw [storeInfos, List.flatMap_append, List.mem_append]
    rw [split, info.mem_touched, ih, List.length_cons, Nat.mul_succ]
    constructor
    · rintro (⟨k, below, rfl⟩ | ⟨k, below, rfl⟩)
      · exact ⟨k, by omega, rfl⟩
      · exact ⟨infoSize + k, by omega, add_ofNat_ofNat _ _ _⟩
    · rintro ⟨k, below, rfl⟩
      by_cases first : k < infoSize
      · exact .inl ⟨k, first, rfl⟩
      · refine .inr ⟨k - infoSize, by omega, ?_⟩
        rw [add_ofNat_ofNat, Nat.add_sub_cancel' (Nat.le_of_not_lt first)]

namespace Table

variable {t : Table} {ticks : Word} {c : Caller}

@[simp] theorem length_getprocstable : (t.getprocstable ticks).length = t.live := List.length_map _

theorem below_of_argptr {n size p : Word} (accepted : (c.argptr n size).result = some p) : p.toNat < c.sz.toNat := by
  obtain ⟨i, -, checked⟩ := Arguments.Check.andThen_some accepted
  split at checked
  · cases checked
  · rename_i passed
    cases checked
    by_contra above
    exact passed (.inr (.inl (BitVec.le_def.mpr (Nat.le_of_not_lt above))))

/-- The stores stay in the memory of the process exactly if the records of all processes have room. -/
theorem stores_confined_iff (ticks : Word) {table : Word} (below : table.toNat < c.sz.toNat) :
    (∀ store ∈ storeInfos (t.getprocstable ticks) table, ∀ a ∈ bytesAt store.1 4, a.toNat < c.sz.toNat) ↔
      table.toNat + infoSize * t.live ≤ c.sz.toNat := by
  have size := c.sz.isLt
  constructor
  · intro all
    -- the byte at `sz` itself would be written
    by_contra beyond
    have last : c.sz.toNat - table.toNat < infoSize * (t.getprocstable ticks).length := by
      rw [length_getprocstable]
      omega
    obtain ⟨store, member, byte⟩ := mem_touched.mp (mem_touched_infos.mpr ⟨_, last, rfl⟩)
    have inside := all store member _ byte
    rw [toNat_add_ofNat (by omega)] at inside
    omega
  · intro room store member a byte
    obtain ⟨k, k_lt, rfl⟩ := mem_touched_infos.mp (mem_touched.mpr ⟨store, member, byte⟩)
    rw [length_getprocstable] at k_lt
    rw [toNat_add_ofNat (by omega)]
    omega

theorem listingSafe_of_accepted {table : Word} (accepted : (c.argptr 0 4).result = some table) :
    t.ListingSafe ticks c ↔ table.toNat + infoSize * t.live ≤ c.sz.toNat := by
  rw [← stores_confined_iff ticks (below_of_argptr accepted)]
  unfold ListingSafe sysGetprocstable
  rw [accepted]
  constructor
  · rintro (⟨failed, -⟩ | all)
    · cases failed
    · exact all
  · exact .inr

/-- The call is safe exactly if there is room for the records of all processes at an accepted pointer. -/
theorem listingSafe_iff (t : Table) (ticks : Word) (c : Caller) :
    t.ListingSafe ticks c ↔
      ∀ table, (c.argptr 0 4).result = some table → table.toNat + infoSize * t.live ≤ c.sz.toNat := by
  constructor
  · intro safe table accepted
    exact (listingSafe_of_accepted accepted).mp safe
  · intro room
    cases checked : (c.argptr 0 4).result with
    | none =>
      apply Or.inl
      unfold sysGetprocstable
      rw [checked]
      exact ⟨rfl, rfl⟩
    | some table => exact (listingSafe_of_accepted checked).mpr (room table checked)

theorem live_pos {k : Slot} (used : (t k).state ≠ .unused) : 0 < t.live := by
  apply List.length_pos_of_mem (a := k)
  apply List.mem_filter.mpr
  exact ⟨List.mem_finRange k, by simpa using used⟩

/-- Two sleeping processes, and the one that runs `ps`. -/
def threeLive : Table := fun k =>
  ⟨if k.val < 2 then .sleeping else if k.val = 2 then .running else .unused,
    BitVec.ofNat 32 (k.val + 1), none, none, false, 0, 0, 0, 0, 60, 0, fun _ => 0, 0, 0, 0⟩

/-- The pointer names the last word of the three pages of the process. -/
def lastWord : Caller where
  sz := 0x3000
  esp := 0x2f00
  mem := fun a => if a = 0x2f04 then 0xfc else if a = 0x2f05 then 0x2f else 0

/-- The four bytes that are checked lie in the process, the record of a single process does not. -/
theorem listing_beyond_sz :
    lastWord.sz.toNat < kernBase ∧ (lastWord.argptr 0 4).result = some 0x2ffc ∧ ¬threeLive.ListingSafe 0 lastWord := by
  have accepted : (lastWord.argptr 0 4).result = some 0x2ffc := by decide
  have used : (threeLive ⟨2, by decide⟩).state ≠ .unused := by decide
  refine ⟨by decide, accepted, fun safe => ?_⟩
  have room : 0x2ffc + infoSize * threeLive.live ≤ 0x3000 := (listingSafe_of_accepted accepted).mp safe
  have positive := live_pos used
  unfold infoSize at room
  omega

end Table

end Xv6.Sched
