import Xv6.Library.Transfer

namespace Xv6.Moves

open Function Transfers

abbrev Addr := BitVec 32

abbrev Ram := Addr → UInt8

/-- `while(n-- > 0) *d++ = *s++` -/
def copyUp : ℕ → Ram → Addr → Addr → Ram
  | 0, m, _, _ => m
  | n + 1, m, d, s => copyUp n (update m d (m s)) (d + 1) (s + 1)

/-- `while(n-- > 0) *--d = *--s` -/
def copyDown : ℕ → Ram → Addr → Addr → Ram
  | 0, m, _, _ => m
  | n + 1, m, d, s => copyDown n (update m (d - 1) (m (s - 1))) (d - 1) (s - 1)

/-- The kernel's, with a `uint n`. Beside the memory it returns `dst`. -/
def Kern.memmove (m : Ram) (dst src n : Addr) : Addr × Ram :=
  if src < dst ∧ dst < src + n then (dst, copyDown n.toNat m (dst + n) (src + n))
  else (dst, copyUp n.toNat m dst src)

/-- That of the user library, with an `int n`. -/
def Ulib.memmove (m : Ram) (dst src n : Addr) : Addr × Ram := (dst, copyUp n.toInt.toNat m dst src)

/-- The address `i` bytes on. -/
def nth (p : Addr) (i : ℕ) : Addr := p + BitVec.ofNat 32 i

/-- `n` bytes have gone from `src` to `dst`, and nothing else has changed. -/
structure Moved (m : Ram) (dst src : Addr) (n : ℕ) (m' : Ram) : Prop where
  bytes : ∀ i, i < n → m' (nth dst i) = m (nth src i)
  others : ∀ a, (∀ i, i < n → a ≠ nth dst i) → m' a = m a

/-- What the user library needs: a source that starts below its destination and reaches into it consists of repetitions
of the bytes before the destination. A count that is negative as an `int` copies nothing. -/
structure Suits (m : Ram) (dst src n : Addr) : Prop where
  repeats : n.toNat < 2 ^ 31 → src < dst → dst < src + n →
    ∀ i, i < n.toNat → m (nth src i) = m (nth src (i % (dst.toNat - src.toNat)))
  equal : 2 ^ 31 ≤ n.toNat → ∀ i, i < n.toNat → m (nth dst i) = m (nth src i)

variable {m m₁ m₂ : Ram} {dst src p q n : Addr} {i j k : ℕ}

theorem nth_toNat (inside : p.toNat + i < 2 ^ 32) : (nth p i).toNat = p.toNat + i := by
  unfold nth
  rw [BitVec.toNat_add, BitVec.toNat_ofNat, Nat.mod_eq_of_lt (a := i) (by omega), Nat.mod_eq_of_lt inside]

theorem nth_inj (left : p.toNat + k ≤ 2 ^ 32) (right : q.toNat + k ≤ 2 ^ 32) (low : i < k) (high : j < k) :
    nth p i = nth q j ↔ p.toNat + i = q.toNat + j := by
  rw [← BitVec.toNat_inj, nth_toNat (by omega), nth_toNat (by omega)]

theorem nth_succ (p : Addr) (i : ℕ) : nth (p + 1) i = nth p (i + 1) := by
  unfold nth
  rw [BitVec.ofNat_add, BitVec.add_assoc, BitVec.add_comm 1]
  rfl

theorem nth_succ_sub (p : Addr) (i : ℕ) : nth p (i + 1) - 1 = nth p i := by
  unfold nth
  rw [BitVec.ofNat_add, ← BitVec.add_assoc]
  exact BitVec.add_sub_cancel ..

theorem nth_self (p n : Addr) : nth p n.toNat = p + n := by
  rw [nth, BitVec.ofNat_toNat, BitVec.setWidth_eq]

/-- The loop upwards takes the bytes in order, the loop downwards in reverse order. -/
theorem copyUp_eq (k : ℕ) (m : Ram) (p q : Addr) : copyUp k m p q = transfer (nth p) (nth q) (List.range k) m := by
  induction k generalizing m p q with
  | zero => rfl
  | succ k ih =>
    have zero : ∀ p : Addr, nth p 0 = p := fun p => BitVec.add_zero p
    have next : ∀ p : Addr, nth (p + 1) = fun i => nth p (i + 1) := fun p => funext (nth_succ p)
    rw [copyUp, ih, next p, next q, List.range_succ_eq_map, transfer, transfer_map, zero, zero]

theorem copyDown_eq (k : ℕ) (m : Ram) (p q : Addr) :
    copyDown k m (nth p k) (nth q k) = transfer (nth p) (nth q) (List.range k).reverse m := by
  induction k generalizing m with
  | zero => rfl
  | succ k ih =>
    rw [copyDown, nth_succ_sub, nth_succ_sub, ih, List.range_succ, List.reverse_append]
    rfl

theorem distinct (fits : dst.toNat + k ≤ 2 ^ 32) (less : i < j) (inside : j < k) : nth dst i ≠ nth dst j := by
  intro same
  have := (nth_inj fits fits (by omega) inside).mp same
  omega

/-- Upwards is right unless the destination lies above the source within it. -/
theorem copyUp_moved (dst_fits : dst.toNat + k ≤ 2 ^ 32) (src_fits : src.toNat + k ≤ 2 ^ 32)
    (apart : ¬ (src.toNat < dst.toNat ∧ dst.toNat < src.toNat + k)) : Moved m dst src k (copyUp k m dst src) := by
  rw [copyUp_eq]
  constructor
  · intro i inside
    apply transfer_ordered
    · apply List.Pairwise.imp_of_mem _ List.pairwise_lt_range
      intro i j _ high less
      exact distinct dst_fits less (List.mem_range.mp high)
    · apply List.Pairwise.imp_of_mem _ List.pairwise_lt_range
      intro i j low high less same
      have := List.mem_range.mp high
      have := (nth_inj src_fits dst_fits this (by omega)).mp same
      omega
    · exact List.mem_range.mpr inside
  · intro a outside
    apply transfer_apart
    exact fun i member => outside i (List.mem_range.mp member)

theorem copyDown_moved (dst_fits : dst.toNat + k ≤ 2 ^ 32) (src_fits : src.toNat + k ≤ 2 ^ 32)
    (above : src.toNat < dst.toNat) : Moved m dst src k (copyDown k m (nth dst k) (nth src k)) := by
  rw [copyDown_eq]
  have reversed : (List.range k).reverse.Pairwise fun i j => j < i := List.pairwise_reverse.mpr List.pairwise_lt_range
  have member_iff : ∀ i, i ∈ (List.range k).reverse ↔ i < k := fun i => by rw [List.mem_reverse, List.mem_range]
  constructor
  · intro i inside
    apply transfer_ordered
    · apply reversed.imp_of_mem
      intro i j low _ less
      exact (distinct dst_fits less ((member_iff i).mp low)).symm
    · apply reversed.imp_of_mem
      intro i j low high less same
      have := (nth_inj src_fits dst_fits ((member_iff j).mp high) ((member_iff i).mp low)).mp same
      omega
    · exact (member_iff i).mpr inside
  · intro a outside
    apply transfer_apart
    exact fun i member => outside i ((member_iff i).mp member)

theorem copyUp_repeats (dst_fits : dst.toNat + k ≤ 2 ^ 32) (src_fits : src.toNat + k ≤ 2 ^ 32) (above : src.toNat < dst.toNat)
    (inside : i < k) : copyUp k m dst src (nth dst i) = m (nth src (i % (dst.toNat - src.toNat))) := by
  rw [copyUp_eq]
  apply transfer_repeats (by omega)
  · intro i small
    rw [nth_inj src_fits dst_fits small (by omega)]
    omega
  · intro i j low high same
    by_cases here : i < k
    · have := (nth_inj src_fits dst_fits here high).mp same
      omega
    · -- a distance of `k` bytes or more
      have := congrArg BitVec.toNat same
      rw [nth_toNat (by omega), nth_toNat (by omega)] at this
      omega
  · exact fun i j less small => distinct dst_fits less small
  · exact inside

theorem Moved.unique (first : Moved m dst src k m₁) (second : Moved m dst src k m₂) : m₁ = m₂ := by
  funext a
  by_cases written : ∃ i, i < k ∧ a = nth dst i
  · obtain ⟨i, inside, rfl⟩ := written
    rw [first.bytes i inside, second.bytes i inside]
  · have outside : ∀ i, i < k → a ≠ nth dst i := fun i inside same => written ⟨i, inside, same⟩
    rw [first.others a outside, second.others a outside]

theorem end_toNat (fits : dst.toNat + n.toNat ≤ 2 ^ 32) (below : src < dst) : (src + n).toNat = src.toNat + n.toNat := by
  have below : src.toNat < dst.toNat := below
  rw [BitVec.toNat_add, Nat.mod_eq_of_lt (by omega)]

theorem kern_moved (dst_fits : dst.toNat + n.toNat ≤ 2 ^ 32) (src_fits : src.toNat + n.toNat ≤ 2 ^ 32) :
    Moved m dst src n.toNat (Kern.memmove m dst src n).2 := by
  unfold Kern.memmove
  by_cases inside : src < dst ∧ dst < src + n
  · rw [if_pos inside, ← nth_self dst, ← nth_self src]
    exact copyDown_moved dst_fits src_fits inside.1
  · rw [if_neg inside]
    apply copyUp_moved dst_fits src_fits
    intro ⟨below, reaches⟩
    apply inside
    have below : src < dst := below
    refine ⟨below, ?_⟩
    show dst.toNat < (src + n).toNat
    rwa [end_toNat dst_fits below]

theorem count_eq (n : Addr) : n.toInt.toNat = if n.toNat < 2 ^ 31 then n.toNat else 0 := by
  rw [BitVec.toInt_eq_toNat_cond]
  split <;> split <;> omega

theorem ulib_moved (dst_fits : dst.toNat + n.toNat ≤ 2 ^ 32) (src_fits : src.toNat + n.toNat ≤ 2 ^ 32) :
    Moved m dst src n.toNat (Ulib.memmove m dst src n).2 ↔ Suits m dst src n := by
  unfold Ulib.memmove
  dsimp only
  rw [count_eq]
  by_cases small : n.toNat < 2 ^ 31
  · rw [if_pos small]
    by_cases inside : src < dst ∧ dst < src + n
    · have result : ∀ i, i < n.toNat →
          copyUp n.toNat m dst src (nth dst i) = m (nth src (i % (dst.toNat - src.toNat))) :=
        fun i low => copyUp_repeats dst_fits src_fits inside.1 low
      constructor
      · intro moved
        refine ⟨fun _ _ _ i low => ?_, fun large => by omega⟩
        rw [← moved.bytes i low, result i low]
      · intro suits
        constructor
        · intro i low
          rw [result i low, ← suits.repeats small inside.1 inside.2 i low]
        · intro a outside
          rw [copyUp_eq]
          exact transfer_apart fun i member => outside i (List.mem_range.mp member)
    · constructor
      · exact fun _ => ⟨fun _ below reaches => absurd ⟨below, reaches⟩ inside, fun large => by omega⟩
      · intro _
        have kern := kern_moved (m := m) dst_fits src_fits
        unfold Kern.memmove at kern
        rwa [if_neg inside] at kern
  · rw [if_neg small]
    constructor
    · intro moved
      exact ⟨fun less => absurd less small, fun _ i low => moved.bytes i low⟩
    · intro suits
      exact ⟨suits.equal (by omega), fun _ _ => rfl⟩

/-- The kernel's `memmove` moves the bytes however the ranges overlap; that of the user library does so, and does the
same as the kernel's, for exactly the calls that suit it. -/
theorem memmove_overlap (m : Ram) (dst src n : Addr) (dst_fits : dst.toNat + n.toNat ≤ 2 ^ 32)
    (src_fits : src.toNat + n.toNat ≤ 2 ^ 32) :
    Moved m dst src n.toNat (Kern.memmove m dst src n).2 ∧
      (Moved m dst src n.toNat (Kern.memmove m dst src n).2 ∧ Moved m dst src n.toNat (Ulib.memmove m dst src n).2 ∧
        Ulib.memmove m dst src n = Kern.memmove m dst src n ↔ Suits m dst src n) := by
  have kern := kern_moved (m := m) dst_fits src_fits
  refine ⟨kern, ?_⟩
  constructor
  · exact fun ⟨_, ulib, _⟩ => (ulib_moved dst_fits src_fits).mp ulib
  · intro suits
    have ulib := (ulib_moved dst_fits src_fits).mpr suits
    refine ⟨kern, ulib, ?_⟩
    apply Prod.ext
    · unfold Ulib.memmove Kern.memmove
      split <;> rfl
    · exact ulib.unique kern

/-- Every byte of this memory is the last byte of its address. -/
def numbered : Ram := fun a => UInt8.ofNat a.toNat

theorem memmove_overlap_of_two : Moved numbered 0 1 2 (Kern.memmove numbered 0 1 2).2 ∧
    (Ulib.memmove numbered 0 1 2 = Kern.memmove numbered 0 1 2) := by
  obtain ⟨kern, suits⟩ := memmove_overlap numbered 0 1 2 (by decide) (by decide)
  refine ⟨kern, (suits.mpr ⟨fun _ below => ?_, fun large => ?_⟩).2.2⟩
  · exact absurd below (by decide)
  · exact absurd large (by decide)

/-- Two bytes go one byte up: the first one is there twice. -/
theorem memmove_overlap_spoilt : Moved numbered 1 0 2 (Kern.memmove numbered 1 0 2).2 ∧
    ¬ Moved numbered 1 0 2 (Ulib.memmove numbered 1 0 2).2 ∧ Ulib.memmove numbered 1 0 2 ≠ Kern.memmove numbered 1 0 2 := by
  have kern : Moved numbered 1 0 2 (Kern.memmove numbered 1 0 2).2 := kern_moved (n := 2) (by decide) (by decide)
  have spoilt : ¬ Moved numbered 1 0 2 (Ulib.memmove numbered 1 0 2).2 := by
    intro moved
    exact absurd (moved.bytes 1 (by decide)) (by decide)
  refine ⟨kern, spoilt, fun same => spoilt ?_⟩
  rwa [same]

end Xv6.Moves
