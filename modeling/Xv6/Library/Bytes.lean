import Mathlib.Algebra.Group.Nat.Defs
import Mathlib.Tactic.Common

namespace Bytes

open Function

variable {d d' : Nat → UInt8} {n k off at' v : Nat}

/-- A little-endian number of `n` bytes. -/
def load : Nat → (Nat → UInt8) → Nat → Nat
  | 0, _, _ => 0
  | n + 1, d, off => (d off).toNat + 256 * load n d (off + 1)

def store : Nat → (Nat → UInt8) → Nat → Nat → Nat → UInt8
  | 0, d, _, _ => d
  | n + 1, d, off, v => store n (update d off (UInt8.ofNat v)) (off + 1) (v / 256)

/-- `memmove` of `n` bytes. -/
def copy (n : Nat) (d : Nat → UInt8) (off : Nat) (src : Nat → UInt8) : Nat → UInt8 :=
  fun i => if off ≤ i ∧ i < off + n then src (i - off) else d i

theorem load_congr (same : ∀ i, off ≤ i → i < off + n → d i = d' i) : load n d off = load n d' off := by
  induction n generalizing off with
  | zero => rfl
  | succ n ih =>
    rw [load, load, same off (by omega) (by omega), ih fun i low high => same i (by omega) (by omega)]

theorem store_of_apart {i : Nat} (apart : i < off ∨ off + n ≤ i) : store n d off v i = d i := by
  induction n generalizing d off v with
  | zero => rfl
  | succ n ih =>
    rw [store, ih (by omega), update_of_ne (by omega)]

theorem load_store_of_apart (apart : at' + k ≤ off ∨ off + n ≤ at') : load k (store n d off v) at' = load k d at' :=
  load_congr fun i low high => store_of_apart (by omega)

theorem load_store (n : Nat) (d : Nat → UInt8) (off v : Nat) : load n (store n d off v) off = v % 256 ^ n := by
  induction n generalizing d off v with
  | zero => simp [load, Nat.mod_one]
  | succ n ih =>
    have first : (UInt8.ofNat v).toNat = v % 256 := UInt8.toNat_ofNat'
    have power : 256 ^ (n + 1) = 256 * 256 ^ n := by rw [Nat.pow_succ, Nat.mul_comm]
    rw [load, store, store_of_apart (.inl (by omega)), update_self, ih, first, power, Nat.mod_mul]

theorem load_store_of_lt (fits : v < 256 ^ n) : load n (store n d off v) off = v := by
  rw [load_store, Nat.mod_eq_of_lt fits]

theorem copy_of_apart {src : Nat → UInt8} {i : Nat} (apart : i < off ∨ off + n ≤ i) : copy n d off src i = d i := by
  rw [copy, if_neg (by omega)]

theorem copy_of_mem {src : Nat → UInt8} {i : Nat} (low : off ≤ i) (high : i < off + n) :
    copy n d off src i = src (i - off) := by
  rw [copy, if_pos ⟨low, high⟩]

theorem load_zero : load n (fun _ => 0) off = 0 := by
  induction n generalizing off with
  | zero => rfl
  | succ n ih => rw [load, ih]; rfl

def storeWords (count : Nat) (d : Nat → UInt8) (off : Nat) (v : Nat → Nat) : Nat → UInt8 :=
  (List.range count).foldl (fun d i => store 4 d (off + 4 * i) (v i)) d

theorem storeWords_succ (count : Nat) (d : Nat → UInt8) (off : Nat) (v : Nat → Nat) :
    storeWords (count + 1) d off v = store 4 (storeWords count d off v) (off + 4 * count) (v count) := by
  rw [storeWords, List.range_succ, List.foldl_append]
  rfl

theorem load_storeWords_of_apart {count : Nat} {v : Nat → Nat} (apart : at' + k ≤ off ∨ off + 4 * count ≤ at') :
    load k (storeWords count d off v) at' = load k d at' := by
  induction count with
  | zero => rfl
  | succ count ih => rw [storeWords_succ, load_store_of_apart (by omega), ih (by omega)]

theorem load_storeWords {count i : Nat} {v : Nat → Nat} (inside : i < count) (fits : v i < 256 ^ 4) :
    load 4 (storeWords count d off v) (off + 4 * i) = v i := by
  induction count with
  | zero => omega
  | succ count ih =>
    rw [storeWords_succ]
    by_cases last : i = count
    · subst last
      exact load_store_of_lt fits
    · rw [load_store_of_apart (by omega)]
      exact ih (by omega)

def mask (k : Nat) : UInt8 := UInt8.ofBitVec (BitVec.twoPow 8 k)

theorem and_mask {x : UInt8} {k : Nat} (small : k < 8) : x &&& mask k = 0 ↔ x.toBitVec.getLsbD k = false := by
  have zero : x &&& mask k = 0 ↔ x.toBitVec &&& BitVec.twoPow 8 k = 0 := by
    rw [← UInt8.toBitVec_inj]
    exact Iff.rfl
  rw [zero, BitVec.and_twoPow]
  cases set : x.toBitVec.getLsbD k with
  | false => simp
  | true =>
    simp only [if_true, Bool.true_eq_false, iff_false]
    intro eq
    have bit := congrArg (fun v => BitVec.getLsbD v k) eq
    simp [small] at bit

/-- Bit `i` of an array of bytes. -/
def testBit (d : Nat → UInt8) (i : Nat) : Bool := d (i / 8) &&& mask (i % 8) ≠ 0

def setBit (d : Nat → UInt8) (i : Nat) : Nat → UInt8 := update d (i / 8) (d (i / 8) ||| mask (i % 8))

def clearBit (d : Nat → UInt8) (i : Nat) : Nat → UInt8 := update d (i / 8) (d (i / 8) &&& ~~~mask (i % 8))

theorem testBit_eq (d : Nat → UInt8) (i : Nat) : testBit d i = (d (i / 8)).toBitVec.getLsbD (i % 8) := by
  have iff := and_mask (x := d (i / 8)) (Nat.mod_lt i (by decide : 0 < 8))
  unfold testBit
  cases bit : (d (i / 8)).toBitVec.getLsbD (i % 8) <;> simp [iff, bit]

theorem testBit_setBit (d : Nat → UInt8) (i j : Nat) : testBit (setBit d i) j = (decide (j = i) || testBit d j) := by
  rw [testBit_eq, testBit_eq, setBit]
  by_cases byte : j / 8 = i / 8
  · rw [byte, update_self]
    have bit : (mask (i % 8)).toBitVec.getLsbD (j % 8) = decide (j = i) := by
      show (BitVec.twoPow 8 (i % 8)).getLsbD (j % 8) = _
      rw [BitVec.getLsbD_twoPow]
      by_cases eq : j = i
      · subst eq
        simp [Nat.mod_lt]
      · have ne : i % 8 ≠ j % 8 := by omega
        simp [eq, ne]
    rw [UInt8.toBitVec_or, BitVec.getLsbD_or, bit, Bool.or_comm]
  · have ne : j ≠ i := fun eq => byte (by rw [eq])
    rw [update_of_ne byte]
    simp [ne]

theorem testBit_clearBit (d : Nat → UInt8) (i j : Nat) : testBit (clearBit d i) j = (decide (j ≠ i) && testBit d j) := by
  rw [testBit_eq, testBit_eq, clearBit]
  by_cases byte : j / 8 = i / 8
  · rw [byte, update_self]
    have bit : (~~~mask (i % 8)).toBitVec.getLsbD (j % 8) = decide (j ≠ i) := by
      rw [UInt8.toBitVec_not]
      show (~~~BitVec.twoPow 8 (i % 8)).getLsbD (j % 8) = _
      rw [BitVec.getLsbD_not, BitVec.getLsbD_twoPow]
      have low : j % 8 < 8 := Nat.mod_lt _ (by decide)
      by_cases eq : j = i
      · subst eq
        simp [low]
      · have ne : i % 8 ≠ j % 8 := by omega
        simp [eq, ne, low]
    rw [UInt8.toBitVec_and, BitVec.getLsbD_and, bit, Bool.and_comm]
  · have ne : j ≠ i := fun eq => byte (by rw [eq])
    rw [update_of_ne byte]
    simp [ne]

end Bytes
