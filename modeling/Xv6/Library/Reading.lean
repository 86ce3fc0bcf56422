import Mathlib.Algebra.Ring.Nat
import Mathlib.Tactic.Common

namespace Reading

/-- An address space: the byte at each address that can be read. -/
abbrev Space := Nat → Option UInt8

variable {mem mem' : Space} {a n v fuel : Nat} {b : UInt8} {bytes xs ys : List UInt8} {words : List Nat}

/-- A little-endian number of `n` bytes. -/
def number (mem : Space) : Nat → Nat → Option Nat
  | 0, _ => some 0
  | n + 1, a => do
    let low ← mem a
    let high ← number mem n (a + 1)
    return low.toNat + 256 * high

/-- The bytes up to the NUL, if it is among the first `fuel` bytes. -/
def string (mem : Space) : Nat → Nat → Option (List UInt8)
  | 0, _ => none
  | fuel + 1, a => do
    let byte ← mem a
    if byte = 0 then return []
    else
      let rest ← string mem fuel (a + 1)
      return byte :: rest

/-- The words of four bytes up to the null word, if it is among the first `fuel` words. -/
def array (mem : Space) : Nat → Nat → Option (List Nat)
  | 0, _ => none
  | fuel + 1, a => do
    let word ← number mem 4 a
    if word = 0 then return []
    else
      let rest ← array mem fuel (a + 4)
      return word :: rest

def digits : Nat → Nat → List UInt8
  | 0, _ => []
  | n + 1, v => .ofNat v :: digits n (v / 256)

/-- The bytes lie in memory from address `a` on. -/
def Holds (mem : Space) (a : Nat) (bytes : List UInt8) : Prop :=
  ∀ i (inside : i < bytes.length), mem (a + i) = some bytes[i]

namespace Holds

theorem congr (holds : Holds mem a bytes) (same : ∀ i, a ≤ i → i < a + bytes.length → mem' i = mem i) :
    Holds mem' a bytes := by
  intro i inside
  rw [same _ (by omega) (by omega)]
  exact holds i inside

theorem append_iff : Holds mem a (xs ++ ys) ↔ Holds mem a xs ∧ Holds mem (a + xs.length) ys := by
  constructor
  · intro holds
    constructor
    · intro i inside
      have here := holds i (by rw [List.length_append]; omega)
      rwa [List.getElem_append_left inside] at here
    · intro i inside
      have here := holds (xs.length + i) (by rw [List.length_append]; omega)
      rw [List.getElem_append_right (by omega)] at here
      simp only [Nat.add_sub_cancel_left] at here
      rwa [Nat.add_assoc]
  · intro ⟨first, second⟩ i inside
    rw [List.length_append] at inside
    by_cases early : i < xs.length
    · rw [List.getElem_append_left early]
      exact first i early
    · rw [List.getElem_append_right (by omega)]
      have here := second (i - xs.length) (by omega)
      rwa [Nat.add_assoc, Nat.add_sub_cancel' (by omega)] at here

theorem cons_iff : Holds mem a (b :: bytes) ↔ mem a = some b ∧ Holds mem (a + 1) bytes := by
  have split : Holds mem a ([b] ++ bytes) ↔ Holds mem a [b] ∧ Holds mem (a + 1) bytes := append_iff
  rw [List.singleton_append] at split
  rw [split]
  apply and_congr_left
  intro _
  constructor
  · exact fun first => first 0 Nat.zero_lt_one
  · intro here i inside
    rw [List.length_singleton] at inside
    have zero : i = 0 := by omega
    subst zero
    exact here

end Holds

theorem number_digits (small : v < 256 ^ n) (holds : Holds mem a (digits n v)) : number mem n a = some v := by
  induction n generalizing a v with
  | zero =>
    have zero : v = 0 := by
      rw [Nat.pow_zero] at small
      omega
    rw [zero, number]
  | succ n ih =>
    have power : 256 ^ (n + 1) = 256 ^ n * 256 := Nat.pow_succ ..
    obtain ⟨low, high⟩ := Holds.cons_iff.mp holds
    have digit : (UInt8.ofNat v).toNat = v % 256 := UInt8.toNat_ofNat'
    rw [number, low, ih (by omega) high]
    show some ((UInt8.ofNat v).toNat + 256 * (v / 256)) = some v
    rw [digit, Nat.mod_add_div]

theorem string_bytes (nul : 0 ∉ bytes) (enough : bytes.length < fuel) (holds : Holds mem a (bytes ++ [0])) :
    string mem fuel a = some bytes := by
  induction bytes generalizing a fuel with
  | nil =>
    obtain ⟨fuel, rfl⟩ := Nat.exists_eq_succ_of_ne_zero (Nat.ne_of_gt enough)
    have here := (Holds.cons_iff.mp holds).1
    rw [string, here]
    rfl
  | cons b bytes ih =>
    obtain ⟨fuel, rfl⟩ := Nat.exists_eq_succ_of_ne_zero (Nat.ne_zero_of_lt enough)
    rw [List.mem_cons, not_or] at nul
    rw [List.length_cons] at enough
    obtain ⟨here, rest⟩ := Holds.cons_iff.mp holds
    rw [string, here]
    show (if b = 0 then _ else _) = _
    rw [if_neg (Ne.symm nul.1), ih nul.2 (by omega) rest]
    rfl

theorem array_words (range : ∀ w ∈ words, 0 < w ∧ w < 2 ^ 32) (enough : words.length < fuel)
    (holds : Holds mem a ((words ++ [0]).flatMap (digits 4))) : array mem fuel a = some words := by
  induction words generalizing a fuel with
  | nil =>
    obtain ⟨fuel, rfl⟩ := Nat.exists_eq_succ_of_ne_zero (Nat.ne_of_gt enough)
    rw [List.nil_append, List.flatMap_singleton] at holds
    rw [array, number_digits (by decide) holds]
    rfl
  | cons w words ih =>
    obtain ⟨fuel, rfl⟩ := Nat.exists_eq_succ_of_ne_zero (Nat.ne_zero_of_lt enough)
    rw [List.length_cons] at enough
    rw [List.cons_append, List.flatMap_cons] at holds
    obtain ⟨first, rest⟩ := Holds.append_iff.mp holds
    change Holds mem (a + 4) _ at rest
    have here := range w List.mem_cons_self
    rw [array, number_digits (by omega) first]
    show (if w = 0 then _ else _) = _
    rw [if_neg (by omega), ih (fun w member => range w (List.mem_cons_of_mem _ member)) (by omega) rest]
    rfl

end Reading
