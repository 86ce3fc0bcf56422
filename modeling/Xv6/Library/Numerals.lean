import Mathlib.Data.Nat.Digits.Lemmas

namespace Numerals

variable {α : Type} {digit : Nat → α} {base n fuel : Nat}

/-- The numeral of a number: its digits without leading zeros, the highest first. -/
def numeral (digit : Nat → α) (base n : Nat) : List α :=
  if n = 0 then [digit 0] else (base.digits n).reverse.map digit

/-- The loop that divides until nothing is left gives the digits, the lowest first. -/
def divideLoop (digit : Nat → α) (base : Nat) : Nat → Nat → List α
  | 0, _ => []
  | fuel + 1, x => digit (x % base) :: if x / base ≠ 0 then divideLoop digit base fuel (x / base) else []

theorem divideLoop_of_pos (large : 1 < base) (positive : 0 < n) (enough : n < base ^ fuel) :
    divideLoop digit base fuel n = (base.digits n).map digit := by
  induction fuel generalizing n with
  | zero =>
    rw [pow_zero] at enough
    omega
  | succ fuel ih =>
    have smaller : n / base < base ^ fuel := by
      rw [Nat.div_lt_iff_lt_mul (by omega), ← pow_succ]
      exact enough
    rw [divideLoop, Nat.digits_def' large positive, List.map_cons]
    by_cases more : n / base = 0
    · rw [if_neg (not_not.mpr more), more, Nat.digits_zero, List.map_nil]
    · rw [if_pos more, ih (Nat.pos_of_ne_zero more) smaller]

theorem divideLoop_numeral (large : 1 < base) (some_fuel : fuel ≠ 0) (enough : n < base ^ fuel) :
    (divideLoop digit base fuel n).reverse = numeral digit base n := by
  by_cases zero : n = 0
  · subst zero
    cases fuel with
    | zero => exact absurd rfl some_fuel
    | succ fuel =>
      rw [divideLoop, Nat.zero_div, if_neg (not_not.mpr rfl), Nat.zero_mod]
      rfl
  · rw [divideLoop_of_pos large (Nat.pos_of_ne_zero zero) enough, numeral, if_neg zero, List.map_reverse]

theorem numeral_eq_map (digit : Nat → α) (large : 1 < base) (n : Nat) :
    ∃ ds : List Nat, numeral digit base n = ds.map digit ∧ (∀ d ∈ ds, d < base) ∧ Nat.ofDigits base ds.reverse = n := by
  by_cases zero : n = 0
  · refine ⟨[0], ?_, ?_, ?_⟩
    · rw [numeral, if_pos zero]
      rfl
    · intro d member
      rw [List.mem_singleton.mp member]
      omega
    · rw [zero]
      rfl
  · refine ⟨(base.digits n).reverse, ?_, ?_, ?_⟩
    · rw [numeral, if_neg zero]
    · intro d member
      exact Nat.digits_lt_base large (List.mem_reverse.mp member)
    · rw [List.reverse_reverse, Nat.ofDigits_digits]

theorem numeral_length (large : 1 < base) (some_fuel : fuel ≠ 0) (bound : n < base ^ fuel) :
    (numeral digit base n).length ≤ fuel := by
  rw [numeral]
  split
  · exact Nat.one_le_iff_ne_zero.mpr some_fuel
  · rw [List.length_map, List.length_reverse, Nat.digits_length_le_iff large]
    exact bound

theorem foldl_digits (base v : Nat) (ds : List Nat) :
    ds.foldl (fun v d => v * base + d) v = v * base ^ ds.length + Nat.ofDigits base ds.reverse := by
  induction ds generalizing v with
  | nil => rw [List.foldl_nil, List.length_nil, pow_zero, mul_one, List.reverse_nil, Nat.ofDigits_nil, add_zero]
  | cons d ds ih =>
    rw [List.foldl_cons, ih, List.reverse_cons, Nat.ofDigits_append, List.length_reverse, Nat.ofDigits_singleton,
      List.length_cons, pow_succ']
    ring

end Numerals
