import Mathlib.Data.Nat.ModEq
import Mathlib.Data.Fin.Basic
import Mathlib.Tactic.Common

namespace Ring

open Function

variable {α : Type} {size w : Nat} [NeZero size]

/-- The place in a ring of a free-running index of `w` bits. -/
def slot (size : Nat) [NeZero size] (i : BitVec w) : Fin size := Fin.ofNat size i.toNat

/-- From index `r` on the ring holds `l`. -/
structure Holds (data : Fin size → α) (r : BitVec w) (l : List α) : Prop where
  fits : l.length ≤ size
  cells : ∀ i (inside : i < l.length), data (slot size (r + BitVec.ofNat w i)) = l[i]

variable {data : Fin size → α} {r e : BitVec w} {l l' : List α} {c : α} {i j : Nat}

theorem slot_add (divides : size ∣ 2 ^ w) (r : BitVec w) (i : Nat) :
    (slot size (r + BitVec.ofNat w i)).val = (r.toNat + i) % size := by
  rw [slot, Fin.val_ofNat, BitVec.toNat_add, BitVec.toNat_ofNat, Nat.add_mod_mod, Nat.mod_mod_of_dvd _ divides]

theorem slot_inj (divides : size ∣ 2 ^ w) (low : i < size) (low' : j < size)
    (same : slot size (r + BitVec.ofNat w i) = slot size (r + BitVec.ofNat w j)) : i = j := by
  have values := congrArg Fin.val same
  rw [slot_add divides, slot_add divides] at values
  exact (Nat.ModEq.add_left_cancel' r.toNat values).eq_of_lt_of_lt low low'

namespace Holds

theorem nil : Holds data r [] := ⟨Nat.zero_le _, fun _ inside => absurd inside (Nat.not_lt_zero _)⟩

theorem push (held : Holds data r l) (divides : size ∣ 2 ^ w) (room : l.length < size) (end_eq : e = r + BitVec.ofNat w l.length)
    (c : α) : Holds (update data (slot size e) c) r (l ++ [c]) where
  fits := by
    rw [List.length_append]
    exact room
  cells i inside := by
    rw [List.length_append, List.length_singleton] at inside
    by_cases last : i = l.length
    · subst last
      rw [end_eq, update_self, List.getElem_concat_length rfl]
    · have low : i < l.length := by omega
      have apart : slot size (r + BitVec.ofNat w i) ≠ slot size e := by
        rw [end_eq]
        exact fun same => last (slot_inj divides (by omega) room same)
      rw [update_of_ne apart, List.getElem_append_left low]
      exact held.cells i low

theorem head (held : Holds data r (c :: l)) : data (slot size r) = c := by
  have first := held.cells 0 (Nat.zero_lt_succ _)
  rwa [BitVec.add_zero] at first

theorem pop (held : Holds data r (c :: l)) : Holds data (r + 1) l where
  fits := Nat.le_of_succ_le held.fits
  cells i inside := by
    have later := held.cells (i + 1) (Nat.succ_lt_succ inside)
    have same : r + BitVec.ofNat w (i + 1) = r + 1 + BitVec.ofNat w i := by
      rw [Nat.add_comm, BitVec.ofNat_add, BitVec.add_assoc]
      rfl
    rwa [same] at later

theorem front (held : Holds data r (l ++ l')) : Holds data r l where
  fits := by
    have fits := held.fits
    rw [List.length_append] at fits
    omega
  cells i inside := by
    have here := held.cells i (by rw [List.length_append]; omega)
    rwa [List.getElem_append_left inside] at here

theorem last (held : Holds data r (l ++ [c])) (end_eq : e = r + BitVec.ofNat w (l ++ [c]).length) :
    data (slot size (e - 1)) = c := by
  have here := held.cells l.length (by rw [List.length_append]; exact Nat.lt_succ_self _)
  have index : e - 1 = r + BitVec.ofNat w l.length := by
    rw [end_eq, List.length_append, BitVec.ofNat_add, ← BitVec.add_assoc]
    exact BitVec.add_sub_cancel ..
  rw [index, here, List.getElem_concat_length rfl]

theorem lt_turn (held : Holds data r l) (small : size < 2 ^ w) : l.length < 2 ^ w := Nat.lt_of_le_of_lt held.fits small

theorem distance (held : Holds data r l) (small : size < 2 ^ w) (end_eq : e = r + BitVec.ofNat w l.length) :
    (e - r).toNat = l.length := by
  rw [end_eq, BitVec.add_comm, BitVec.add_sub_cancel, BitVec.toNat_ofNat, Nat.mod_eq_of_lt (held.lt_turn small)]

theorem at_end (held : Holds data r l) (small : size < 2 ^ w) (end_eq : e = r + BitVec.ofNat w l.length) {k : Nat}
    (low : k ≤ size) : e = r + BitVec.ofNat w k ↔ l.length = k := by
  constructor
  · intro same
    have far := held.distance small end_eq
    rw [same, BitVec.add_comm, BitVec.add_sub_cancel, BitVec.toNat_ofNat, Nat.mod_eq_of_lt (by omega)] at far
    exact far.symm
  · intro same
    rw [end_eq, same]

theorem empty_iff (held : Holds data r l) (small : size < 2 ^ w) (end_eq : e = r + BitVec.ofNat w l.length) :
    r = e ↔ l = [] := by
  have zero := held.at_end small end_eq (Nat.zero_le size)
  rw [BitVec.add_zero] at zero
  rw [eq_comm, zero, List.length_eq_zero_iff]

end Holds

end Ring
