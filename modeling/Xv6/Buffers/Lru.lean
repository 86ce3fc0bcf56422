import Xv6.Buffers.Machine
import Xv6.Library.Links
import Mathlib.Data.Fintype.Card

namespace Xv6.Buffers

open Function Links

variable {lru : Lru} {b : Index} {l l₁ l₂ : List Index} {test : Index → Bool} {links : Link → Link} {a : Link} {fuel : Nat}

/-- The buffers of `l` in a doubly linked ring through `head`, the most recently used first. -/
def Lru.Ring (lru : Lru) (l : List Index) : Prop := Doubly lru.next lru.prev none (l.map some)

theorem scan_segment (segment : Segment links a (l.map some) none) (enough : l.length ≤ fuel) :
    scan links test fuel a = some (l.find? test) := by
  induction l generalizing a fuel with
  | nil =>
    rw [show a = none from segment]
    unfold scan
    rfl
  | cons b l ih =>
    obtain ⟨rfl, rest⟩ := segment
    cases fuel with
    | zero => exact absurd enough (Nat.not_succ_le_zero _)
    | succ fuel =>
      unfold scan
      rw [List.find?_cons]
      by_cases passed : test b = true
      · rw [if_pos passed, passed]
      · rw [if_neg passed, ih rest (Nat.le_of_succ_le_succ enough), eq_false_of_ne_true passed]

namespace Lru.Ring

theorem nodup (ring : lru.Ring l) : l.Nodup := List.Nodup.of_map some (List.nodup_cons.mp ring.once).2

theorem length_le (ring : lru.Ring l) : l.length ≤ NBUF := by
  have bound := List.Nodup.length_le_card ring.nodup
  rwa [Fintype.card_fin] at bound

theorem scan_next (ring : lru.Ring l) : scan lru.next test NBUF (lru.next none) = some (l.find? test) :=
  scan_segment ring.walk ring.length_le

theorem scan_prev (ring : lru.Ring l) : scan lru.prev test NBUF (lru.prev none) = some (l.reverse.find? test) := by
  apply scan_segment
  · rw [List.map_reverse]
    exact ring.reverse.walk
  · rw [List.length_reverse]
    exact ring.length_le

theorem insert (ring : lru.Ring l) (outside : b ∉ l) : (lru.insert b).Ring (b :: l) := by
  have outside' : some b ∉ none :: l.map some := by simpa using outside
  have pushed := ring.push outside'
  have first : update lru.next (some b) (lru.next none) none = lru.next none := update_of_ne (Option.some_ne_none b).symm ..
  unfold Ring Lru.insert
  dsimp only
  rw [first]
  exact pushed

theorem unlink (ring : lru.Ring (l₁ ++ b :: l₂)) : (lru.unlink b).Ring (l₁ ++ l₂) := by
  unfold Ring at ring
  rw [List.map_append, List.map_cons] at ring
  have unlinked := ring.unlink
  have before : update lru.prev (lru.next (some b)) (lru.prev (some b)) (some b) = lru.prev (some b) :=
    update_of_ne ring.next_ne.symm ..
  unfold Ring Lru.unlink
  dsimp only
  rw [before, List.map_append]
  exact unlinked

theorem empty : (⟨fun _ => none, fun _ => none⟩ : Lru).Ring [] := ⟨⟨rfl, rfl⟩, ⟨rfl, rfl⟩, List.nodup_singleton none⟩

theorem foldl_insert (ring : lru.Ring l) (fresh : (l₁.reverse ++ l).Nodup) : (l₁.foldl Lru.insert lru).Ring (l₁.reverse ++ l) := by
  induction l₁ generalizing lru l with
  | nil => exact ring
  | cons b l₁ ih =>
    rw [List.reverse_cons, List.append_assoc, List.singleton_append] at fresh ⊢
    have outside : b ∉ l := (List.nodup_cons.mp (List.nodup_append.mp fresh).2.1).1
    exact ih (ring.insert outside) fresh

theorem init : Lru.init.Ring (List.finRange NBUF).reverse := by
  have fresh : ((List.finRange NBUF).reverse ++ []).Nodup := by
    rw [List.append_nil]
    exact List.nodup_reverse.mpr (List.nodup_finRange NBUF)
  have ring := empty.foldl_insert fresh
  rwa [List.append_nil] at ring

end Lru.Ring

end Xv6.Buffers
