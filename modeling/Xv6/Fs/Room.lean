import Mathlib.Data.Finset.Prod
import Mathlib.Order.Interval.Finset.Nat
import Xv6.Fs.Bmap

namespace Xv6.Fs

open Function Allocation

variable {sb : Superblock} {d d' : Disk} {table table' : Nat → Dinode} {asked : Finset (Nat × Nat)} {i k : Nat}

def slots (sb : Superblock) : Finset (Nat × Nat) := Finset.range sb.ninodes ×ˢ Finset.range SLOTS

def dataBlocks (sb : Superblock) : Finset Nat := Finset.Ico sb.datastart sb.size

def freeBlocks (sb : Superblock) (d : Disk) : Finset Nat := (dataBlocks sb).filter fun b => sb.used d b = false

def emptySlots (sb : Superblock) (d : Disk) (table : Nat → Dinode) (asked : Finset (Nat × Nat)) : Finset (Nat × Nat) :=
  asked.filter fun x => refs sb d table x = none

def otherSlots (sb : Superblock) (d : Disk) (table : Nat → Dinode) (asked : Finset (Nat × Nat)) : Finset (Nat × Nat) :=
  (slots sb).filter fun x => x ∉ asked ∧ (refs sb d table x).isSome

def Room (sb : Superblock) (d : Disk) (table : Nat → Dinode) (asked : Finset (Nat × Nat)) : Prop :=
  (otherSlots sb d table asked).card + asked.card ≤ sb.nblocks

theorem mem_slots {x : Nat × Nat} (some : (refs sb d table x).isSome) : x ∈ slots sb := by
  obtain ⟨b, at_x⟩ := Option.isSome_iff_exists.mp some
  obtain ⟨i, k⟩ := x
  have inside := (refs_eq_some.mp at_x).1
  exact Finset.mk_mem_product (Finset.mem_range.mpr inside.1) (Finset.mem_range.mpr inside.2.2)

theorem card_dataBlocks : (dataBlocks sb).card = sb.nblocks := by
  have fits := sb.bitmap_fits
  have groups := Nat.zero_le (sb.size / BPB)
  rw [dataBlocks, Nat.card_Ico, Superblock.datastart]
  omega

namespace Room

theorem occupied (held : Blocks sb d table) :
    ((slots sb).filter fun x => (refs sb d table x).isSome).card = ((dataBlocks sb).filter fun b => ¬ sb.used d b = false).card := by
  apply held.exact.card_eq
  · intro x
    rw [Finset.mem_filter]
    exact ⟨And.right, fun some => ⟨mem_slots some, some⟩⟩
  · intro b
    rw [Finset.mem_filter, dataBlocks, Finset.mem_Ico, Bool.not_eq_false]
    exact Iff.rfl

/-- There is room for some slots when as many blocks are free as they lack, and only then. -/
theorem iff_free (held : Blocks sb d table) :
    Room sb d table asked ↔ (emptySlots sb d table asked).card ≤ (freeBlocks sb d).card := by
  have same := occupied held
  have blocks := Finset.card_filter_add_card_filter_not (s := dataBlocks sb) fun b => sb.used d b = false
  have mine := Finset.card_filter_add_card_filter_not (s := asked) fun x => refs sb d table x = none
  rw [card_dataBlocks] at blocks
  have apart : Disjoint (otherSlots sb d table asked) (asked.filter fun x => ¬ refs sb d table x = none) := by
    rw [Finset.disjoint_left]
    intro x member member'
    exact (Finset.mem_filter.mp member).2.1 (Finset.mem_filter.mp member').1
  have both : otherSlots sb d table asked ∪ asked.filter (fun x => ¬ refs sb d table x = none) =
      (slots sb).filter fun x => (refs sb d table x).isSome := by
    ext x
    simp only [otherSlots, Finset.mem_union, Finset.mem_filter, ← ne_eq, ← Option.isSome_iff_ne_none]
    constructor
    · intro either
      rcases either with h | h
      · exact ⟨h.1, h.2.2⟩
      · exact ⟨mem_slots h.2, h.2⟩
    · intro h
      by_cases member : x ∈ asked
      · exact .inr ⟨member, h.2⟩
      · exact .inl ⟨h.1, member, h.2⟩
  have total := congrArg Finset.card both
  rw [Finset.card_union_of_disjoint apart] at total
  unfold emptySlots freeBlocks
  unfold Room
  omega

theorem congr (same : ∀ x, x ∉ asked → refs sb d' table' x = refs sb d table x) :
    Room sb d' table' asked ↔ Room sb d table asked := by
  have eq : otherSlots sb d' table' asked = otherSlots sb d table asked := by
    apply Finset.filter_congr
    intro x _
    apply and_congr_right
    intro away
    rw [same x away]
  rw [Room, Room, eq]

theorem of_taken (held : Blocks sb d table) (taken : ∀ x ∈ asked, refs sb d table x ≠ none) : Room sb d table asked := by
  apply (iff_free held).mpr
  have none : emptySlots sb d table asked = ∅ := Finset.filter_eq_empty_iff.mpr fun x member => taken x member
  rw [none]
  exact Nat.zero_le _

theorem not_full {part : Finset Nat} (room : Room sb d table asked) (member : ∀ l ∈ part, (i, l) ∈ asked) :
    ¬ Full sb d table i part := by
  intro ⟨d', ip', held, same, ⟨k, here, empty⟩, used⟩
  have room' : Room sb d' (update table i ip') asked := by
    apply (congr fun x away => ?_).mpr room
    apply same x.1 x.2
    intro eq inside
    rw [show x = (i, x.2) from Prod.ext eq rfl] at away
    exact away (member x.2 inside)
  have full : (dataBlocks sb).filter (fun b => ¬ sb.used d' b = false) = dataBlocks sb := by
    apply Finset.filter_true_of_mem
    intro b inside
    rw [used b (Finset.mem_Ico.mp inside).2]
    decide
  have count := occupied held
  rw [full, card_dataBlocks] at count
  have here : (i, k) ∈ asked := member k here
  have cover := Finset.card_le_card (s := (slots sb).filter fun x => (refs sb d' (update table i ip') x).isSome)
    (t := otherSlots sb d' (update table i ip') asked ∪ asked.erase (i, k)) ?_
  · have total := Finset.card_union_le (otherSlots sb d' (update table i ip') asked) (asked.erase (i, k))
    have positive := Finset.card_pos.mpr ⟨_, here⟩
    rw [Finset.card_erase_of_mem here] at total
    unfold Room at room'
    omega
  · intro x inside
    obtain ⟨inside, some⟩ := Finset.mem_filter.mp inside
    rw [Finset.mem_union]
    by_cases mine : x ∈ asked
    · right
      apply Finset.mem_erase.mpr ⟨_, mine⟩
      intro eq
      subst eq
      obtain ⟨b, at_x⟩ := Option.isSome_iff_exists.mp some
      obtain ⟨-, eq, nonzero⟩ := refs_eq_some.mp at_x
      rw [update_self, empty] at eq
      exact nonzero eq.symm
    · exact .inl (Finset.mem_filter.mpr ⟨inside, mine, some⟩)

end Room

end Xv6.Fs
