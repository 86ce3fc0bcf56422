import Mathlib.Algebra.Ring.Nat
import Mathlib.Data.List.GetD
import Xv6.Memory.Steps

namespace Xv6

open CommandProgram Function

variable {va n j : Nat} {x : PgDir} {bytes : List UInt8} {ram ram' ram'' : Nat → Page}

/-- The page is present, and user code may read it. -/
def PgDir.User (x : PgDir) (v : Nat) : Prop := (x.pte v).p = true ∧ (x.pte v).u = true

instance (x : PgDir) (v : Nat) : Decidable (x.User v) := inferInstanceAs (Decidable (_ ∧ _))

/-- The page of byte `j` from address `va` on, and its place there. Addresses have 32 bits. -/
def bytePage (va j : Nat) : Nat := pageOf ((va + j) % 2 ^ 32)
def byteOff (va j : Nat) : Nat := (va + j) % pgSize

theorem bytePage_here (small : va < 2 ^ 32) (inside : va % pgSize + j < pgSize) : bytePage va j = pageOf va := by
  unfold bytePage pageOf pgSize at *
  omega

theorem byteOff_here (inside : va % pgSize + j < pgSize) : byteOff va j = va % pgSize + j := by
  unfold byteOff pgSize at *
  omega

theorem bytePage_next (last : va % pgSize + n = pgSize) :
    bytePage ((pageOf va + 1) * pgSize % 2 ^ 32) j = bytePage va (n + j) := by
  unfold bytePage pageOf pgSize at *
  omega

theorem byteOff_next (last : va % pgSize + n = pgSize) :
    byteOff ((pageOf va + 1) * pgSize % 2 ^ 32) j = byteOff va (n + j) := by
  unfold byteOff pageOf pgSize at *
  omega

/-- User pages lie in the user half, each in a frame of its own. -/
structure PgDir.Plain (x : PgDir) : Prop where
  user : ∀ v, x.User v → v < userPages
  apart : ∀ v w, x.User v → x.User w → (x.pte v).addr = (x.pte w).addr → v = w

theorem PgDir.Plain.no_wrap (plain : x.Plain) (small : va < 2 ^ 32) (all : ∀ j, j < n → x.User (bytePage va j)) :
    n = 0 ∨ va + n ≤ userPages * pgSize := by
  by_contra outside
  rw [not_or] at outside
  by_cases start : userPages * pgSize ≤ va
  · have page := plain.user _ (all 0 (by omega))
    rw [userPages_eq] at page start
    unfold bytePage pageOf pgSize at *
    omega
  · have page := plain.user _ (all (userPages * pgSize - va) (by omega))
    rw [userPages_eq] at page outside start
    unfold bytePage pageOf pgSize at *
    omega

/-- The bytes from `va` on become `bytes`, and no others change. -/
structure Stored (x : PgDir) (va : Nat) (bytes : List UInt8) (ram ram' : Nat → Page) : Prop where
  there : ∀ j (inside : j < bytes.length), ram' (x.pte (bytePage va j)).addr (byteOff va j) = bytes[j]
  elsewhere : ∀ f i, (∀ j, j < bytes.length → ¬ (f = (x.pte (bytePage va j)).addr ∧ i = byteOff va j)) → ram' f i = ram f i

namespace Stored

theorem nil : Stored x va [] ram ram := ⟨fun _ inside => absurd inside (Nat.not_lt_zero _), fun _ _ _ => rfl⟩

theorem of_store (small : va < 2 ^ 32) (fits : va % pgSize + bytes.length ≤ pgSize) :
    Stored x va bytes ram
      (update ram (x.pte (pageOf va)).addr ((ram (x.pte (pageOf va)).addr).store (va % pgSize) bytes)) where
  there j inside := by
    rw [bytePage_here small (by omega), byteOff_here (by omega), update_self, Page.store, if_pos (by omega),
      Nat.add_sub_cancel_left, List.getD_eq_getElem _ _ inside]
  elsewhere f i away := by
    by_cases here : f = (x.pte (pageOf va)).addr
    · subst here
      rw [update_self, Page.store, if_neg]
      intro range
      apply away (i - va % pgSize) (by omega)
      rw [bytePage_here small (by omega), byteOff_here (by omega)]
      exact ⟨rfl, by omega⟩
    · rw [update_of_ne here]

theorem append (first rest : List UInt8) (plain : x.Plain) (small : va < 2 ^ 32) (fits : va % pgSize + first.length = pgSize)
    (all : ∀ j, j < (first ++ rest).length → x.User (bytePage va j)) (stored : Stored x va first ram ram')
    (stored' : Stored x ((pageOf va + 1) * pgSize % 2 ^ 32) rest ram' ram'') : Stored x va (first ++ rest) ram ram'' := by
  rw [List.length_append] at all
  have wraps := plain.no_wrap small all
  constructor
  · intro j inside
    rw [List.length_append] at inside
    by_cases early : j < first.length
    · rw [List.getElem_append_left early, ← stored.there j early]
      apply stored'.elsewhere
      intro l low ⟨frame, offset⟩
      rw [bytePage_next fits] at frame
      have page := plain.apart _ _ (all j inside) (all _ (by omega)) frame
      rw [userPages_eq] at wraps
      unfold bytePage pageOf pgSize at *
      omega
    · rw [List.getElem_append_right (by omega)]
      have there := stored'.there (j - first.length) (by omega)
      rwa [bytePage_next fits, byteOff_next fits, Nat.add_sub_cancel' (by omega)] at there
  · intro f i away
    rw [List.length_append] at away
    rw [stored'.elsewhere f i, stored.elsewhere f i]
    · exact fun j low => away j (by omega)
    · intro j low
      rw [bytePage_next fits, byteOff_next fits]
      exact away _ (by omega)

end Stored

/-- The bytes before byte `j` lie in user pages. -/
def ReachesUser (x : PgDir) (va j : Nat) : Prop := ∀ i, i < j → x.User (bytePage va i)

theorem ReachesUser.next (small : va < 2 ^ 32) (user : x.User (pageOf va)) (last : va % pgSize + n = pgSize)
    (rest : ReachesUser x ((pageOf va + 1) * pgSize % 2 ^ 32) j) : ReachesUser x va (n + j) := by
  intro i low
  by_cases early : i < n
  · rwa [bytePage_here small (by omega)]
  · have later := rest (i - n) (by omega)
    rwa [bytePage_next last, Nat.add_sub_cancel' (by omega)] at later

/-- The loop of `copyout` comes to a page for which the directory has no entry. -/
def ReachesHole (x : PgDir) (va n : Nat) : Prop :=
  ∃ j, j < n ∧ ReachesUser x va j ∧ ¬ x.Has (bytePage va j)

/-- It comes to a page that is there, but not for user code. -/
def ReachesOther (x : PgDir) (va n : Nat) : Prop :=
  ∃ j, j < n ∧ ReachesUser x va j ∧ ¬ x.User (bytePage va j) ∧ x.Has (bytePage va j)

def Confined (x : PgDir) (ram ram' : Nat → Page) : Prop :=
  ∀ f, (∀ v, x.User v → (x.pte v).addr ≠ f) → ram' f = ram f

section Run

variable {κ : Kernel} {s : Shared} {p : Proc} {d k : Nat}

theorem copyout_nil (k va : Nat) : copyout d k va [] = pure true := by
  cases k with
  | zero => exact if_pos rfl
  | succ k => exact if_pos rfl

theorem copyout_run (s : Shared) (va : Nat) (bytes : List UInt8) (plain : (p.dir d).Plain) (small : va < 2 ^ 32)
    (fuel : bytes = [] ∨ va % pgSize + bytes.length ≤ k * pgSize) :
    ∃ ram', Confined (p.dir d) s.ram ram' ∧
      (Program.run (execute κ) (copyout d k va bytes) (s, p) = (.ok true, ({ s with ram := ram' }, p)) ∧
          ReachesUser (p.dir d) va bytes.length ∧ Stored (p.dir d) va bytes s.ram ram' ∨
        Program.run (execute κ) (copyout d k va bytes) (s, p) = (.ok false, ({ s with ram := ram' }, p)) ∧
          ReachesOther (p.dir d) va bytes.length ∨
        Program.run (execute κ) (copyout d k va bytes) (s, p) = (.error .nullDeref, ({ s with ram := ram' }, p)) ∧
          ReachesHole (p.dir d) va bytes.length) := by
  have nothing : Confined (p.dir d) s.ram s.ram := fun _ _ => rfl
  induction k generalizing va bytes s with
  | zero =>
    have empty : bytes = [] := fuel.elim id fun none => List.length_eq_zero_iff.mp (by omega)
    subst empty
    exact ⟨s.ram, nothing, .inl ⟨rfl, fun _ low => absurd low (Nat.not_lt_zero _), .nil⟩⟩
  | succ k ih =>
    by_cases empty : bytes = []
    · subst empty
      exact ⟨s.ram, nothing, .inl ⟨by rw [copyout, if_pos rfl]; rfl, fun _ low => absurd low (Nat.not_lt_zero _), .nil⟩⟩
    · have fuel := fuel.resolve_left empty
      have some : 0 < bytes.length := List.length_pos_iff.mpr empty
      have offset : va % pgSize < pgSize := Nat.mod_lt _ (by decide)
      have page : pageOf (pageOf va * pgSize) = pageOf va := Nat.mul_div_cancel _ (by decide)
      have first : bytePage va 0 = pageOf va := bytePage_here small (by omega)
      rw [copyout, if_neg empty]
      unfold uva2ka
      simp only [bind_assoc]
      rw [run_walk, page]
      by_cases has : (p.dir d).Has (pageOf va)
      · rw [if_pos has]
        dsimp only
        simp only [bind_assoc]
        rw [run_pte]
        by_cases user : (p.dir d).User (pageOf va)
        · rw [if_pos (by simpa [PgDir.User] using user), pure_bind]
          dsimp only
          rw [run_store]
          have here : Confined (p.dir d) s.ram (update s.ram ((p.dir d).pte (pageOf va)).addr
              ((s.ram ((p.dir d).pte (pageOf va)).addr).store (va % pgSize)
                (bytes.take (min (pgSize - va % pgSize) bytes.length)))) :=
            fun f away => update_of_ne (away _ user).symm ..
          by_cases last : bytes.length ≤ pgSize - va % pgSize
          · rw [Nat.min_eq_right last, List.take_length, List.drop_length, copyout_nil] at *
            refine ⟨_, here, .inl ⟨rfl, ?_, .of_store small (by omega)⟩⟩
            intro j low
            rwa [bytePage_here small (by omega)]
          · rw [Nat.min_eq_left (by omega)] at *
            obtain ⟨n, eq⟩ : ∃ n, n = pgSize - va % pgSize := ⟨_, rfl⟩
            rw [← eq] at here ⊢
            have whole : va % pgSize + n = pgSize := by omega
            have taken : (bytes.take n).length = n := List.length_take_of_le (by omega)
            have dropped : (bytes.drop n).length = bytes.length - n := List.length_drop
            obtain ⟨ram', later, outcome⟩ := ih
              (s.setPage ((p.dir d).pte (pageOf va)).addr
                ((s.ram ((p.dir d).pte (pageOf va)).addr).store (va % pgSize) (bytes.take n)))
              ((pageOf va + 1) * pgSize % 2 ^ 32) (bytes.drop n) (Nat.mod_lt _ (by decide)) (.inr (by unfold pgSize at *; omega)) (fun _ _ => rfl)
            refine ⟨ram', fun f away => (later f away).trans (here f away), ?_⟩
            rcases outcome with ⟨ran, reached, stored⟩ | ⟨ran, j, low, reached, other, has'⟩ | ⟨ran, j, low, reached, hole⟩
            · have all := reached.next small user whole
              rw [dropped, Nat.add_sub_cancel' (by omega)] at all
              refine .inl ⟨ran, all, ?_⟩
              have both := Stored.append (bytes.take n) (bytes.drop n) plain small (by omega)
                (by rwa [List.take_append_drop]) (.of_store small (by omega)) stored
              rwa [List.take_append_drop] at both
            · refine .inr (.inl ⟨ran, n + j, by omega, reached.next small user whole, ?_, ?_⟩)
              · rwa [← bytePage_next whole]
              · rwa [← bytePage_next whole]
            · refine .inr (.inr ⟨ran, n + j, by omega, reached.next small user whole, ?_⟩)
              rwa [← bytePage_next whole]
        · rw [if_neg (by simpa [PgDir.User] using user), pure_bind]
          refine ⟨s.ram, nothing, .inr (.inl ⟨rfl, 0, some, fun _ low => absurd low (Nat.not_lt_zero _), ?_, ?_⟩)⟩
          · rwa [first]
          · rwa [first]
      · rw [if_neg has]
        refine ⟨s.ram, nothing, .inr (.inr ⟨rfl, 0, some, fun _ low => absurd low (Nat.not_lt_zero _), ?_⟩)⟩
        rwa [first]

/-- The range lies in user pages, without wrapping around. -/
def InUser (x : PgDir) (va n : Nat) : Prop := va + n ≤ 2 ^ 32 ∧ ∀ j, j < n → x.User (pageOf (va + j))

/-- What is expected of `copyout`: it returns, stores the bytes where all the range is for user code, and elsewhere
    stores nothing but in user pages. -/
def CopiesSafely (κ : Kernel) (d k va : Nat) (bytes : List UInt8) (s : Shared) (p : Proc) : Prop :=
  ∃ answer ram', Program.run (execute κ) (copyout d k va bytes) (s, p) = (.ok answer, ({ s with ram := ram' }, p)) ∧
    (answer = true ↔ InUser (p.dir d) va bytes.length) ∧ (answer = true → Stored (p.dir d) va bytes s.ram ram') ∧
    Confined (p.dir d) s.ram ram'

theorem inUser_iff (plain : x.Plain) (small : va < 2 ^ 32) : InUser x va n ↔ ReachesUser x va n := by
  have inside : ∀ j, j < n → va + n ≤ 2 ^ 32 → bytePage va j = pageOf (va + j) := by
    intro j low room
    unfold bytePage
    rw [Nat.mod_eq_of_lt (by omega)]
  constructor
  · intro ⟨room, all⟩ j low
    rw [inside j low room]
    exact all j low
  · intro all
    have room : va + n ≤ 2 ^ 32 := by
      rcases plain.no_wrap small all with none | room
      · omega
      · exact Nat.le_trans room (by decide)
    refine ⟨room, fun j low => ?_⟩
    rw [← inside j low room]
    exact all j low

theorem ReachesHole.not_other (hole : ReachesHole x va n) : ¬ ReachesUser x va n ∧ ¬ ReachesOther x va n := by
  obtain ⟨j, low, reached, missing⟩ := hole
  constructor
  · exact fun all => missing (PgDir.has_of_present (all j low).1)
  · intro ⟨l, _, reached', other, has⟩
    rcases Nat.lt_trichotomy j l with before | same | after
    · exact missing (PgDir.has_of_present (reached' j before).1)
    · subst same
      exact missing has
    · exact other (reached l after)

/-- `copyout` does what is expected of it unless it comes to a page for which there is no page table. -/
theorem copiesSafely_iff (plain : (p.dir d).Plain) (small : va < 2 ^ 32) (fuel : va % pgSize + bytes.length ≤ k * pgSize) :
    CopiesSafely κ d k va bytes s p ↔ ¬ ReachesHole (p.dir d) va bytes.length := by
  have user := inUser_iff (n := bytes.length) plain small
  obtain ⟨ram', confined, ⟨ran, reached, stored⟩ | ⟨ran, other⟩ | ⟨ran, hole⟩⟩ :=
    copyout_run (κ := κ) s va bytes plain small (.inr fuel)
  · constructor
    · exact fun _ hole => hole.not_other.1 reached
    · exact fun _ => ⟨true, ram', ran, ⟨fun _ => user.mpr reached, fun _ => rfl⟩, fun _ => stored, confined⟩
  · constructor
    · exact fun _ hole => hole.not_other.2 other
    · intro _
      refine ⟨false, ram', ran, ⟨fun wrong => absurd wrong (by decide), fun inside => ?_⟩, fun wrong => absurd wrong (by decide), confined⟩
      obtain ⟨j, low, _, away, _⟩ := other
      exact absurd (user.mp inside j low) away
  · constructor
    · intro ⟨answer, ram'', ran', _⟩
      rw [ran] at ran'
      cases ran'
    · exact fun no => absurd hole no

end Run

end Xv6
