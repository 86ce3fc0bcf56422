import Xv6.Memory.Vm
import Mathlib.Algebra.Ring.Nat

namespace Xv6.Words

open CommandProgram Program

/-- The loops of `vm.c` with the 32-bit addresses they calculate. -/
abbrev Address := BitVec 32

def pgRoundUp (sz : Address) : Address := (sz + 4095) &&& ~~~4095

def pgRoundDown (a : Address) : Address := a &&& ~~~4095

def pdx (va : Address) : Address := (va >>> 22) &&& 0x3FF

def pgAddr (d t o : Address) : Address := d <<< 22 ||| t <<< 12 ||| o

variable {pgdir n : Nat} {a last pa va size oldsz newsz x : Address} {perm : Perm}

theorem and_mask (x : Address) : (x &&& ~~~(4095 : Address)).toNat = x.toNat / 4096 * 4096 := by
  have shifts : x &&& ~~~(4095 : Address) = (x >>> 12) <<< 12 := by
    ext i inside
    have mask : (4095 : Address)[i] = decide (i < 12) := by
      show Nat.testBit (2 ^ 12 - 1) i = _
      exact Nat.testBit_two_pow_sub_one ..
    simp only [BitVec.getElem_and, BitVec.getElem_not, mask, BitVec.getElem_shiftLeft, BitVec.getElem_ushiftRight]
    by_cases low : i < 12
    · simp [low]
    · have same : 12 + (i - 12) = i := by omega
      simp [low, same, BitVec.getLsbD_eq_getElem inside]
  rw [shifts, BitVec.toNat_shiftLeft, BitVec.toNat_ushiftRight, Nat.shiftRight_eq_div_pow, Nat.shiftLeft_eq]
  exact Nat.mod_eq_of_lt (by omega)

theorem pgRoundDown_toNat (x : Address) : (pgRoundDown x).toNat = pageOf x.toNat * pgSize := and_mask x

theorem pgRoundUp_toNat (small : x.toNat + 4095 < 2 ^ 32) : (pgRoundUp x).toNat = Xv6.pgRoundUp x.toNat * pgSize := by
  unfold pgRoundUp
  rw [and_mask, BitVec.toNat_add]
  show (x.toNat + 4095) % 2 ^ 32 / 4096 * 4096 = _
  rw [Nat.mod_eq_of_lt small]
  rfl

theorem pdx_toNat (x : Address) : (pdx x).toNat = x.toNat / 2 ^ 22 := by
  unfold pdx
  rw [BitVec.toNat_and, BitVec.toNat_ushiftRight, Nat.shiftRight_eq_div_pow]
  show _ &&& (2 ^ 10 - 1) = _
  rw [Nat.and_two_pow_sub_one_eq_mod]
  exact Nat.mod_eq_of_lt (by omega)

/-- The page that the increment leads to from where a missing page table ends. -/
theorem skip_toNat (user : a.toNat < kernBase) :
    (pgAddr (pdx a + 1) 0 0 - 4096 + 4096).toNat = (a.toNat / 2 ^ 22 + 1) * 2 ^ 22 := by
  unfold kernBase at user
  have index : (pdx a + 1).toNat = a.toNat / 2 ^ 22 + 1 := by
    rw [BitVec.toNat_add, pdx_toNat]
    exact Nat.mod_eq_of_lt (by show _ + 1 < _; omega)
  have address : pgAddr (pdx a + 1) 0 0 = (pdx a + 1) <<< 22 := by
    unfold pgAddr
    simp
  rw [BitVec.sub_add_cancel, address, BitVec.toNat_shiftLeft, index, Nat.shiftLeft_eq]
  exact Nat.mod_eq_of_lt (by omega)

theorem next_page (aligned : a.toNat = pageOf a.toNat * pgSize) :
    (a + 4096).toNat = pageOf (a + 4096).toNat * pgSize ∧ pageOf (a + 4096).toNat = (pageOf a.toNat + 1) % vaPages := by
  have sum : (a + 4096).toNat = (a.toNat + 4096) % 2 ^ 32 := BitVec.toNat_add ..
  have bound := a.isLt
  rw [vaPages_eq]
  unfold pageOf pgSize at *
  omega

theorem below_iff (aligned : a.toNat = pageOf a.toNat * pgSize) : a < oldsz ↔ pageOf a.toNat < Xv6.pgRoundUp oldsz.toNat := by
  show a.toNat < oldsz.toNat ↔ _
  unfold Xv6.pgRoundUp pageOf pgSize at *
  omega

/-- The loop of `mappages`. -/
def mapLoop (pgdir : Nat) (last : Address) (perm : Perm) : Nat → Address → Address → Vm Bool
  | 0, _, _ => .fail .endless
  | n + 1, a, pa => do
    let pte ← walkpgdir pgdir a.toNat true
    match pte with
    | none => return false
    | some v =>
      let old ← ask (.pte pgdir v)
      if old.p then panic "remap"
      else
        ask (.setPte pgdir v (.make (pageOf pa.toNat) perm))
        if a = last then return true
        else mapLoop pgdir last perm n (a + 4096) (pa + 4096)

def mappages (pgdir : Nat) (va size pa : Address) (perm : Perm) : Vm Bool :=
  mapLoop pgdir (pgRoundDown (va + size - 1)) perm vaPages (pgRoundDown va) pa

theorem mapLoop_eq (last_aligned : last.toNat = pageOf last.toNat * pgSize) (aligned : a.toNat = pageOf a.toNat * pgSize)
    (pa_aligned : pa.toNat = pageOf pa.toNat * pgSize) :
    mapLoop pgdir last perm n a pa = Xv6.mapLoop pgdir (pageOf last.toNat) perm n (pageOf a.toNat) (pageOf pa.toNat) := by
  induction n generalizing a pa with
  | zero => rfl
  | succ n ih =>
    obtain ⟨next_aligned, next⟩ := next_page aligned
    obtain ⟨frame_aligned, frame⟩ := next_page pa_aligned
    have same : a = last ↔ pageOf a.toNat = pageOf last.toNat := by
      constructor
      · rintro rfl
        rfl
      · intro page
        apply BitVec.eq_of_toNat_eq
        rw [aligned, last_aligned, page]
    rw [mapLoop, Xv6.mapLoop, ← aligned]
    apply bind_congr
    rintro (_ | v)
    · rfl
    · dsimp only
      apply bind_congr
      intro old
      simp only [same, ih next_aligned frame_aligned, next, frame]

theorem mappages_eq (aligned : pa.toNat % pgSize = 0) :
    mappages pgdir va size pa perm = Xv6.mappages pgdir va.toNat size.toNat (pageOf pa.toNat) perm := by
  have down : ∀ x : Address, (pgRoundDown x).toNat = pageOf (pgRoundDown x).toNat * pgSize ∧
      pageOf (pgRoundDown x).toNat = pageOf x.toNat := by
    intro x
    have rounded := pgRoundDown_toNat x
    have page : pageOf (pgRoundDown x).toNat = pageOf x.toNat := by
      rw [rounded]
      exact Nat.mul_div_cancel _ (by decide)
    exact ⟨by rw [page, rounded], page⟩
  have whole : pa.toNat = pageOf pa.toNat * pgSize := by
    unfold pageOf
    rw [Nat.mul_comm]
    exact (Nat.mul_div_cancel' (Nat.dvd_of_mod_eq_zero aligned)).symm
  have bytes : (va + size - 1).toNat = (va.toNat + size.toNat + (2 ^ 32 - 1)) % 2 ^ 32 := by
    rw [BitVec.toNat_sub, BitVec.toNat_add]
    show (2 ^ 32 - 1 + (va.toNat + size.toNat) % 2 ^ 32) % 2 ^ 32 = _
    rw [Nat.add_mod_mod, Nat.add_comm]
  unfold mappages Xv6.mappages
  rw [mapLoop_eq (down _).1 (down _).1 whole, (down _).2, (down _).2, bytes]

variable [KernelImage]

/-- The loop of `deallocuvm`. Where there is no page table, `a` is set to the last page of the directory entry before it
is incremented. -/
def deallocLoop (pgdir : Nat) (oldsz : Address) : Nat → Address → Vm Unit
  | 0, a => if a < oldsz then .fail .endless else return ()
  | n + 1, a =>
    if a < oldsz then do
      let pte ← walkpgdir pgdir a.toNat false
      match pte with
      | none => deallocLoop pgdir oldsz n (pgAddr (pdx a + 1) 0 0 - 4096 + 4096)
      | some v =>
        let e ← ask (.pte pgdir v)
        if e.p then
          if e.addr = 0 then panic "kfree"
          else if Managed e.addr then
            ask (.freePte pgdir v e.addr)
            deallocLoop pgdir oldsz n (a + 4096)
          else panic "kfree"
        else deallocLoop pgdir oldsz n (a + 4096)
    else return ()

def deallocuvm (pgdir : Nat) (oldsz newsz : Address) : Vm Address :=
  if oldsz ≤ newsz then return oldsz
  else do
    deallocLoop pgdir oldsz vaPages (pgRoundUp newsz)
    return newsz

theorem deallocLoop_eq {m : Nat} (user : oldsz.toNat ≤ kernBase) (aligned : a.toNat = pageOf a.toNat * pgSize)
    (enough : Xv6.pgRoundUp oldsz.toNat ≤ pageOf a.toNat + n) (enough' : Xv6.pgRoundUp oldsz.toNat ≤ pageOf a.toNat + m) :
    deallocLoop pgdir oldsz n a = Xv6.deallocLoop pgdir (Xv6.pgRoundUp oldsz.toNat) m (pageOf a.toNat) := by
  induction n generalizing a m with
  | zero =>
    have done : ¬ (pageOf a.toNat < Xv6.pgRoundUp oldsz.toNat) := by omega
    have done' : ¬ (a < oldsz) := fun less => done ((below_iff aligned).mp less)
    unfold deallocLoop
    rw [if_neg done']
    cases m with
    | zero => rw [Xv6.deallocLoop, if_neg done]
    | succ m => rw [Xv6.deallocLoop, if_neg done]
  | succ n ih =>
    unfold deallocLoop
    by_cases more : a < oldsz
    · have more' := (below_iff aligned).mp more
      have inside : a.toNat < oldsz.toNat := more
      obtain ⟨m, rfl⟩ : ∃ k, m = k + 1 := ⟨m - 1, by omega⟩
      obtain ⟨next_aligned, next⟩ := next_page aligned
      have step : pageOf (a + 4096).toNat = pageOf a.toNat + 1 := by
        rw [next, vaPages_eq]
        unfold pageOf pgSize kernBase at *
        omega
      have following := ih next_aligned (m := m) (by omega) (by omega)
      rw [step] at following
      have skipped := skip_toNat (a := a) (by omega)
      have skip_page : pageOf (pgAddr (pdx a + 1) 0 0 - 4096 + 4096).toNat = (pageOf a.toNat / npdEntries + 1) * npdEntries := by
        rw [skipped]
        unfold pageOf pgSize npdEntries
        omega
      have skip_aligned : (pgAddr (pdx a + 1) 0 0 - 4096 + 4096).toNat =
          pageOf (pgAddr (pdx a + 1) 0 0 - 4096 + 4096).toNat * pgSize := by
        rw [skip_page, skipped]
        unfold pageOf pgSize npdEntries
        omega
      have further : pageOf a.toNat < (pageOf a.toNat / npdEntries + 1) * npdEntries := by
        unfold npdEntries
        omega
      have skipping := ih skip_aligned (m := m) (by omega) (by omega)
      rw [skip_page] at skipping
      rw [if_pos more, Xv6.deallocLoop, if_pos more', ← aligned]
      apply bind_congr
      rintro (_ | v)
      · exact skipping
      · dsimp only
        apply bind_congr
        intro e
        simp only [following]
    · rw [if_neg more]
      have done := fun less => more ((below_iff aligned).mpr less)
      cases m with
      | zero => rw [Xv6.deallocLoop, if_neg done]
      | succ m => rw [Xv6.deallocLoop, if_neg done]

theorem deallocuvm_eq (user : oldsz.toNat ≤ kernBase) : deallocuvm pgdir oldsz newsz =
    Xv6.deallocuvm pgdir oldsz.toNat newsz.toNat >>= fun size => pure (BitVec.ofNat 32 size) := by
  unfold deallocuvm Xv6.deallocuvm
  by_cases grows : oldsz ≤ newsz
  · have grows' : oldsz.toNat ≤ newsz.toNat := grows
    rw [if_pos grows, if_pos grows', pure_bind, BitVec.ofNat_toNat, BitVec.setWidth_eq]
  · have grows' : ¬ (oldsz.toNat ≤ newsz.toNat) := grows
    have rounded := pgRoundUp_toNat (x := newsz) (by unfold kernBase at user; omega)
    have page : pageOf (pgRoundUp newsz).toNat = Xv6.pgRoundUp newsz.toNat := by
      rw [rounded]
      exact Nat.mul_div_cancel _ (by decide)
    have enough : Xv6.pgRoundUp oldsz.toNat ≤ vaPages := by
      rw [vaPages_eq]
      unfold Xv6.pgRoundUp pgSize kernBase at *
      omega
    rw [if_neg grows, if_neg grows', bind_assoc,
      deallocLoop_eq (m := Xv6.pgRoundUp oldsz.toNat - Xv6.pgRoundUp newsz.toNat) user (by rw [page, rounded]) (by omega)
        (by rw [page]; omega), page]
    simp only [pure_bind, BitVec.ofNat_toNat, BitVec.setWidth_eq]

end Xv6.Words
