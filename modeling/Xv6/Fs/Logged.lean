import Mathlib.Algebra.Ring.Nat
import Mathlib.Data.Finset.Card
import Xv6.Library.Outcome
import Xv6.Fs.Writei

/-! The functions that write to the disk, with the block numbers that they pass to `log_write`. -/

namespace Xv6.Fs.Logged

open Function Bytes Tracing

/-- A computation with its calls of `log_write`. -/
abbrev Logging := Traced Nat String

def log_write (b : Nat) : Logging Unit := emit b

variable (sb : Superblock) (devsw : Devsw)

def bzero (d : Disk) (b : Nat) : Logging Disk := do
  log_write b
  return Superblock.bzero d b

def balloc (d : Disk) : Logging (Nat × Disk) :=
  match sb.firstFree d with
  | some b => do
    log_write (sb.bblock b)
    let d ← bzero (update d (sb.bblock b) (setBit (d (sb.bblock b)) (b % BPB))) b
    return (b, d)
  | none => quiet (.error "balloc: out of blocks")

def bmapEntry (d : Disk) (ip : Dinode) (table bn : Nat) : Logging (Nat × Disk × Dinode) :=
  if load 4 (d table) (4 * bn) = 0 then do
    let (addr, d) ← balloc sb d
    log_write table
    return (addr, update d table (store 4 (d table) (4 * bn) addr), ip)
  else return (load 4 (d table) (4 * bn), d, ip)

def bmap (d : Disk) (ip : Dinode) (bn : Nat) : Logging (Nat × Disk × Dinode) :=
  if h : bn < NDIRECT then
    let i : Fin (NDIRECT + 1) := ⟨bn, Nat.lt_succ_of_lt h⟩
    if ip.addrs i = 0 then do
      let (addr, d) ← balloc sb d
      return (addr, d, ip.setAddr i addr)
    else return ((ip.addrs i).toNat, d, ip)
  else if bn - NDIRECT < NINDIRECT then
    if ip.addrs indirect = 0 then do
      let (table, d) ← balloc sb d
      bmapEntry sb d (ip.setAddr indirect table) table (bn - NDIRECT)
    else bmapEntry sb d ip (ip.addrs indirect).toNat (bn - NDIRECT)
  else quiet (.error "bmap: out of range")

def writeLoop : Nat → Disk → Dinode → Nat → Nat → (Nat → UInt8) → Logging (Disk × Dinode)
  | 0, d, ip, _, _, _ => return (d, ip)
  | fuel + 1, d, ip, off, n, src =>
    if n = 0 then return (d, ip)
    else do
      let (b, d, ip) ← bmap sb d ip (off / BSIZE)
      let m := min n (BSIZE - off % BSIZE)
      let d := update d b (copy m (d b) (off % BSIZE) src)
      log_write b
      writeLoop fuel d ip (off + m) (n - m) fun i => src (m + i)

def iupdate (d : Disk) (inum : Nat) (ip : Dinode) : Logging Disk := do
  log_write (sb.iblock inum)
  return sb.putDinode d inum ip

def writei (d : Disk) (inum : Nat) (ip : Dinode) (src : Nat → UInt8) (off n : Uint) : Logging (Int × Disk × Dinode) :=
  if ip.type = T_DEV then
    if ip.major.toInt < 0 ∨ ip.major.toInt ≥ NDEV then return (-1, d, ip)
    else
      match devsw.write ip.major.toNat with
      | none => return (-1, d, ip)
      | some write => return (write src n, d, ip)
  else if off > ip.size ∨ off + n < off then return (-1, d, ip)
  else if off + n > BitVec.ofNat 32 (MAXFILE * BSIZE) then return (-1, d, ip)
  else do
    let (d, ip) ← writeLoop sb n.toNat d ip off.toNat n.toNat src
    if n > 0 ∧ off + n > ip.size then
      let ip := { ip with size := off + n }
      let d ← iupdate sb d inum ip
      return (n.toNat, d, ip)
    else return (n.toNat, d, ip)

variable {sb devsw} {d d' : Disk} {ip ip' : Dinode} {table bn off n inum : Nat} {src : Nat → UInt8}

/-! The calls of `log_write` left out, these are the functions of before. -/

theorem result_balloc : (balloc sb d).result = sb.balloc d := by
  unfold balloc Superblock.balloc
  cases sb.firstFree d <;> rfl

theorem result_bmapEntry : (bmapEntry sb d ip table bn).result = sb.bmapEntry d ip table bn := by
  unfold bmapEntry Superblock.bmapEntry
  simp only [result_ite, result_bind, result_balloc]
  rfl

theorem result_bmap : (bmap sb d ip bn).result = sb.bmap d ip bn := by
  unfold bmap Superblock.bmap
  split
  · simp only [result_ite, result_bind, result_balloc]
    rfl
  · simp only [result_ite, result_bind, result_balloc, result_bmapEntry]
    rfl

theorem result_writeLoop (fuel : Nat) : (writeLoop sb fuel d ip off n src).result = sb.writeLoop fuel d ip off n src := by
  induction fuel generalizing d ip off n src with
  | zero => rfl
  | succ fuel ih =>
    unfold writeLoop Superblock.writeLoop
    simp only [result_ite, result_bind, result_bmap, ih]
    rfl

theorem result_writei {off n : Uint} : (writei sb devsw d inum ip src off n).result = sb.writei devsw d inum ip src off n := by
  unfold writei Superblock.writei
  split
  · split
    · rfl
    · cases devsw.write ip.major.toNat <;> rfl
  · simp only [result_ite, result_bind, result_writeLoop]
    rfl

/-- 1 if the indirect block is still to be allocated. -/
def pending (ip : Dinode) : Nat := if ip.addrs indirect = 0 then 1 else 0

/-- A trace has at most `n` block numbers beside that of the indirect block. -/
def Few (n : Nat) (table : Uint) (trace : List Nat) : Prop :=
  ∃ blocks : Finset Nat, blocks.card ≤ n ∧ ∀ b ∈ trace, b ∈ blocks ∨ table ≠ 0 ∧ b = table.toNat

def Fixed (table table' : Uint) : Prop := table ≠ 0 → table' = table

namespace Few

variable {m : Nat} {t t' : Uint} {trace trace' : List Nat}

theorem nil : Few 0 t [] := ⟨∅, Nat.le_refl 0, fun _ member => nomatch member⟩

theorem one : Few 1 t [bn] := ⟨{bn}, Nat.le_refl 1, fun _ member => .inl (by simpa using member)⟩

theorem mono (few : Few m t trace) (le : m ≤ n) : Few n t trace := by
  obtain ⟨blocks, card, inside⟩ := few
  exact ⟨blocks, card.trans le, inside⟩

theorem append (first : Few m t trace) (second : Few n t' trace') (fixed : Fixed t t') : Few (m + n) t' (trace ++ trace') := by
  obtain ⟨blocks, card, inside⟩ := first
  obtain ⟨blocks', card', inside'⟩ := second
  refine ⟨blocks ∪ blocks', (Finset.card_union_le ..).trans (Nat.add_le_add card card'), ?_⟩
  intro b member
  rcases List.mem_append.mp member with member | member
  · rcases inside b member with member | ⟨present, eq⟩
    · exact .inl (Finset.mem_union_left _ member)
    · rw [fixed present]
      exact .inr ⟨present, eq⟩
  · exact (inside' b member).imp_left (Finset.mem_union_right _)

theorem card_le (few : Few n t trace) : trace.toFinset.card ≤ n + if t = 0 then 0 else 1 := by
  obtain ⟨blocks, card, inside⟩ := few
  have cover : trace.toFinset ⊆ blocks ∪ if t = 0 then ∅ else {t.toNat} := by
    intro b member
    rcases inside b (List.mem_toFinset.mp member) with member | ⟨present, eq⟩
    · exact Finset.mem_union_left _ member
    · rw [if_neg present]
      exact Finset.mem_union_right _ (Finset.mem_singleton.mpr eq)
  apply (Finset.card_le_card cover).trans ((Finset.card_union_le ..).trans (Nat.add_le_add card _))
  split <;> rfl

end Few

theorem reports_balloc {post : List Nat → Nat × Disk → Prop} {stop : List Nat → String → Prop}
    (found : ∀ b, b < sb.size → sb.used d b = false → post [sb.bblock b, b] (b, sb.alloc d b))
    (full : stop [] "balloc: out of blocks") : Reports (balloc sb d) post stop := by
  unfold balloc
  cases free : sb.firstFree d with
  | some b =>
    obtain ⟨small, unused⟩ := sb.firstFree_spec free
    exact found b small unused
  | none => exact full

/-- A computation on an inode logs at most `n` blocks beside the indirect block and the bitmap block of that. -/
def Spends (ip : Dinode) (n : Nat) (trace : List Nat) (ip' : Dinode) : Prop :=
  Fixed (ip.addrs indirect) (ip'.addrs indirect) ∧
    ∃ m, m + pending ip' ≤ n + pending ip ∧ Few m (ip'.addrs indirect) trace

def Stops (ip : Dinode) (n : Nat) (trace : List Nat) : Prop :=
  ∃ word, Fixed (ip.addrs indirect) word ∧ Few (n + pending ip) word trace

namespace Spends

variable {m : Nat} {trace trace' : List Nat} {ip'' : Dinode}

theorem refl : Spends ip 0 [] ip := ⟨fun _ => rfl, 0, by omega, .nil⟩

theorem trans (first : Spends ip m trace ip') (second : Spends ip' n trace' ip'') : Spends ip (m + n) (trace ++ trace') ip'' := by
  obtain ⟨fixed, l, le, few⟩ := first
  obtain ⟨fixed', l', le', few'⟩ := second
  refine ⟨?_, l + l', by omega, few.append few' fixed'⟩
  intro present
  have same := fixed present
  rw [← same] at present
  exact (fixed' present).trans same

theorem stops (first : Spends ip m trace ip') (second : Stops ip' n trace') : Stops ip (m + n) (trace ++ trace') := by
  obtain ⟨fixed, l, le, few⟩ := first
  obtain ⟨word, fixed', few'⟩ := second
  refine ⟨word, ?_, (few.append few' fixed').mono (by omega)⟩
  intro present
  have same := fixed present
  rw [← same] at present
  exact (fixed' present).trans same

theorem mono (spends : Spends ip m trace ip') (le : m ≤ n) : Spends ip n trace ip' := by
  obtain ⟨fixed, l, le', few⟩ := spends
  exact ⟨fixed, l, by omega, few⟩

theorem card_le (spends : Spends ip n trace ip') : trace.toFinset.card ≤ n + 2 := by
  obtain ⟨-, l, le, few⟩ := spends
  have card := few.card_le
  have one : pending ip ≤ 1 := by unfold pending; split <;> omega
  unfold pending at le one
  split at card <;> omega

end Spends

theorem Stops.mono {m : Nat} {trace : List Nat} (stops : Stops ip m trace) (le : m ≤ n) : Stops ip n trace := by
  obtain ⟨word, fixed, few⟩ := stops
  exact ⟨word, fixed, few.mono (by omega)⟩

theorem Stops.card_le {trace : List Nat} (stops : Stops ip n trace) : trace.toFinset.card ≤ n + 2 := by
  obtain ⟨word, -, few⟩ := stops
  have card := few.card_le
  have one : pending ip ≤ 1 := by unfold pending; split <;> omega
  split at card <;> omega

theorem reports_bmapEntry (present : ip.addrs indirect ≠ 0) (word : (ip.addrs indirect).toNat = table) :
    Reports (bmapEntry sb d ip table bn) (fun t r => r.2.2 = ip ∧ Few 2 (ip.addrs indirect) (t ++ [r.1])) fun t _ => t = [] := by
  subst word
  unfold bmapEntry
  rw [reports_ite, reports_bind]
  constructor
  · intro _
    apply reports_balloc
    · intro b _ _
      show ip = ip ∧ Few 2 (ip.addrs indirect) ([sb.bblock b, b] ++ [(ip.addrs indirect).toNat] ++ [b])
      refine ⟨rfl, {sb.bblock b, b}, Finset.card_le_two, ?_⟩
      intro c member
      simp only [List.mem_append, List.mem_cons, List.not_mem_nil, or_false] at member
      simp only [Finset.mem_insert, Finset.mem_singleton]
      rcases member with ((rfl | rfl) | rfl) | rfl
      · exact .inl (.inl rfl)
      · exact .inl (.inr rfl)
      · exact .inr ⟨present, rfl⟩
      · exact .inl (.inr rfl)
    · rfl
  · exact fun _ => ⟨rfl, Few.one.mono (by omega)⟩

variable {inodes : Nat → Dinode} {i : Nat}

theorem reports_bmap (held : Blocks sb d inodes) :
    Reports (bmap sb d (inodes i) bn) (fun t r => Spends (inodes i) 2 (t ++ [r.1]) r.2.2) fun t _ => Stops (inodes i) 0 t := by
  have nothing : Stops (inodes i) 0 [] := ⟨_, fun _ => rfl, Few.nil.mono (Nat.zero_le _)⟩
  unfold bmap
  split
  · rename_i direct
    rw [reports_ite, reports_bind]
    constructor
    · intro _
      apply reports_balloc
      · intro b _ _
        have same : ((inodes i).setAddr ⟨bn, Nat.lt_succ_of_lt direct⟩ b).addrs indirect = (inodes i).addrs indirect :=
          setAddr_of_ne (Fin.ne_of_gt direct)
        refine ⟨fun _ => same, 2, ?_, {sb.bblock b, b}, Finset.card_le_two, ?_⟩
        · unfold pending
          rw [same]
        · intro c member
          change c ∈ [sb.bblock b, b] ++ [] ++ [b] at member
          left
          simpa [or_assoc] using member
      · exact nothing
    · exact fun _ => ⟨fun _ => rfl, 1, Nat.add_le_add_right (by decide) _, Few.one⟩
  · rw [reports_ite]
    constructor
    · intro _
      rw [reports_ite, reports_bind]
      constructor
      · intro empty
        apply reports_balloc
        · intro t small unused
          have word : (((inodes i).setAddr indirect t).addrs indirect).toNat = t := by
            rw [setAddr_self, Blocks.word_of_data (held.fresh small unused)]
          have present : ((inodes i).setAddr indirect t).addrs indirect ≠ 0 := by
            rw [← toNat_ne_zero, word]
            exact Blocks.pos_of_data (held.fresh small unused)
          have pending_one : pending (inodes i) = 1 := if_pos empty
          have pending_zero : pending ((inodes i).setAddr indirect t) = 0 := if_neg present
          have new : Few 1 (((inodes i).setAddr indirect t).addrs indirect) [sb.bblock t, t] := by
            refine ⟨{sb.bblock t}, Nat.le_refl 1, ?_⟩
            intro c member
            simp only [List.mem_cons, List.not_mem_nil, or_false] at member
            rcases member with rfl | rfl
            · exact .inl (Finset.mem_singleton_self _)
            · exact .inr ⟨present, word.symm⟩
          apply (reports_bmapEntry present word).imp
          · intro trace r _ ⟨same, few⟩
            rw [same, List.append_assoc]
            exact ⟨fun nonzero => absurd empty nonzero, 1 + 2, by omega, new.append few fun _ => rfl⟩
          · intro trace e _ none
            subst none
            rw [List.append_nil]
            exact ⟨_, fun nonzero => absurd empty nonzero, new.mono (by omega)⟩
        · exact nothing
      · intro present
        apply (reports_bmapEntry present rfl).imp
        · intro trace r _ ⟨same, few⟩
          rw [same]
          exact ⟨fun _ => rfl, 2, by omega, few⟩
        · intro trace e _ none
          rw [none]
          exact nothing
    · exact fun _ => nothing

theorem reports_bmap_found (small : bn < MAXFILE) (present : addr d (inodes i) bn ≠ 0) :
    Reports (bmap sb d (inodes i) bn) (fun t r => Spends (inodes i) 1 (t ++ [r.1]) r.2.2) fun t _ => Stops (inodes i) 0 t := by
  have one : ∀ b, Spends (inodes i) 1 [b] (inodes i) := fun _ => ⟨fun _ => rfl, 1, Nat.le_refl _, Few.one⟩
  unfold bmap
  split
  · rename_i direct
    rw [reports_ite]
    constructor
    · intro empty
      rw [addr, blockSlot_direct direct] at present
      exact absurd ((ref_addr ⟨bn, Nat.lt_succ_of_lt direct⟩).trans (congrArg BitVec.toNat empty)) present
    · exact fun _ => one _
  · rename_i large
    have inside : bn - NDIRECT < NINDIRECT := by
      unfold MAXFILE at small
      omega
    rw [addr, blockSlot_entry large] at present
    rw [if_pos inside, reports_ite]
    constructor
    · intro empty
      exact absurd (ref_entry_none empty _) present
    · intro nonzero
      rw [ref_entry nonzero] at present
      rw [bmapEntry, if_neg present]
      exact one _

theorem reports_pass {fuel k l : Nat} (held : Blocks sb d inodes) (small : i < sb.ninodes) (allocated : (inodes i).type ≠ 0)
    (low : off < MAXFILE * BSIZE) (positive : 0 < n)
    (first : Reports (bmap sb d (inodes i) (off / BSIZE)) (fun t r => Spends (inodes i) k (t ++ [r.1]) r.2.2)
      fun t _ => Stops (inodes i) 0 t)
    (rest : ∀ d' ip' src', Blocks sb d' (update inodes i ip') → ip'.type ≠ 0 →
      Reports (writeLoop sb fuel d' ip' (off + min n (BSIZE - off % BSIZE)) (n - min n (BSIZE - off % BSIZE)) src')
        (fun t r => Spends ip' l t r.2) fun t _ => Stops ip' l t) :
    Reports (writeLoop sb (fuel + 1) d (inodes i) off n src) (fun t r => Spends (inodes i) (k + l) t r.2)
      fun t _ => Stops (inodes i) (k + l) t := by
  rw [writeLoop, if_neg (by omega), reports_bind]
  apply first.imp
  · intro trace ⟨b, d', ip'⟩ ran spends
    rw [result_bmap] at ran
    have inside : off / BSIZE < MAXFILE := block_lt low
    have offset : off % BSIZE < BSIZE := Nat.mod_lt _ (by decide)
    rcases Mapped.of_bmap held small allocated inside with ⟨b₁, d₁, ip₁, ran₁, mapped⟩ | ⟨failed, -⟩
    · rw [ran₁] at ran
      cases ran
      have positive : 0 < min n (BSIZE - off % BSIZE) := by omega
      have room : off % BSIZE + min n (BSIZE - off % BSIZE) ≤ BSIZE := by omega
      have wrote : Wrote sb d inodes i off _ (fun k => src (k - off)) _ ip' :=
        .of_block held small allocated low positive room mapped fun k _ => congrArg src (Nat.add_sub_cancel_left ..).symm
      rw [reports_bind, log_write, reports_emit]
      apply (rest _ _ _ wrote.blocks (by rw [mapped.fields]; exact allocated)).imp
      · intro trace' r _ later
        have all : trace ++ ([b] ++ trace') = trace ++ [b] ++ trace' := (List.append_assoc ..).symm
        rw [all]
        exact spends.trans later
      · intro trace' e _ later
        have all : trace ++ ([b] ++ trace') = trace ++ [b] ++ trace' := (List.append_assoc ..).symm
        rw [all]
        exact spends.stops later
    · rw [failed] at ran
      cases ran
  · exact fun trace e _ stops => stops.mono (Nat.zero_le _)

theorem reports_writeLoop (fuel p : Nat) (held : Blocks sb d inodes) (small : i < sb.ninodes) (allocated : (inodes i).type ≠ 0)
    (bound : off + n ≤ MAXFILE * BSIZE) (parts : 0 < n → off % BSIZE + n ≤ p * BSIZE) :
    Reports (writeLoop sb fuel d (inodes i) off n src) (fun t r => Spends (inodes i) (2 * p) t r.2)
      fun t _ => Stops (inodes i) (2 * p) t := by
  induction fuel generalizing d inodes off n src p with
  | zero => exact Spends.refl.mono (Nat.zero_le _)
  | succ fuel ih =>
    by_cases done : n = 0
    · rw [writeLoop, if_pos done]
      exact Spends.refl.mono (Nat.zero_le _)
    · have offset : off % BSIZE < BSIZE := Nat.mod_lt _ (by decide)
      have size : 0 < BSIZE := by decide
      have fits := parts (by omega)
      obtain ⟨q, rfl⟩ : ∃ q, p = q + 1 := by
        apply Nat.exists_eq_succ_of_ne_zero
        rintro rfl
        omega
      have cost : 2 * (q + 1) = 2 + 2 * q := by omega
      rw [cost]
      apply reports_pass held small allocated (by omega) (by omega) (reports_bmap held)
      intro d' ip' src' held' allocated'
      have self : update inodes i ip' i = ip' := update_self ..
      rw [← self] at allocated' ⊢
      exact ih q held' allocated' (by omega) (by unfold BSIZE at *; omega)

/-- A write that starts inside a block which is there spends one block less. -/
theorem reports_writeLoop_inside (fuel p : Nat) (held : Blocks sb d inodes) (small : i < sb.ninodes)
    (allocated : (inodes i).type ≠ 0) (bound : off + n ≤ MAXFILE * BSIZE) (parts : off % BSIZE + n ≤ (p + 1) * BSIZE)
    (present : 0 < n → addr d (inodes i) (off / BSIZE) ≠ 0) :
    Reports (writeLoop sb fuel d (inodes i) off n src) (fun t r => Spends (inodes i) (1 + 2 * p) t r.2)
      fun t _ => Stops (inodes i) (1 + 2 * p) t := by
  cases fuel with
  | zero => exact Spends.refl.mono (Nat.zero_le _)
  | succ fuel =>
    by_cases done : n = 0
    · rw [writeLoop, if_pos done]
      exact Spends.refl.mono (Nat.zero_le _)
    · have low : off < MAXFILE * BSIZE := by omega
      have offset : off % BSIZE < BSIZE := Nat.mod_lt _ (by decide)
      apply reports_pass held small allocated low (by omega) (reports_bmap_found (block_lt low) (present (by omega)))
      intro d' ip' src' held' allocated'
      have self : update inodes i ip' i = ip' := update_self ..
      rw [← self] at allocated' ⊢
      exact reports_writeLoop fuel p held' small allocated' (by omega) (by unfold BSIZE at *; omega)

/-- Three blocks of bytes, from anywhere in the file on. Where they start inside a block, that block is there. -/
theorem reports_three (fuel : Nat) (held : Blocks sb d inodes) (small : i < sb.ninodes) (allocated : (inodes i).type ≠ 0)
    (filled : Filled d (inodes i)) (inside : off ≤ (inodes i).size.toNat) (bound : off + n ≤ MAXFILE * BSIZE)
    (short : n ≤ 3 * BSIZE) :
    Reports (writeLoop sb fuel d (inodes i) off n src) (fun t r => Spends (inodes i) 7 t r.2)
      fun t _ => Stops (inodes i) 7 t := by
  by_cases aligned : off % BSIZE = 0
  · apply (reports_writeLoop fuel 3 held small allocated bound (fun _ => by omega)).imp
    · exact fun t r _ spends => spends.mono (by decide)
    · exact fun t e _ stops => stops.mono (by decide)
  · have offset : off % BSIZE < BSIZE := Nat.mod_lt _ (by decide)
    apply reports_writeLoop_inside fuel 3 held small allocated bound (by omega)
    intro _
    have same : (off - 1) / BSIZE = off / BSIZE := by
      unfold BSIZE at *
      omega
    rw [← same]
    apply filled.dense
    have positive : off ≠ 0 := by
      rintro rfl
      exact aligned rfl
    omega

theorem card_append_le {trace : List Nat} (t : List Nat) (few : trace.toFinset.card ≤ n) :
    (trace ++ t).toFinset.card ≤ n + t.length := by
  rw [List.toFinset_append]
  exact (Finset.card_union_le ..).trans (Nat.add_le_add few (List.toFinset_card_le t))

/-- `writei` logs at most ten blocks when it is given at most three blocks of bytes. -/
theorem reports_writei {off n : Uint} (held : Blocks sb d inodes) (small : i < sb.ninodes) (allocated : (inodes i).type ≠ 0)
    (filled : Filled d (inodes i)) (inside : (inodes i).type ≠ T_DEV → off.toNat ≤ (inodes i).size.toNat)
    (short : n.toNat ≤ 3 * BSIZE) :
    Reports (writei sb devsw d inum (inodes i) src off n) (fun t _ => t.toFinset.card ≤ 10) fun t _ => t.toFinset.card ≤ 10 := by
  have nothing : ([] : List Nat).toFinset.card ≤ 10 := by decide
  unfold writei
  rw [reports_ite]
  constructor
  · intro _
    rw [reports_ite]
    constructor
    · exact fun _ => nothing
    · intro _
      cases devsw.write (inodes i).major.toNat <;> exact nothing
  · intro regular
    rw [reports_ite, reports_ite]
    refine ⟨fun _ => nothing, fun first => ⟨fun _ => nothing, fun second => ?_⟩⟩
    rw [not_or, wraps_iff] at first
    rw [gt_iff_lt, BitVec.lt_def, toNat_limit, toNat_add (by omega)] at second
    rw [reports_bind]
    apply (reports_three n.toNat held small allocated filled (inside regular) (by omega) short).imp
    · intro trace r _ spends
      have few := spends.card_le
      rw [reports_ite]
      constructor
      · exact fun _ => card_append_le [sb.iblock inum] few
      · exact fun _ => (card_append_le [] few).trans (by decide)
    · exact fun trace e _ stops => stops.card_le.trans (by decide)

end Xv6.Fs.Logged
