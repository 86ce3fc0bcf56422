import Xv6.Log.Disk
import Mathlib.Data.List.Nodup
import Mathlib.Logic.Relation

namespace Xv6.Log

open Function Bytes Writes

variable {l : Layout} {m m' : Machine} {lh : Header} {d e : Disk} {n t k blockno : Nat} {ws : List (Nat × Data)}

theorem Header.fill_count (small : lh.n < 4294967296) (buf : Data) : load 4 (lh.fill buf) 0 = lh.n :=
  (load_storeWords_of_apart (by omega)).trans (load_store_of_lt small)

theorem Header.fill_block (small : ∀ i, i < lh.n → lh.block i < 4294967296) (buf : Data) (i : Nat) (inside : i < lh.n) :
    load 4 (lh.fill buf) (4 + 4 * i) = lh.block i :=
  load_storeWords inside (small i inside)

/-- The code makes these writes, and reads see them. -/
structure Does (m m' : Machine) (ws : List (Nat × Data)) : Prop where
  disk : m'.disk = apply ws m.disk
  bread : m'.bread = apply ws m.bread
  written : m'.written = ws.reverse ++ m.written

namespace Does

theorem nil : Does m m [] := ⟨rfl, rfl, rfl⟩

theorem bread_bwrite (data : Data) : (m.bwrite blockno data).bread = update m.bread blockno data := by
  funext b
  by_cases eq : b = blockno
  · subst eq
    simp [Machine.bread, Machine.bwrite]
  · simp [Machine.bread, Machine.bwrite, eq]

theorem snoc (does : Does m m' ws) (blockno : Nat) (data : Data) :
    Does m (m'.bwrite blockno data) (ws ++ [(blockno, data)]) where
  disk := by
    rw [apply_append, ← does.disk]
    rfl
  bread := by
    rw [apply_append, ← does.bread, bread_bwrite]
    rfl
  written := by
    rw [List.reverse_append, List.append_assoc, ← does.written]
    rfl

/-- The loop shared by `install_trans` and `write_log`: no block is read after it has been written. -/
theorem loop (dst src : Nat → Nat) (apart : ∀ t u, t < n → u < n → src t ≠ dst u) :
    Does m ((List.range n).foldl (fun m t => m.bwrite (dst t) (m.bread (src t))) m)
      ((List.range n).map fun t => (dst t, m.bread (src t))) := by
  induction n with
  | zero => exact nil
  | succ n ih =>
    have before := ih fun t u low high => apart t u (by omega) (by omega)
    rw [List.range_succ, List.foldl_append, List.map_append]
    have reads : ((List.range n).foldl (fun m t => m.bwrite (dst t) (m.bread (src t))) m).bread (src n) =
        m.bread (src n) := by
      rw [before.bread]
      apply apply_of_not_mem
      intro w member
      obtain ⟨u, low, rfl⟩ := List.mem_map.mp member
      exact (apart n u (by omega) (by have := List.mem_range.mp low; omega)).symm
    simp only [List.foldl_cons, List.foldl_nil, List.map_cons, List.map_nil, reads]
    exact before.snoc ..

theorem trans (first : Does m m' ws) {m'' : Machine} {rest : List (Nat × Data)} (second : Does m' m'' rest) :
    Does m m'' (ws ++ rest) where
  disk := by rw [second.disk, first.disk, apply_append]
  bread := by rw [second.bread, first.bread, apply_append]
  written := by rw [second.written, first.written, List.reverse_append, List.append_assoc]

theorem loop_lh (dst src : Nat → Nat) :
    ((List.range n).foldl (fun m t => m.bwrite (dst t) (m.bread (src t))) m).lh = m.lh := by
  induction n with
  | zero => rfl
  | succ n ih =>
    rw [List.range_succ, List.foldl_append]
    exact ih

theorem erase (l : Layout) (does : Does m m' ws) : ∃ data, load 4 data 0 = 0 ∧
    Does m (l.writeHead (Layout.clear m')) (ws ++ [(l.start, data)]) := by
  have cleared : Does m (Layout.clear m') ws := ⟨does.disk, does.bread, does.written⟩
  exact ⟨store 4 (m'.bread l.start) 0 0, load_store_of_lt (by decide), cleared.snoc ..⟩

theorem crash {code : Machine → Machine} (does : Does { m with written := [] } (code { m with written := [] }) ws) (k : Nat) :
    crash code m k = apply (ws.take k) m.disk := by
  rw [Log.crash, writes, does.written, List.append_nil, List.reverse_reverse]

end Does

/-- A header that fits in the log, with the home blocks of a transaction. -/
structure Transaction (l : Layout) (lh : Header) : Prop where
  fits : lh.n + 1 ≤ l.size
  outside : ∀ i, i < lh.n → ¬ l.Inside (lh.block i)
  word : ∀ i, i < lh.n → lh.block i < 4294967296
  distinct : ∀ i j, i < lh.n → j < lh.n → lh.block i = lh.block j → i = j

def Header.install (lh : Header) (new : Nat → Data) : List (Nat × Data) :=
  (List.range lh.n).map fun t => (lh.block t, new t)

def Header.fillLog (lh : Header) (l : Layout) (new : Nat → Data) : List (Nat × Data) :=
  (List.range lh.n).map fun t => (l.start + t + 1, new t)

/-- The contents that the blocks of the transaction have in the cache. -/
def Machine.new (m : Machine) (t : Nat) : Data := m.bread (m.lh.block t)

/-- The disk has a complete log whose transaction turns it into the disk `goal`. -/
structure Logged (l : Layout) (lh : Header) (new : Nat → Data) (goal d : Disk) : Prop where
  count : l.count d = lh.n
  block : ∀ i, i < lh.n → load 4 (d l.start) (4 + 4 * i) = lh.block i
  log : ∀ t, t < lh.n → d (l.start + t + 1) = new t
  goal : ∀ b, ¬ l.Inside b → apply (lh.install new) d b = goal b

/-- The log is empty and the disk is `goal` outside it. -/
structure Idle (l : Layout) (goal d : Disk) : Prop where
  count : l.count d = 0
  goal : ∀ b, ¬ l.Inside b → d b = goal b

namespace Transaction

variable {new : Nat → Data} {goal : Disk}

theorem inside_start (tr : Transaction l lh) : l.Inside l.start := ⟨Nat.le_refl _, by have := tr.fits; omega⟩

theorem inside_log (tr : Transaction l lh) (t : Nat) (low : t < lh.n) : l.Inside (l.start + t + 1) :=
  ⟨by omega, by have := tr.fits; omega⟩

theorem home (tr : Transaction l lh) {w : Nat × Data} (member : w ∈ lh.install new) : ¬ l.Inside w.1 := by
  obtain ⟨t, low, rfl⟩ := List.mem_map.mp member
  exact tr.outside t (List.mem_range.mp low)

theorem install_inside (tr : Transaction l lh) (k : Nat) (inside : l.Inside blockno) :
    apply ((lh.install new).take k) d blockno = d blockno :=
  apply_of_not_mem fun _ member eq => tr.home (List.mem_of_mem_take member) (eq ▸ inside)

theorem homes_nodup (tr : Transaction l lh) : ((lh.install new).map Prod.fst).Nodup := by
  rw [Header.install, List.map_map]
  apply List.Nodup.map_on _ List.nodup_range
  intro i low j low' eq
  exact tr.distinct i j (List.mem_range.mp low) (List.mem_range.mp low') eq

theorem logged_take (tr : Transaction l lh) (logged : Logged l lh new goal d) (k : Nat) :
    Logged l lh new goal (apply ((lh.install new).take k) d) where
  count := by
    unfold Layout.count
    rw [tr.install_inside k tr.inside_start]
    exact logged.count
  block i low := by
    rw [tr.install_inside k tr.inside_start]
    exact logged.block i low
  log t low := by
    rw [tr.install_inside k (tr.inside_log t low)]
    exact logged.log t low
  goal b away := by
    rw [apply_take_again]
    exact logged.goal b away

end Transaction

theorem Idle.write_head {goal : Disk} {data : Data} (inside : l.Inside l.start) (same : ∀ b, ¬ l.Inside b → d b = goal b)
    (empty : load 4 data 0 = 0) : Idle l goal (update d l.start data) where
  count := by
    unfold Layout.count
    rw [update_self]
    exact empty
  goal b away := by
    have ne : b ≠ l.start := by
      intro eq
      subst eq
      exact away inside
    rw [update_of_ne ne]
    exact same b away

namespace Transaction

variable {new : Nat → Data} {goal : Disk}

theorem writeLog_does (tr : Transaction l m.lh) : Does m (l.writeLog m) (m.lh.fillLog l m.new) :=
  Does.loop (fun t => l.start + t + 1) m.lh.block fun t u low low' eq =>
    tr.outside t low (eq ▸ tr.inside_log u low')

theorem installTrans_does (tr : Transaction l m.lh) (new : Nat → Data) (log : ∀ t, t < m.lh.n → m.bread (l.start + t + 1) = new t) :
    Does m (l.installTrans m) (m.lh.install new) := by
  have loop := Does.loop (m := m) (n := m.lh.n) m.lh.block (fun t => l.start + t + 1) fun t u low low' eq =>
    tr.outside u low' (eq ▸ tr.inside_log t low)
  have same : (List.range m.lh.n).map (fun t => (m.lh.block t, m.bread (l.start + t + 1))) = m.lh.install new := by
    apply List.map_congr_left
    intro t low
    rw [log t (List.mem_range.mp low)]
  rw [same] at loop
  exact loop

theorem small (tr : Transaction l lh) : lh.n < 2147483648 := by
  have := tr.fits
  have := l.int_size
  omega

theorem recover_logged (tr : Transaction l lh) (logged : Logged l lh new goal d) : ∃ data, load 4 data 0 = 0 ∧
    Does (.boot d) (l.recoverFromLog (.boot d)) (lh.install new ++ [(l.start, data)]) := by
  have count : load 4 (d l.start) 0 = lh.n := logged.count
  let m := l.readHead (.boot d)
  have same : m.lh.n = lh.n ∧ ∀ i, i < lh.n → m.lh.block i = lh.block i := by
    simp only [m, Layout.readHead, Machine.bread, Machine.boot, Option.getD_none, count, if_pos tr.small, true_and]
    intro i low
    rw [if_pos low]
    exact logged.block i low
  have tr' : Transaction l m.lh :=
    { fits := same.1 ▸ tr.fits
      outside := fun i low => by
        rw [same.1] at low
        rw [same.2 i low]
        exact tr.outside i low
      word := fun i low => by
        rw [same.1] at low
        rw [same.2 i low]
        exact tr.word i low
      distinct := fun i j low low' eq => by
        rw [same.1] at low low'
        rw [same.2 i low, same.2 j low'] at eq
        exact tr.distinct i j low low' eq }
  have installs : m.lh.install new = lh.install new := by
    rw [Header.install, same.1]
    apply List.map_congr_left
    intro t low
    rw [same.2 t (List.mem_range.mp low)]
  have does := tr'.installTrans_does new fun t low => logged.log t (same.1 ▸ low)
  rw [installs] at does
  exact Does.erase l ⟨does.disk, does.bread, does.written⟩

theorem fillLog_nodup : ((lh.fillLog l new).map Prod.fst).Nodup := by
  rw [Header.fillLog, List.map_map]
  apply List.Nodup.map_on _ List.nodup_range
  intro i _ j _ eq
  have eq : l.start + i + 1 = l.start + j + 1 := eq
  omega

/-- What `commit` writes: the log, the header, the blocks at home and the empty header. -/
theorem commit_does (tr : Transaction l m.lh) (nonempty : 0 < m.lh.n) : ∃ head erase, load 4 erase 0 = 0 ∧
    load 4 head 0 = m.lh.n ∧ (∀ i, i < m.lh.n → load 4 head (4 + 4 * i) = m.lh.block i) ∧
    Does m (l.commit m) (m.lh.fillLog l m.new ++ (l.start, head) :: (m.lh.install m.new ++ [(l.start, erase)])) := by
  have logs := tr.writeLog_does
  have lh : (l.writeLog m).lh = m.lh := Does.loop_lh (fun t => l.start + t + 1) m.lh.block
  let head := m.lh.fill ((l.writeLog m).bread l.start)
  have heads : Does m (l.writeHead (l.writeLog m)) (m.lh.fillLog l m.new ++ [(l.start, head)]) := by
    rw [Layout.writeHead, lh]
    exact logs.snoc l.start head
  have log : ∀ t, t < m.lh.n → (l.writeHead (l.writeLog m)).bread (l.start + t + 1) = m.new t := by
    intro t low
    rw [Layout.writeHead, Does.bread_bwrite, update_of_ne (by omega), logs.bread]
    exact apply_of_mem fillLog_nodup (w := (l.start + t + 1, m.new t))
      (List.mem_map_of_mem (List.mem_range.mpr low))
  have same : (l.writeHead (l.writeLog m)).lh = m.lh := lh
  have tr' : Transaction l (l.writeHead (l.writeLog m)).lh := by
    rw [same]
    exact tr
  have installs := tr'.installTrans_does m.new fun t low => log t (by rwa [same] at low)
  rw [same] at installs
  obtain ⟨erase, empty, does⟩ := Does.erase l (heads.trans installs)
  refine ⟨head, erase, empty, Header.fill_count (by have := tr.small; omega) _, Header.fill_block tr.word _, ?_⟩
  rw [Layout.commit, if_pos nonempty]
  simpa only [List.append_assoc, List.cons_append, List.nil_append] using does

end Transaction

theorem recover_idle (empty : l.count d = 0) : ∃ data, load 4 data 0 = 0 ∧
    Does (.boot d) (l.recoverFromLog (.boot d)) [(l.start, data)] := by
  have count : load 4 (d l.start) 0 = 0 := empty
  have nothing : (l.readHead (.boot d)).lh.n = 0 := by
    simp [Layout.readHead, Machine.bread, Machine.boot, count]
  have same : l.installTrans (l.readHead (.boot d)) = l.readHead (.boot d) := by
    rw [Layout.installTrans, nothing]
    rfl
  have read : Does (.boot d) (l.readHead (.boot d)) [] := ⟨rfl, rfl, rfl⟩
  rw [Layout.recoverFromLog, same]
  exact Does.erase l read

theorem take_snoc (ws : List (Nat × Data)) (w : Nat × Data) (k : Nat) : (ws ++ [w]).take k = ws.take k ∨ (ws ++ [w]).take k = ws ++ [w] := by
  rw [List.take_append]
  by_cases whole : k ≤ ws.length
  · rw [Nat.sub_eq_zero_of_le whole, List.take_zero, List.append_nil]
    exact .inl rfl
  · rw [List.take_of_length_le (by omega), List.take_of_length_le (by simp; omega)]
    exact .inr rfl

theorem Logged.idle {new : Nat → Data} {goal : Disk} (tr : Transaction l lh) (logged : Logged l lh new goal d)
    {data : Data} (empty : load 4 data 0 = 0) : Idle l goal (apply (lh.install new ++ [(l.start, data)]) d) := by
  rw [apply_append]
  exact .write_head tr.inside_start logged.goal empty

theorem Idle.crash {goal : Disk} (tr : Transaction l lh) (idle : Idle l goal d) (k : Nat) :
    Idle l goal (Log.crash l.recoverFromLog (.boot d) k) := by
  obtain ⟨data, empty, does⟩ := recover_idle idle.count
  rw [does.crash]
  rcases take_snoc [] (l.start, data) k with part | whole
  · rw [List.nil_append] at part
    rw [part, List.take_nil]
    exact idle
  · rw [List.nil_append] at whole
    rw [whole]
    exact .write_head tr.inside_start idle.goal empty

theorem Logged.crash {new : Nat → Data} {goal : Disk} (tr : Transaction l lh) (logged : Logged l lh new goal d) (k : Nat) :
    Logged l lh new goal (Log.crash l.recoverFromLog (.boot d) k) ∨ Idle l goal (Log.crash l.recoverFromLog (.boot d) k) := by
  obtain ⟨data, empty, does⟩ := tr.recover_logged logged
  rw [does.crash]
  rcases take_snoc (lh.install new) (l.start, data) k with part | whole
  · rw [part]
    exact .inl (tr.logged_take logged k)
  · rw [whole]
    exact .inr (logged.idle tr empty)

theorem Idle.recovered {goal : Disk} (tr : Transaction l lh) (idle : Idle l goal d) :
    Idle l goal (l.recoverFromLog (.boot d)).disk := by
  obtain ⟨data, empty, does⟩ := recover_idle idle.count
  rw [does.disk]
  exact .write_head tr.inside_start idle.goal empty

theorem Logged.recovered {new : Nat → Data} {goal : Disk} (tr : Transaction l lh) (logged : Logged l lh new goal d) :
    Idle l goal (l.recoverFromLog (.boot d)).disk := by
  obtain ⟨data, empty, does⟩ := tr.recover_logged logged
  rw [does.disk]
  exact logged.idle tr empty

theorem settles (new : Nat → Data) {goal : Disk} (tr : Transaction l lh) (first : Logged l lh new goal d ∨ Idle l goal d)
    (boots : Relation.ReflTransGen l.Reboots d e) : Idle l goal (l.recoverFromLog (.boot e)).disk := by
  have last : Logged l lh new goal e ∨ Idle l goal e := by
    induction boots with
    | refl => exact first
    | tail _ reboot ih =>
      obtain ⟨k, rfl⟩ := reboot
      rcases ih with logged | idle
      · exact logged.crash tr k
      · exact .inr (idle.crash tr k)
  rcases last with logged | idle
  · exact logged.recovered tr
  · exact idle.recovered tr

namespace Transaction

theorem log_inside (tr : Transaction l lh) {new : Nat → Data} {w : Nat × Data} (member : w ∈ lh.fillLog l new) :
    l.start < w.1 ∧ l.Inside w.1 := by
  obtain ⟨t, low, rfl⟩ := List.mem_map.mp member
  exact ⟨by omega, tr.inside_log t (List.mem_range.mp low)⟩

theorem fresh (tr : Transaction l lh) (new : Nat → Data) (disk : Disk) {head : Data} (count : load 4 head 0 = lh.n)
    (block : ∀ i, i < lh.n → load 4 head (4 + 4 * i) = lh.block i) :
    Logged l lh new (apply (lh.install new) disk) (update (apply (lh.fillLog l new) disk) l.start head) where
  count := by
    unfold Layout.count
    rw [update_self]
    exact count
  block i low := by
    rw [update_self]
    exact block i low
  log t low := by
    rw [update_of_ne (by omega)]
    exact apply_of_mem fillLog_nodup (w := (l.start + t + 1, new t)) (List.mem_map_of_mem (List.mem_range.mpr low))
  goal b away := by
    apply apply_congr
    left
    have ne : b ≠ l.start := by
      intro eq
      subst eq
      exact away tr.inside_start
    rw [update_of_ne ne]
    apply apply_of_not_mem
    intro w member eq
    subst eq
    exact away (tr.log_inside member).2

theorem commit_writes (tr : Transaction l m.lh) (nonempty : 0 < m.lh.n) : ∃ head erase, load 4 erase 0 = 0 ∧
    load 4 head 0 = m.lh.n ∧ (∀ i, i < m.lh.n → load 4 head (4 + 4 * i) = m.lh.block i) ∧
    writes l.commit m = m.lh.fillLog l m.new ++ (l.start, head) :: (m.lh.install m.new ++ [(l.start, erase)]) := by
  obtain ⟨head, erase, empty, count, block, does⟩ := commit_does (m := { m with written := [] }) tr nonempty
  refine ⟨head, erase, empty, count, block, ?_⟩
  rw [writes, does.written, List.append_nil, List.reverse_reverse]
  rfl

theorem commit_empty (nothing : m.lh.n = 0) : writes l.commit m = [] := by
  rw [writes, Layout.commit, if_neg (by simp [nothing])]
  rfl

theorem crash_early (tr : Transaction l m.lh) (empty : l.count m.disk = 0) (early : ¬ l.HeadWritten m k) :
    Idle l m.disk (crash l.commit m k) := by
  rcases Nat.eq_zero_or_pos m.lh.n with nothing | nonempty
  · rw [crash, commit_empty nothing, List.take_nil]
    exact ⟨empty, fun _ _ => rfl⟩
  · obtain ⟨head, erase, -, -, -, made⟩ := tr.commit_writes nonempty
    have low : k ≤ (m.lh.fillLog l m.new).length := by
      by_contra high
      apply early
      refine ⟨(l.start, head), ?_, rfl⟩
      rw [made, List.take_append]
      obtain ⟨j, eq⟩ : ∃ j, k - (m.lh.fillLog l m.new).length = j + 1 :=
        ⟨k - (m.lh.fillLog l m.new).length - 1, by omega⟩
      exact List.mem_append_right _ (eq ▸ List.mem_cons_self ..)
    rw [crash, made, List.take_append_of_le_length low]
    constructor
    · rw [Layout.count, apply_of_not_mem fun w member => Nat.ne_of_gt (tr.log_inside (List.mem_of_mem_take member)).1]
      exact empty
    · intro b away
      apply apply_of_not_mem
      intro w member eq
      subst eq
      exact away (tr.log_inside (List.mem_of_mem_take member)).2

theorem crash_late (tr : Transaction l m.lh) (late : l.HeadWritten m k) :
    Logged l m.lh m.new (apply (m.lh.install m.new) m.disk) (crash l.commit m k) ∨
      Idle l (apply (m.lh.install m.new) m.disk) (crash l.commit m k) := by
  obtain ⟨w, member, at_start⟩ := late
  rcases Nat.eq_zero_or_pos m.lh.n with nothing | nonempty
  · rw [commit_empty nothing, List.take_nil] at member
    cases member
  · obtain ⟨head, erase, cleared, count, block, made⟩ := tr.commit_writes nonempty
    rw [made] at member
    have high : (m.lh.fillLog l m.new).length < k := by
      by_contra low
      rw [List.take_append_of_le_length (Nat.le_of_not_lt low)] at member
      exact Nat.ne_of_gt (tr.log_inside (List.mem_of_mem_take member)).1 at_start
    obtain ⟨j, rfl⟩ : ∃ j, k = (m.lh.fillLog l m.new).length + (j + 1) :=
      ⟨k - (m.lh.fillLog l m.new).length - 1, by omega⟩
    have logged := tr.fresh m.new m.disk count block
    have now : crash l.commit m ((m.lh.fillLog l m.new).length + (j + 1)) =
        apply ((m.lh.install m.new ++ [(l.start, erase)]).take j)
          (update (apply (m.lh.fillLog l m.new) m.disk) l.start head) := by
      rw [crash, made, List.take_length_add_append, apply_append]
      rfl
    rw [now]
    rcases take_snoc (m.lh.install m.new) (l.start, erase) j with part | whole
    · rw [part]
      exact .inl (tr.logged_take logged j)
    · rw [whole]
      exact .inr (logged.idle tr cleared)

end Transaction

/-- Transactions are crash-atomic: `commit` is cut after any number of its writes, any number of recoveries is cut
    after any number of theirs, and one recovery is complete. -/
theorem commit_atomic (l : Layout) (m : Machine) (empty : l.count m.disk = 0) (tr : Transaction l m.lh) (k : Nat) (d : Disk)
    (boots : Relation.ReflTransGen l.Reboots (crash l.commit m k) d) :
    l.count (l.recoverFromLog (.boot d)).disk = 0 ∧ ∀ b, ¬ l.Inside b →
      (l.recoverFromLog (.boot d)).disk b =
        if l.HeadWritten m k ∧ ∃ i, i < m.lh.n ∧ m.lh.block i = b then m.bread b else m.disk b := by
  by_cases late : l.HeadWritten m k
  · have final := settles m.new tr (tr.crash_late late) boots
    refine ⟨final.count, fun b away => ?_⟩
    rw [final.goal b away]
    by_cases home : ∃ i, i < m.lh.n ∧ m.lh.block i = b
    · rw [if_pos ⟨late, home⟩]
      obtain ⟨i, low, rfl⟩ := home
      exact apply_of_mem tr.homes_nodup (w := (m.lh.block i, m.new i)) (List.mem_map_of_mem (List.mem_range.mpr low))
    · rw [if_neg fun both => home both.2]
      apply apply_of_not_mem
      intro w member eq
      obtain ⟨t, low, rfl⟩ := List.mem_map.mp member
      exact home ⟨t, List.mem_range.mp low, eq⟩
  · have final := settles m.new tr (.inr (tr.crash_early empty late)) boots
    refine ⟨final.count, fun b away => ?_⟩
    rw [final.goal b away, if_neg fun both => late both.1]

def imageLog : Layout := ⟨2, 30, by decide⟩

def twoBlocks : Machine where
  lh := ⟨2, fun i => 60 + i⟩
  disk := fun _ _ => 0
  dirty b := if b = 60 then some fun _ => 7 else if b = 61 then some fun _ => 8 else none
  written := []

theorem twoBlocks_transaction : Transaction imageLog twoBlocks.lh where
  fits := by decide
  outside i low := by
    have low : i < 2 := low
    show ¬ (2 ≤ 60 + i ∧ 60 + i < 32)
    omega
  word i low := by
    have low : i < 2 := low
    show 60 + i < 4294967296
    omega
  distinct i j _ _ same := by
    have same : 60 + i = 60 + j := same
    omega

/-- The disk after a recovery that a crash cuts between the two blocks, where the first crash was after the first
    `write_head`. -/
def cutBetween : Disk := crash imageLog.recoverFromLog (.boot (crash imageLog.commit twoBlocks 3)) 1

theorem commit_atomic_of_crash : cutBetween 60 0 = 7 ∧ cutBetween 61 0 = 0 ∧
    (imageLog.recoverFromLog (.boot cutBetween)).disk 60 = (fun _ => 7) ∧
      (imageLog.recoverFromLog (.boot cutBetween)).disk 61 = fun _ => 8 := by
  have final := (commit_atomic imageLog twoBlocks (by decide) twoBlocks_transaction 3 cutBetween (.single ⟨1, rfl⟩)).2
  have head : imageLog.HeadWritten twoBlocks 3 := by decide +kernel
  refine ⟨by decide +kernel, by decide +kernel, ?_, ?_⟩
  · rw [final 60 (by decide), if_pos ⟨head, 0, by decide, rfl⟩]
    rfl
  · rw [final 61 (by decide), if_pos ⟨head, 1, by decide, rfl⟩]
    rfl

end Xv6.Log
