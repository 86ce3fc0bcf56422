import Xv6.Buffers.Advances
import Xv6.Log.Capacity

namespace Xv6.Buffers

open Function Log Sched Transition

variable {c : Config} {s s' : State} {p q : Slot} {b : Index} {stage : Stage} {base goal d : Disk} {who : Option Slot}
  {x y : Volume} {a : Action} {past : List (Volume × Action)}

/-- No commit is in progress: the disk is `base` outside the log. -/
structure Resting (c : Config) (s : State) (base : Disk) : Prop where
  count : c.layout.count (s.disk (c.dev % 2)) = 0
  old : ∀ n, ¬c.layout.Inside n → s.disk (c.dev % 2) n = base n
  dirty : ∀ b, (s.buf b).dirty = true → (s.buf b).blockno ∈ s.block

structure Logs (l : Layout) (block : List Nat) : Prop where
  nodup : block.Nodup
  fits : block.length < l.size
  outside : ∀ n ∈ block, ¬l.Inside n
  word : ∀ n ∈ block, n < 4294967296

namespace Logs

variable {l : Layout} {block : List Nat} {t : Nat}

theorem homeOf_eq (low : t < block.length) : homeOf block t = block[t] := by simp [homeOf, low]

theorem homeOf_mem (low : t < block.length) : homeOf block t ∈ block := by
  rw [homeOf_eq low]
  exact List.getElem_mem low

theorem exists_homeOf {n : Nat} (member : n ∈ block) : ∃ t, t < block.length ∧ n = homeOf block t := by
  obtain ⟨t, low, rfl⟩ := List.mem_iff_getElem.mp member
  exact ⟨t, low, (homeOf_eq low).symm⟩

theorem transaction (logs : Logs l block) : Transaction l (headerOf block) where
  fits := logs.fits
  outside t low := logs.outside _ (homeOf_mem low)
  word t low := logs.word _ (homeOf_mem low)
  distinct i j low low' same := by
    have first : homeOf block i = block[i] := homeOf_eq low
    have second : homeOf block j = block[j] := homeOf_eq low'
    exact (logs.nodup.getElem_inj_iff).mp (first.symm.trans (same.trans second))

theorem nil (some : 0 < l.size) : Logs l [] := ⟨List.nodup_nil, some, nofun, nofun⟩

theorem absorb (logs : Logs l block) {n : Nat} (outside : ¬l.Inside n) (word : n < 4294967296)
    (fits : (Log.absorb block n).length < l.size) : Logs l (Log.absorb block n) where
  nodup := absorb_nodup logs.nodup n
  fits := fits
  outside m member := (Orderly.mem_absorb.mp member).elim (logs.outside m) fun same => same ▸ outside
  word m member := (Orderly.mem_absorb.mp member).elim (logs.word m) fun same => same ▸ word

end Logs

/-- The first statement of a commit, whose transaction is what was given to the log. -/
theorem Resting.begins (held : Resting c s base) (idle : s.Idle p) :
    Commits c { { s with outstanding := s.outstanding - 1 }.at p .check with committing := true } base (s.given c.dev) p .check where
  given _ _ := rfl
  early _ := held.old
  heads := held.count
  filled _ _ := False.elim
  dirty b dirty := by
    obtain ⟨t, low, home⟩ := Logs.exists_homeOf (held.dirty b dirty)
    exact Or.inr ⟨t, low, id, home⟩
  low := nofun
  reads := nofun
  log := nofun
  ready := nofun
  flight b writes := by
    have silent := idle.writes
    rw [show (s.pc p).writes = some b from writes] at silent
    cases silent
  sent := nofun
  cleared := False.elim

namespace Volume

/-- The contents between two commits, or before and after the one in progress. -/
structure Steady (c : Config) (x : Volume) : Prop where
  coherent : x.now.Coherent
  told : x.now.Told {c.dev}
  orderly : x.now.Orderly x.inside c.layout
  logs : Logs c.layout x.now.block
  resting : x.now.committing = false →
    x.contents.length = x.ended + 1 ∧ ∃ base, x.contents[x.ended]? = some base ∧ Resting c x.now base
  commits : ∀ p stage, x.now.stage p = some stage → x.contents.length = x.ended + 2 ∧
    ∃ base goal, x.contents[x.ended]? = some base ∧ x.contents[x.ended + 1]? = some goal ∧ Commits c x.now base goal p stage

/-- A crash leaves the contents of one of the last two commits. -/
def Recovers (c : Config) (x : Volume) : Prop :=
  x.contents.length ≤ x.ended + 2 ∧ ∃ k content, x.ended ≤ k ∧ x.contents[k]? = some content ∧
    (Idle c.layout content (x.now.disk (c.dev % 2)) ∨ Pending c.layout content (x.now.disk (c.dev % 2)))

theorem Steady.recovers (steady : x.Steady c) : x.Recovers c := by
  by_cases busy : x.now.committing = true
  · obtain ⟨p, some⟩ := steady.orderly.working busy
    obtain ⟨stage, staged⟩ := Option.ne_none_iff_exists'.mp some
    obtain ⟨length, base, goal, old, new, commits⟩ := steady.commits p stage staged
    refine ⟨Nat.le_of_eq length, ?_⟩
    rcases commits.recoverable steady.told.faithful steady.logs.transaction with idle | pending | idle
    · exact ⟨x.ended, base, Nat.le_refl _, old, Or.inl idle⟩
    · exact ⟨x.ended + 1, goal, Nat.le_succ _, new, Or.inr pending⟩
    · exact ⟨x.ended + 1, goal, Nat.le_succ _, new, Or.inl idle⟩
  · obtain ⟨length, base, old, resting⟩ := steady.resting (eq_false_of_ne_true busy)
    exact ⟨by omega, x.ended, base, Nat.le_refl _, old, Or.inl ⟨resting.count, resting.old⟩⟩

theorem steady_start (disk : Nat → Disk) (some : 0 < c.layout.size) (empty : c.layout.count (disk (c.dev % 2)) = 0) :
    (start c disk).Steady c where
  coherent := .start
  told := .start disk
  orderly := .start disk
  logs := .nil some
  resting _ := ⟨rfl, _, rfl, empty, fun _ _ => rfl, nofun⟩
  commits := nofun

namespace Steady

variable (steady : x.Steady c)
include steady

/-- A step in which nothing is given to the log or to the disk, but for what `commit` is writing. -/
theorem mild (mild : x.now.Mild s' who) (sends : x.now.Sends s') (coherent : s'.Coherent) (told : s'.Told {c.dev})
    (logging : ∀ p b, who = some p → s'.pc p = .logging b →
      x.inside p = true ∧ ¬c.layout.Inside (s'.buf b).blockno ∧ (s'.buf b).blockno < 4294967296)
    (own : ∀ p, who = some p → x.now.stage p ≠ none → x.now.Goes s' p ∧ x.now.pc p ≠ .out)
    (inside : x.goes s' a = x.inside) : (x.next c a s').Steady c := by
  have contents : (x.next c a s').contents = x.contents := by
    refine if_neg fun both => ?_
    rw [mild.committing, both.1] at both
    cases both.2
  have ended : (x.next c a s').ended = x.ended := by
    refine if_neg fun both => ?_
    rw [mild.committing, both.1] at both
    cases both.2
  constructor
  case coherent => exact coherent
  case told => exact told
  case orderly =>
    show s'.Orderly (x.goes s' a) c.layout
    rw [inside]
    exact steady.orderly.mild steady.coherent.sound mild logging
  case logs =>
    show Logs c.layout s'.block
    rw [mild.block]
    exact steady.logs
  case resting =>
    intro free
    have before : x.now.committing = false := mild.committing ▸ free
    obtain ⟨length, base, old, resting⟩ := steady.resting before
    rw [contents, ended]
    refine ⟨length, base, old, ?_⟩
    have disk : s'.disk = x.now.disk := by
      refine sends.resolve_right ?_
      rintro ⟨q, b, writes, -, -⟩
      obtain ⟨stage, staged, -⟩ := steady.orderly.writing q b writes
      rw [steady.orderly.unstaged before q] at staged
      cases staged
    constructor
    · show c.layout.count (s'.disk (c.dev % 2)) = 0
      rw [disk]
      exact resting.count
    · show ∀ n, ¬c.layout.Inside n → s'.disk (c.dev % 2) n = base n
      rw [disk]
      exact resting.old
    · intro b dirty
      obtain ⟨was, same⟩ := mild.dirty b dirty
      show (s'.buf b).blockno ∈ s'.block
      rw [mild.block, same.2]
      exact resting.dirty b was
  case commits =>
    intro p stage staged
    have before : x.now.stage p = some stage := mild.stage ▸ staged
    obtain ⟨length, base, goal, old, new, commits⟩ := steady.commits p stage before
    rw [contents, ended]
    refine ⟨length, base, goal, old, new, commits.kept steady.logs.transaction steady.told.faithful mild sends ?_ ?_⟩
    · intro q other
      by_contra some
      obtain ⟨b, writes⟩ := Option.ne_none_iff_exists'.mp some
      obtain ⟨stage', staged', -⟩ := steady.orderly.writing q b writes
      exact other (steady.orderly.alone q p (by rw [staged']; exact nofun) (by rw [before]; exact nofun))
    · exact fun mine => own p mine (by rw [before]; exact nofun)

omit steady in
theorem next_of_free (free : x.now.committing = false) (still : s'.committing = false) :
    (x.next c a s').contents = x.contents ∧ (x.next c a s').ended = x.ended := by
  constructor
  · refine if_neg fun both => ?_
    rw [still] at both
    cases both.2
  · refine if_neg fun both => ?_
    rw [free] at both
    cases both.1

/-- Outside a commit the log may take blocks, and operations may begin and end. -/
theorem free (free : x.now.committing = false) (still : s'.committing = false) (coherent : s'.Coherent)
    (told : s'.Told {c.dev}) (orderly : s'.Orderly (x.goes s' a) c.layout) (logs : Logs c.layout s'.block)
    (resting : ∀ base, Resting c x.now base → Resting c s' base) : (x.next c a s').Steady c := by
  obtain ⟨contents, ended⟩ := next_of_free (c := c) (a := a) free still
  constructor
  case coherent => exact coherent
  case told => exact told
  case orderly => exact orderly
  case logs => exact logs
  case resting =>
    intro _
    obtain ⟨length, base, old, before⟩ := steady.resting free
    rw [contents, ended]
    exact ⟨length, base, old, resting base before⟩
  case commits =>
    intro q stage staged
    have none := orderly.unstaged still q
    rw [show s'.stage q = some stage from staged] at none
    cases none

theorem append (place : x.now.pc p = .logging b) (fits : (x.now.append p b).block.length < c.layout.size)
    (coherent : (x.now.append p b).Coherent) (told : (x.now.append p b).Told {c.dev}) :
    (x.next c (.resume p) (x.now.append p b)).Steady c := by
  obtain ⟨within, outside, word⟩ := steady.orderly.logging p b place
  have free := steady.orderly.not_committing within
  have located := steady.coherent.sound.located p
  rw [place] at located
  have locked : (x.now.buf b).lock = some p := located
  have silent : (x.now.pc p).asks = none := by rw [place]; rfl
  apply steady.free free (show (x.now.append p b).committing = false from free) coherent told
  · exact steady.orderly.give steady.coherent.sound locked silent rfl .out rfl nofun rfl nofun rfl rfl rfl
  · exact steady.logs.absorb outside word fits
  · intro base before
    constructor
    · exact before.count
    · exact before.old
    · intro y dirty
      replace dirty : (update x.now.buf b { x.now.buf b with dirty := true } y).dirty = true := dirty
      show (update x.now.buf b { x.now.buf b with dirty := true } y).blockno ∈ absorb x.now.block (x.now.buf b).blockno
      by_cases here : y = b
      · subst here
        rw [update_self]
        exact Orderly.mem_absorb.mpr (Or.inr rfl)
      · rw [update_of_ne here] at dirty ⊢
        exact Orderly.mem_absorb.mpr (Or.inl (before.dirty y dirty))

theorem beginOp (without : x.inside p = false) (coherent : x.now.beginOp.Coherent) (told : x.now.beginOp.Told {c.dev}) :
    (x.next c (.beginOp p) x.now.beginOp).Steady c := by
  have cases : x.now.beginOp = x.now ∨
      x.now.committing = false ∧ x.now.beginOp = { x.now with outstanding := x.now.outstanding + 1 } := by
    unfold State.beginOp
    split_ifs with busy
    · exact Or.inl rfl
    · exact Or.inl rfl
    · exact Or.inr ⟨eq_false_of_ne_true busy, rfl⟩
  have orderly : x.now.beginOp.Orderly (x.goes x.now.beginOp (.beginOp p)) c.layout := steady.orderly.begin without
  rcases cases with same | ⟨free, same⟩
  · rw [same]
    apply steady.mild (.refl x.now none) (Or.inl rfl) steady.coherent steady.told nofun nofun
    exact if_neg (Int.lt_irrefl _)
  · rw [same] at coherent told orderly ⊢
    exact steady.free free free coherent told orderly steady.logs fun base before => ⟨before.count, before.old, before.dirty⟩

theorem endOp (within : x.inside p = true) (idle : x.now.Idle p) (running : (x.now.endOp p).panicked = none)
    (coherent : (x.now.endOp p).Coherent) (told : (x.now.endOp p).Told {c.dev}) :
    (x.next c (.endOp p) (x.now.endOp p)).Steady c := by
  have free := steady.orderly.not_committing within
  have orderly : (x.now.endOp p).Orderly (x.goes (x.now.endOp p) (.endOp p)) c.layout := steady.orderly.ends within idle running
  have cases : x.now.endOp p = { x.now with outstanding := x.now.outstanding - 1 } ∨
      x.now.endOp p = { { x.now with outstanding := x.now.outstanding - 1 }.at p .check with committing := true } := by
    unfold State.endOp
    dsimp only
    rw [if_neg (by rw [free]; exact nofun)]
    split_ifs
    · exact Or.inr rfl
    · exact Or.inl rfl
  rcases cases with same | same
  · rw [same] at coherent told orderly ⊢
    exact steady.free free free coherent told orderly steady.logs fun base before => ⟨before.count, before.old, before.dirty⟩
  · rw [same] at coherent told orderly ⊢
    obtain ⟨length, base, old, before⟩ := steady.resting free
    set s' : State := { { x.now with outstanding := x.now.outstanding - 1 }.at p .check with committing := true }
    have contents : (x.next c (.endOp p) s').contents = x.contents ++ [x.now.given c.dev] := if_pos ⟨free, rfl⟩
    have ended : (x.next c (.endOp p) s').ended = x.ended := by
      refine if_neg fun both => ?_
      rw [free] at both
      cases both.1
    constructor
    case coherent => exact coherent
    case told => exact told
    case orderly => exact orderly
    case logs => exact steady.logs
    case resting => exact nofun
    case commits =>
      intro q stage staged
      rw [contents, ended]
      have mine : q = p := orderly.alone q p (by rw [show s'.stage q = some stage from staged]; exact nofun) (by simp [s', State.at])
      subst mine
      have at_check : stage = .check := by
        have first : s'.stage q = some .check := update_self ..
        rw [show s'.stage q = some stage from staged] at first
        exact Option.some.inj first
      subst at_check
      have low : x.ended < x.contents.length := by omega
      have next : x.ended + 1 = x.contents.length := length.symm
      refine ⟨by rw [List.length_append, length]; rfl, base, x.now.given c.dev, ?_, ?_, before.begins idle⟩
      · rw [List.getElem?_append_left low]
        exact old
      · rw [next, List.getElem?_concat_length]

theorem commit (idle : x.now.Idle p) {stage : Stage} (staged : x.now.stage p = some stage)
    (stepped : c.commitStep x.now p stage = some s') (running : s'.panicked = none) (coherent : s'.Coherent)
    (told : s'.Told {c.dev}) : (x.next c (.commit p) s').Steady c := by
  have busy := steady.orderly.staged p (by rw [staged]; exact nofun)
  obtain ⟨length, base, goal, old, new, commits⟩ := steady.commits p stage staged
  have contents : (x.next c (.commit p) s').contents = x.contents := by
    refine if_neg fun both => ?_
    rw [busy] at both
    cases both.1
  by_cases last : stage = .done
  · subst last
    cases stepped
    have empty := commits.cleared trivial
    have ended : (x.next c (.commit p) { x.now with committing := false, stage := update x.now.stage p none }).ended = x.ended + 1 :=
      if_pos ⟨busy, rfl⟩
    have orderly := steady.orderly.done (p := p) (by rw [staged]; exact nofun) idle.writes
    constructor
    case coherent => exact coherent
    case told => exact told
    case orderly => exact orderly
    case logs => exact steady.logs
    case resting =>
      intro _
      rw [contents, ended]
      refine ⟨length, goal, new, commits.heads, fun n => ?_, fun b dirty => ?_⟩
      · apply commits.settled steady.told.faithful
        · intro t low
          rw [empty] at low
          exact absurd low (Nat.not_lt_zero t)
        · intro b writes
          rw [idle.writes] at writes
          cases writes
      · rcases commits.dirty b dirty with writes | ⟨t, low, -, -⟩
        · rw [idle.writes] at writes
          cases writes
        · rw [empty] at low
          exact absurd low (Nat.not_lt_zero t)
    case commits =>
      intro q stage staged'
      cases (orderly.unstaged rfl q).symm.trans staged'
  · have advances := commits.advances steady.logs.transaction steady.coherent steady.told.faithful idle staged stepped running last
    have ended : (x.next c (.commit p) s').ended = x.ended := by
      refine if_neg fun both => ?_
      rw [advances.committing, busy] at both
      cases both.2
    obtain ⟨stage', staged', commits'⟩ := advances.commits
    have orderly := advances.orderly x.inside steady.orderly
    constructor
    case coherent => exact coherent
    case told => exact told
    case orderly => exact orderly
    case logs =>
      show Logs c.layout s'.block
      rcases advances.block with same | empty
      · rw [same]
        exact steady.logs
      · rw [empty]
        exact .nil (Nat.zero_lt_of_lt steady.logs.fits)
    case resting =>
      intro free
      have still := advances.committing
      rw [busy, show s'.committing = false from free] at still
      cases still
    case commits =>
      intro q other staged''
      rw [contents, ended]
      replace staged'' : s'.stage q = some other := staged''
      have mine : q = p := orderly.alone q p (by rw [staged'']; exact nofun) (by rw [staged']; exact nofun)
      subst mine
      rw [staged'] at staged''
      cases staged''
      exact ⟨length, base, goal, old, new, commits'⟩

theorem step (obeys : x.Obeys c a) (fits : s'.block.length < c.layout.size) (taken : c.Takes x.now a s')
    (running : s'.panicked = none) : (x.next c a s').Steady c := by
  have coherent := steady.coherent.step taken
  have told : s'.Told {c.dev} := by
    apply steady.told.step steady.coherent (Set.injOn_singleton ..) (Set.mem_singleton _) _ taken
    cases a <;> first | exact obeys | trivial
  obtain ⟨l, order⟩ := steady.coherent.order
  have sound := steady.coherent.sound
  have asking := steady.orderly.asking
  obtain ⟨disciplined, stepped⟩ := taken
  unfold Config.step at stepped
  split_ifs at stepped
  cases a <;> unfold Config.act at stepped <;> dsimp only at stepped
  case bread p dev blockno =>
    split_ifs at stepped with free
    obtain ⟨mild, reads, -, disk⟩ := State.Mild.bget sound order stepped running
    refine steady.mild mild (Or.inl disk) coherent told ?_ ?_ rfl
    · rintro _ b ⟨⟩ place
      exact absurd place (not_logging reads b)
    · rintro _ ⟨⟩ staged
      exact absurd free.2 staged
  case modify p b data =>
    split_ifs at stepped with free
    cases stepped
    refine steady.mild (.modify disciplined data) (Or.inl rfl) coherent told ?_ ?_ rfl
    · rintro _ y ⟨⟩ place
      rw [show (x.now.modify p b data).pc p = .out from update_self ..] at place
      cases place
    · rintro _ ⟨⟩ staged
      exact absurd free.2 staged
  case bwrite p b => exact obeys.elim
  case logWrite p b =>
    split_ifs at stepped with free
    cases stepped
    have same : c.logWrite x.now p b = x.now.goto p (.logging b) := by
      unfold Config.logWrite at running ⊢
      split_ifs at running ⊢
      · cases running
      · cases running
      · rfl
    rw [same] at coherent told ⊢
    refine steady.mild (.of_buf rfl rfl rfl rfl rfl rfl rfl nofun nofun) (Or.inl rfl) coherent told ?_ ?_ rfl
    · rintro _ y ⟨⟩ place
      rw [show (x.now.goto p (.logging b)).pc p = .logging b from update_self ..] at place
      cases place
      exact obeys
    · rintro _ ⟨⟩ staged
      exact absurd free.2 staged
  case brelse p b =>
    split_ifs at stepped with free
    cases stepped
    obtain ⟨mild, released, disk⟩ := State.Mild.brelse running
    refine steady.mild mild (Or.inl disk) coherent told ?_ ?_ rfl
    · rintro _ y ⟨⟩ place
      rw [released] at place
      cases place
    · rintro _ ⟨⟩ staged
      exact absurd free.2 staged
  case beginOp p =>
    split_ifs at stepped with free
    cases stepped
    exact steady.beginOp obeys coherent told
  case endOp p =>
    split_ifs at stepped with free
    cases stepped
    exact steady.endOp obeys free.1 running coherent told
  case commit p =>
    split_ifs at stepped with idle
    obtain ⟨stage, staged, stepped⟩ := Option.bind_eq_some_iff.mp stepped
    exact steady.commit idle staged stepped running coherent told
  case resume p =>
    by_cases logging : ∃ b, x.now.pc p = .logging b
    · obtain ⟨b, place⟩ := logging
      rw [place] at stepped
      cases stepped
      exact steady.append place fits coherent told
    · have quiet : ∀ b, x.now.pc p ≠ .logging b := fun b place => logging ⟨b, place⟩
      have goes := State.Goes.resume sound (asking p) stepped running quiet
      refine steady.mild goes.mild goes.sends coherent told ?_ ?_ rfl
      · rintro _ b ⟨⟩ place
        exact absurd place (goes.logging b)
      · rintro _ ⟨⟩ -
        refine ⟨goes, fun out => ?_⟩
        rw [out] at stepped
        cases stepped
  case ideintr error =>
    cases stepped
    cases obeys
    obtain ⟨mild, sends⟩ := State.Mild.ideintr sound asking running
    exact steady.mild mild sends coherent told nofun nofun rfl

end Steady

theorem Recovers.step (steady : x.Steady c) (obeys : x.Obeys c a) (fits : s'.block.length < c.layout.size)
    (taken : c.Takes x.now a s') : (x.next c a s').Recovers c := by
  by_cases running : s'.panicked = none
  · exact (steady.step obeys fits taken running).recovers
  · have still := State.Still.step taken.2 running
    have contents : (x.next c a s').contents = x.contents := by
      refine if_neg fun both => ?_
      rw [still.committing, both.1] at both
      cases both.2
    have ended : (x.next c a s').ended = x.ended := by
      refine if_neg fun both => ?_
      rw [still.committing, both.1] at both
      cases both.2
    unfold Recovers
    rw [contents, ended]
    show x.contents.length ≤ x.ended + 2 ∧ ∃ k content, x.ended ≤ k ∧ x.contents[k]? = some content ∧
      (Idle c.layout content (s'.disk (c.dev % 2)) ∨ Pending c.layout content (s'.disk (c.dev % 2)))
    rw [still.disk]
    exact steady.recovers

theorem recovers_of_run {disk : Nat → Disk} (some : 0 < c.layout.size) (empty : c.layout.count (disk (c.dev % 2)) = 0)
    (run : Path (Takes c) (start c disk) past x) : x.Recovers c ∧ (x.now.panicked = none → x.Steady c) := by
  have first := steady_start disk some empty
  refine run.always (I := fun x => x.Recovers c ∧ (x.now.panicked = none → x.Steady c)) ⟨first.recovers, fun _ => first⟩ ?_
  rintro x a y ⟨-, steady⟩ ⟨obeys, fits, taken, made⟩
  have running : x.now.panicked = none := by
    by_contra stopped
    have stepped := taken.2
    rw [Config.step, if_neg stopped] at stepped
    cases stepped
  rw [made]
  exact ⟨.step (steady running) obeys fits taken, fun still => (steady running).step obeys fits taken still⟩

end Volume

/-- Whatever the processes, the driver and `commit` do and wherever the machine stops, recovery, itself stopped any number
    of times, leaves the disk as it was to be after one of the last two commits, and after none that has ended is lost;
    and no operation is in progress during a commit. -/
theorem crashes_keep_operations (c : Config) (disk : Nat → Disk) (some : 0 < c.layout.size)
    (empty : c.layout.count (disk (c.dev % 2)) = 0) {past : List (Volume × Action)} {x : Volume}
    (run : Path (Volume.Takes c) (.start c disk) past x) {d : Disk}
    (boots : Relation.ReflTransGen c.layout.Reboots (x.now.disk (c.dev % 2)) d) :
    (x.contents.length ≤ x.ended + 2 ∧ ∃ k content, x.ended ≤ k ∧ x.contents[k]? = Option.some content ∧
      c.layout.count (c.layout.recoverFromLog (.boot d)).disk = 0 ∧
      ∀ b, ¬c.layout.Inside b → (c.layout.recoverFromLog (.boot d)).disk b = content b) ∧
    (x.now.panicked = none → x.now.committing = true → ∀ p, x.inside p = false) := by
  obtain ⟨⟨length, k, content, bound, at_k, ends⟩, steady⟩ := Volume.recovers_of_run some empty run
  refine ⟨⟨length, k, content, bound, at_k, ?_⟩, fun running busy => (steady running).orderly.outside busy⟩
  rcases ends with idle | ⟨lh, new, tr, logged⟩
  · have settled := settles (fun _ _ => 0) (Logs.nil some).transaction (Or.inr idle) boots
    exact ⟨settled.count, settled.goal⟩
  · have settled := settles new tr (Or.inl logged) boots
    exact ⟨settled.count, settled.goal⟩

def Volume.obeyed (c : Config) (x : Volume) (a : Action) : Option Volume :=
  if x.Obeys c a ∧ x.now.Disciplined a then
    (c.step x.now a).bind fun s' => if s'.block.length < c.layout.size then some (x.next c a s') else none
  else none

theorem Volume.takes_of_obeyed {c : Config} {x y : Volume} {a : Action} (taken : x.obeyed c a = some y) : x.Takes c a y := by
  simp only [obeyed, Option.ite_none_right_eq_some, Option.bind_eq_some_iff] at taken
  obtain ⟨⟨obeys, disciplined⟩, s', stepped, fits, made⟩ := taken
  cases made
  exact ⟨obeys, fits, ⟨disciplined, stepped⟩, rfl⟩

def operation : List Action :=
  .beginOp writer :: fetch writer 60 ++ [.modify writer firstBuffer fun _ => 7, .logWrite writer firstBuffer, .resume writer] ++
    release writer firstBuffer ++ [.endOp writer]

/-- `commit` reads a block from the drive, and takes one that has a buffer. -/
def commitReads : List Action :=
  [.commit writer, .resume writer, .resume writer, .resume writer, .ideintr false, .resume writer]

def commitFinds : List Action := [.commit writer, .resume writer, .resume writer]

/-- It copies and writes a block, and lets a buffer go. -/
def commitWrites : List Action := [.commit writer, .commit writer, .resume writer, .ideintr false, .resume writer]

def commitReleases : List Action := [.commit writer, .resume writer]

/-- The operation and its commit: the copy into the log, the head, the copy home, and the head again. -/
def committedRun : List Action :=
  operation ++ [.commit writer] ++ commitReads ++ commitFinds ++ commitWrites ++ commitReleases ++ commitReleases ++
    [.commit writer] ++ commitReads ++ commitWrites ++ commitReleases ++ commitFinds ++ commitFinds ++ commitWrites ++
    commitReleases ++ commitReleases ++ [.commit writer, .commit writer] ++ commitFinds ++ commitWrites ++ commitReleases ++
    [.commit writer]

/-- What a crash after the commit leaves has the 7. -/
theorem crashes_keep_operations_committed : ∃ past x, Path (Volume.Takes imageConfig) (.start imageConfig fun _ _ _ => 0) past x ∧
    ∀ d, Relation.ReflTransGen imageConfig.layout.Reboots (x.now.disk 1) d →
      (imageConfig.layout.recoverFromLog (.boot d)).disk 60 0 = 7 := by
  obtain ⟨past, x, path, passed⟩ := replay_reaches (Volume.obeyed imageConfig) (.start imageConfig fun _ _ _ => 0) committedRun
    (fun _ x => decide (x.ended = 1 ∧ x.contents.length = 2 ∧ (x.contents[1]?).any (fun content => content 60 0 == 7) = true))
    (by decide +kernel)
  obtain ⟨ended, length, seven⟩ := of_decide_eq_true passed
  have run : Path (Volume.Takes imageConfig) (.start imageConfig fun _ _ _ => 0) past x := path.mono Volume.takes_of_obeyed
  refine ⟨past, x, run, fun d boots => ?_⟩
  obtain ⟨⟨-, k, content, low, at_k, -, kept⟩, -⟩ :=
    crashes_keep_operations imageConfig (fun _ _ _ => 0) (by decide) (by decide) run boots
  have high := (List.getElem?_eq_some_iff.mp at_k).1
  have last : k = 1 := by omega
  subst last
  rw [at_k] at seven
  have same : (imageConfig.layout.recoverFromLog (.boot d)).disk 60 = content 60 := kept 60 (by decide)
  rw [same]
  exact eq_of_beq seven

end Xv6.Buffers
