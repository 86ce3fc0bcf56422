import Xv6.Buffers.Progress

namespace Xv6.Buffers

open Function Log Sched Transition Writes

variable {c : Config} {s s' : State} {p q : Slot} {b x : Index} {stage stage' : Stage} {base goal d : Disk} {who :
    Option Slot}
  {l : List Index}

/-- What a statement of `commit` other than the last comes to. -/
structure Advances (c : Config) (s s' : State) (base goal : Disk) (p : Slot) : Prop where
  commits : ∃ stage, s'.stage p = some stage ∧ Commits c s' base goal p stage
  block : s'.block = s.block ∨ s'.block = []
  committing : s'.committing = s.committing
  orderly : ∀ inside, s.Orderly inside c.layout → s'.Orderly inside c.layout

namespace Advances

theorem of_mild (sound : s.Sound) (staged : s.stage p = some stage) (silent : (s.pc p).writes = none)
    (mild : s.Mild s' (some p)) (quiet : ∀ b, s'.pc p ≠ .logging b) (commits : Commits c (s'.at p stage') base goal p
        stage') :
    Advances c s (s'.at p stage') base goal p where
  commits := ⟨stage', update_self .., commits⟩
  block := Or.inl mild.block
  committing := mild.committing
  orderly inside held := by
    have now := held.mild sound mild fun q b mine place => by
      cases mine
      exact absurd place (quiet b)
    apply now.at
    · rw [mild.stage, staged]
      exact Option.some_ne_none stage
    · intro b writes
      have before := mild.writes p b writes
      rw [silent] at before
      cases before

theorem of_bwrite (sound : s.Sound) (staged : s.stage p = some stage) (idle : s.Idle p) (locked : (s.buf b).lock = some p)
    (wrote : stage'.wrote = some b) (commits : Commits c ((s.bwrite p b).at p stage') base goal p stage') :
    Advances c s ((s.bwrite p b).at p stage') base goal p where
  commits := ⟨stage', update_self .., commits⟩
  block := by
    refine Or.inl ?_
    rw [State.bwrite, if_pos locked]
    rfl
  committing := by
    rw [State.bwrite, if_pos locked]
    rfl
  orderly inside held := by
    rw [State.bwrite, if_pos locked]
    have silent : (s.pc p).asks = none := by
      unfold State.Idle at idle
      cases place : s.pc p <;> rw [place] at idle
      case out => rfl
      case returned => rfl
      all_goals cases idle
    have moved := held.at stage' (by rw [staged]; exact Option.some_ne_none stage) fun x writes => by
      rw [idle.writes] at writes
      cases writes
    refine moved.give ?_ locked silent rfl (.starting .write b) rfl ?_ rfl ?_ rfl rfl rfl
    · exact sound.congr rfl rfl rfl rfl
    · intro x same
      cases same
    · rintro x ⟨⟩
      exact ⟨stage', update_self .., wrote⟩

end Advances

theorem Stage.Holds.modify {data : Data} (locked : (s.buf b).lock = some p)
    (names : (s.buf b).Names c.dev (stage.place c s.block)) (fits : stage.Fits s.block goal data) :
    stage.Holds c (s.modify p b data) goal p b := by
  have own : (s.modify p b data).buf b = { s.buf b with data := data } := update_self ..
  constructor
  · rw [own]
    exact locked
  · rw [own]
    exact names
  · rw [own]
    exact fits

theorem State.Idle.not_logging (idle : s.Idle p) (b : Index) : s.pc p ≠ .logging b := by
  intro place
  unfold State.Idle at idle
  rw [place] at idle
  exact idle

theorem not_logging {pc : Pc} {dev n : Nat} (reads : pc.Reads dev n) (b : Index) : pc ≠ .logging b := by
  rintro rfl
  exact reads

theorem released_quiet (released : s.pc p = .released b) (x : Index) : s.pc p ≠ .logging x := by
  rw [released]
  exact nofun

theorem State.read_data (sound : s.Sound) (faithful : s.Faithful {c.dev}) (idle : s.Idle p) (locked : (s.buf b).lock =
    some p)
    (untouched : s.touched b = false) {n : Nat} (names : (s.buf b).Names c.dev n) : (s.buf b).data = s.given c.dev n := by
  have valid := (sound.held p b locked).resolve_right (by rw [idle.apart.2.1]; exact nofun)
  rw [faithful.cached b names.1 untouched valid, names.1, names.2]

namespace Commits

theorem clears (held : Commits c s base goal p .clear) (tr : Transaction c.layout (headerOf s.block))
    (faithful : s.Faithful {c.dev}) (silent : (s.pc p).writes = none) :
    Commits c ({ s with block := [] }.at p (.head true)) base goal p (.head true) where
  given := held.given
  early := nofun
  heads := held.pending faithful tr held.heads (fun _ => trivial) nofun
  filled t low := absurd low (Nat.not_lt_zero t)
  dirty b dirty := by
    rcases held.dirty b dirty with writes | ⟨t, -, left, -⟩
    · exact Or.inl writes
    · exact absurd trivial left
  low := nofun
  reads := nofun
  log := nofun
  ready := nofun
  flight b writes := by
    have before : (s.pc p).writes = some b := writes
    rw [silent] at before
    cases before
  sent := nofun
  cleared _ := rfl

theorem advances_check (held : Commits c s base goal p .check) (coherent : s.Coherent) (idle : s.Idle p)
    (staged : s.stage p = some .check) (stepped : c.commitStep s p .check = some s') :
    Advances c s s' base goal p := by
  have sound := coherent.sound
  have silent := idle.writes
  unfold Config.commitStep at stepped
  cases stepped
  split_ifs with some
  · refine .of_mild sound staged silent (.refl s _) idle.not_logging
      (held.goes (.refl s _) rfl silent rfl id ?_ ?_ (fun _ _ => False.elim) (lacking rfl) (lacking rfl) (lacking rfl)
        (lacking rfl) False.elim)
    · exact fun _ => id
    · exact fun t _ low => absurd low (Nat.not_lt_zero t)
  · have empty : s.block = [] := List.length_eq_zero_iff.mp (Nat.eq_zero_of_not_pos some)
    refine .of_mild sound staged silent (.refl s _) idle.not_logging
      (held.goes (.refl s _) rfl silent rfl False.elim ?_ ?_ (fun _ _ => False.elim) (lacking rfl) (lacking rfl)
        (lacking rfl) (lacking rfl) ?_)
    · exact fun _ => id
    · intro t low
      rw [empty] at low
      exact absurd low (Nat.not_lt_zero t)
    · exact fun _ => empty

theorem advances_test {loop : Loop} {tail : Nat} (held : Commits c s base goal p (.test loop tail))
    (coherent : s.Coherent) (idle : s.Idle p) (staged : s.stage p = some (.test loop tail))
    (stepped : c.commitStep s p (.test loop tail) = some s') (running : s'.panicked = none) :
    Advances c s s' base goal p := by
  obtain ⟨l, order⟩ := coherent.order
  have sound := coherent.sound
  have silent := idle.writes
  unfold Config.commitStep at stepped
  dsimp only at stepped
  split_ifs at stepped with low first
  · obtain ⟨s₁, got, rfl⟩ := Option.map_eq_some_iff.mp stepped
    obtain ⟨mild, reads, -, disk⟩ := State.Mild.bget sound order got running
    refine .of_mild sound staged silent mild (not_logging reads)
      (held.goes mild disk silent rfl ?_ ?_ ?_ ?_ ?_ ?_ (lacking rfl) (lacking rfl) ?_)
    · cases loop <;> exact id
    · cases loop <;> exact fun _ => id
    · cases loop <;> exact fun _ _ => id
    · cases loop <;> exact fun _ _ => id
    · rintro t ⟨⟩
      exact low
    · rintro n ⟨⟩
      exact reads
    · cases loop <;> exact False.elim
  · cases stepped
    subst first
    refine .of_mild sound staged silent (.refl s _) idle.not_logging
      (held.goes (.refl s _) rfl silent rfl id ?_ ?_ (fun _ _ => False.elim) (lacking rfl) (lacking rfl) (lacking rfl)
        (lacking rfl) False.elim)
    · exact fun _ => id
    · exact fun t inside _ => lt_of_lt_of_le inside (Nat.le_of_not_lt low)
  · cases stepped
    cases loop with
    | writeLog => exact absurd rfl first
    | installTrans =>
      refine .of_mild sound staged silent (.refl s _) idle.not_logging
        (held.goes (.refl s _) rfl silent rfl False.elim ?_ ?_ ?_ (lacking rfl) (lacking rfl) (lacking rfl)
          (lacking rfl) False.elim)
      · exact fun _ => id
      · exact fun _ _ => id
      · exact fun t inside _ => lt_of_lt_of_le inside (Nat.le_of_not_lt low)

theorem advances_home {loop : Loop} {tail : Nat} (held : Commits c s base goal p (.home loop tail))
    (coherent : s.Coherent) (idle : s.Idle p) (staged : s.stage p = some (.home loop tail))
    (stepped : c.commitStep s p (.home loop tail) = some s') (running : s'.panicked = none) :
    Advances c s s' base goal p := by
  obtain ⟨l, order⟩ := coherent.order
  have sound := coherent.sound
  have located := coherent.sound.located p
  have silent := idle.writes
  unfold Config.commitStep at stepped
  have reading := held.reads _ rfl
  have low := held.low tail rfl
  cases place : s.pc p <;> rw [place] at stepped located reading <;> dsimp only at stepped <;> try cases stepped
  case returned dev blockno log =>
    obtain ⟨s₁, got, rfl⟩ := Option.map_eq_some_iff.mp stepped
    obtain ⟨mild, reads, released, disk⟩ := State.Mild.bget sound order got running
    obtain ⟨rfl, rfl⟩ := reading
    refine .of_mild sound staged silent mild (not_logging reads)
      (held.goes mild disk silent rfl ?_ ?_ ?_ ?_ ?_ ?_ ?_ (lacking rfl) ?_)
    · cases loop <;> exact id
    · cases loop <;> exact fun _ => id
    · cases loop <;> exact fun _ _ => id
    · cases loop <;> exact fun _ _ => id
    · rintro t ⟨⟩
      exact low
    · rintro n ⟨⟩
      exact reads
    · rintro w ⟨⟩
      have same := mild.same log (by rw [located.1.1]; exact Option.some_ne_none p)
      refine ⟨(mild.lock log p located.1.1).resolve_right fun both => released log both.2, ?_⟩
      exact ⟨same.1.trans located.2.1, same.2.trans located.2.2⟩
    · cases loop <;> exact False.elim

theorem advances_copy {loop : Loop} {tail : Nat} {log : Index} (held : Commits c s base goal p (.copy loop tail log))
    (tr : Transaction c.layout (headerOf s.block)) (coherent : s.Coherent) (faithful : s.Faithful {c.dev})
    (idle : s.Idle p) (staged : s.stage p = some (.copy loop tail log))
    (stepped : c.commitStep s p (.copy loop tail log) = some s') : Advances c s s' base goal p := by
  have sound := coherent.sound
  have kept := coherent.kept p _ staged
  have located := coherent.sound.located p
  have silent := idle.writes
  unfold Config.commitStep at stepped
  have reading := held.reads _ rfl
  have low := held.low tail rfl
  obtain ⟨locked, names⟩ := held.log loop tail log rfl
  have outside : ¬c.layout.Inside (homeOf s.block tail) := tr.outside tail low
  cases place : s.pc p <;> rw [place] at stepped located reading <;> dsimp only at stepped <;> try cases stepped
  case returned dev blockno home =>
    obtain ⟨rfl, rfl⟩ := reading
    have fromLog := State.read_data sound faithful idle kept.1 kept.2 names
    have fromHome := State.read_data sound faithful idle located.1.1 located.1.2 located.2
    rw [held.given _ outside] at fromHome
    cases loop with
    | writeLog =>
      rw [if_pos rfl] at stepped
      cases stepped
      refine .of_mild sound staged silent (.modify locked _) ?_
       
          (held.goes (.modify locked _) rfl silent rfl id ?_ ?_ (fun _ _ => False.elim) ?_ (lacking rfl) (lacking rfl)
            ?_ False.elim)
      · simp [State.modify]
      · exact fun _ => id
      · exact fun _ _ => id
      · rintro t ⟨⟩
        exact low
      · rintro b ⟨⟩
        exact ⟨update_self .., .modify locked names fromHome⟩
    | installTrans =>
      rw [if_neg (by decide)] at stepped
      cases stepped
      rw [held.filled tail low trivial] at fromLog
      refine .of_mild sound staged silent (.modify located.1.1 _) ?_
        (held.goes (.modify located.1.1 _) rfl silent rfl False.elim ?_ ?_ ?_ ?_ (lacking rfl) (lacking rfl) ?_ False.elim)
      · simp [State.modify]
      · exact fun _ => id
      · exact fun _ _ => id
      · exact fun _ _ => id
      · rintro t ⟨⟩
        exact low
      · rintro b ⟨⟩
        exact ⟨update_self .., .modify located.1.1 located.2 fromLog⟩

theorem advances_write {loop : Loop} {tail : Nat} {dst src : Index}
    (held : Commits c s base goal p (.write loop tail dst src)) (tr : Transaction c.layout (headerOf s.block))
    (coherent : s.Coherent) (faithful : s.Faithful {c.dev}) (idle : s.Idle p)
    (staged : s.stage p = some (.write loop tail dst src))
    (stepped : c.commitStep s p (.write loop tail dst src) = some s') : Advances c s s' base goal p := by
  obtain ⟨l, order⟩ := coherent.order
  have sound := coherent.sound
  unfold Config.commitStep at stepped
  cases stepped
  have low := held.low tail rfl
  obtain ⟨-, holds⟩ := held.ready dst rfl
  have used := State.used_of_referenced (sound.referenced_of_lock holds.lock)
  have outside : ¬c.layout.Inside (homeOf s.block tail) := tr.outside tail low
  refine .of_bwrite sound staged idle holds.lock rfl
    (held.passes faithful order used rfl rfl ?_ ?_ ?_ ?_ ?_ ?_ ?_ ?_ rfl rfl rfl ?_ ?_ holds.lock)
  · cases loop <;> rfl
  · exact fun _ => id
  · cases loop <;> exact id
  · cases loop <;> exact fun _ => id
  · intro data fits away
    cases loop with
    | writeLog => exact absurd (tr.inside_log tail low) away
    | installTrans => exact fits
  · intro t inside full
    cases loop with
    | writeLog =>
      rcases Nat.lt_or_eq_of_le (show t ≤ tail from full) with less | rfl
      · exact Or.inl ⟨by simp only [Stage.place]; omega, less⟩
      · exact Or.inr ⟨rfl, fun _ => id⟩
    | installTrans =>
      refine Or.inl ⟨fun same => outside ?_, trivial⟩
      rw [show homeOf s.block tail = c.layout.start + t + 1 from same]
      exact tr.inside_log t inside
  · intro t inside now
    cases loop with
    | writeLog => exact now.elim
    | installTrans =>
      rcases Nat.lt_or_eq_of_le (show t ≤ tail from now) with less | rfl
      · exact Or.inl less
      · exact Or.inr rfl
  · rintro t ⟨⟩
    exact low
  · intro erase hb same
    cases same
  · cases loop <;> exact False.elim

theorem advances_dropSrc {loop : Loop} {tail : Nat} {dst src : Index}
    (held : Commits c s base goal p (.dropSrc loop tail dst src)) (coherent : s.Coherent) (idle : s.Idle p)
    (staged : s.stage p = some (.dropSrc loop tail dst src))
    (stepped : c.commitStep s p (.dropSrc loop tail dst src) = some s') (running : s'.panicked = none) :
    Advances c s s' base goal p := by
  have sound := coherent.sound
  have silent := idle.writes
  unfold Config.commitStep at stepped
  cases stepped
  have low := held.low tail rfl
  obtain ⟨mild, released, disk⟩ := State.Mild.brelse running
  refine .of_mild sound staged silent mild (released_quiet released)
    (held.goes mild disk silent rfl ?_ ?_ ?_ ?_ ?_ (lacking rfl) (lacking rfl) (lacking rfl) ?_)
  · cases loop <;> exact id
  · cases loop <;> exact fun _ => id
  · cases loop <;> exact fun _ _ => id
  · cases loop <;> exact fun _ _ => id
  · rintro t ⟨⟩
    exact low
  · cases loop <;> exact False.elim

theorem advances_dropDst {loop : Loop} {tail : Nat} {dst : Index}
    (held : Commits c s base goal p (.dropDst loop tail dst)) (coherent : s.Coherent) (idle : s.Idle p)
    (staged : s.stage p = some (.dropDst loop tail dst))
    (stepped : c.commitStep s p (.dropDst loop tail dst) = some s') (running : s'.panicked = none) :
    Advances c s s' base goal p := by
  have sound := coherent.sound
  have silent := idle.writes
  unfold Config.commitStep at stepped
  cases stepped
  obtain ⟨mild, released, disk⟩ := State.Mild.brelse running
  refine .of_mild sound staged silent mild (released_quiet released)
    (held.goes mild disk silent rfl ?_ ?_ ?_ ?_ (lacking rfl) (lacking rfl) (lacking rfl) (lacking rfl) ?_)
  · cases loop <;> exact id
  · cases loop <;> exact fun _ => id
  · cases loop with
    | writeLog => exact fun t _ => Nat.le_of_lt_succ
    | installTrans => exact fun _ _ => id
  · cases loop with
    | writeLog => exact fun _ _ => id
    | installTrans => exact fun t _ => Nat.le_of_lt_succ
  · cases loop <;> exact False.elim

theorem advances_head {erase : Bool} (held : Commits c s base goal p (.head erase)) (coherent : s.Coherent)
    (idle : s.Idle p) (staged : s.stage p = some (.head erase)) (stepped : c.commitStep s p (.head erase) = some s')
    (running : s'.panicked = none) : Advances c s s' base goal p := by
  obtain ⟨l, order⟩ := coherent.order
  have sound := coherent.sound
  have silent := idle.writes
  unfold Config.commitStep at stepped
  obtain ⟨s₁, got, rfl⟩ := Option.map_eq_some_iff.mp stepped
  obtain ⟨mild, reads, -, disk⟩ := State.Mild.bget sound order got running
  refine .of_mild sound staged silent mild (not_logging reads)
    (held.goes mild disk silent rfl ?_ ?_ ?_ (fun _ _ => False.elim) (lacking rfl) ?_ (lacking rfl) (lacking rfl) ?_)
  · cases erase <;> exact id
  · cases erase <;> exact fun _ => id
  · cases erase <;> exact fun _ _ => id
  · rintro n ⟨⟩
    exact reads
  · cases erase with
    | false => exact False.elim
    | true => exact fun _ => held.cleared trivial

theorem advances_fill {erase : Bool} (held : Commits c s base goal p (.fill erase))
    (tr : Transaction c.layout (headerOf s.block)) (coherent : s.Coherent) (idle : s.Idle p)
    (staged : s.stage p = some (.fill erase)) (stepped : c.commitStep s p (.fill erase) = some s') :
    Advances c s s' base goal p := by
  have sound := coherent.sound
  have located := coherent.sound.located p
  have silent := idle.writes
  unfold Config.commitStep at stepped
  have reading := held.reads _ rfl
  cases place : s.pc p <;> rw [place] at stepped located reading <;> dsimp only at stepped <;> try cases stepped
  case returned dev blockno hb =>
    obtain ⟨rfl, rfl⟩ := reading
    have lists : Lists s.block ((headerOf s.block).fill (s.buf hb).data) :=
      ⟨Header.fill_count (by have := tr.small; omega) _, Header.fill_block tr.word _⟩
    refine .of_mild sound staged silent (.modify located.1.1 _) ?_
     
        (held.goes (.modify located.1.1 _) rfl silent rfl ?_ ?_ ?_ (fun _ _ => False.elim) (lacking rfl) (lacking rfl)
          (lacking rfl) ?_ ?_)
    · simp [State.modify]
    · cases erase <;> exact id
    · cases erase <;> exact fun _ => id
    · cases erase <;> exact fun _ _ => id
    · rintro b ⟨⟩
      exact ⟨update_self .., .modify located.1.1 located.2 lists⟩
    · cases erase with
      | false => exact False.elim
      | true => exact fun _ => held.cleared trivial

theorem advances_writeHead {hb : Index} {erase : Bool} (held : Commits c s base goal p (.writeHead erase hb))
    (tr : Transaction c.layout (headerOf s.block)) (coherent : s.Coherent) (faithful : s.Faithful {c.dev})
    (idle : s.Idle p) (staged : s.stage p = some (.writeHead erase hb))
    (stepped : c.commitStep s p (.writeHead erase hb) = some s') : Advances c s s' base goal p := by
  obtain ⟨l, order⟩ := coherent.order
  have sound := coherent.sound
  unfold Config.commitStep at stepped
  cases stepped
  obtain ⟨-, holds⟩ := held.ready hb rfl
  have used := State.used_of_referenced (sound.referenced_of_lock holds.lock)
  refine .of_bwrite sound staged idle holds.lock rfl
    (held.passes faithful order used rfl rfl rfl ?_ ?_ ?_ ?_ ?_ ?_ (lacking rfl) rfl rfl rfl ?_ ?_ holds.lock)
  · exact fun _ => id
  · cases erase <;> exact id
  · cases erase with
    | false => exact fun _ count => Or.inl ⟨count, trivial⟩
    | true => exact fun _ pending => Or.inl ⟨pending, trivial⟩
  · exact fun _ _ away => absurd tr.inside_start away
  · intro t inside full
    refine Or.inl ⟨by simp only [Stage.place]; omega, ?_⟩
    cases erase <;> exact trivial
  · cases erase <;> exact fun _ _ => False.elim
  · rintro erase' hb' ⟨⟩
    exact ⟨rfl, fun _ => id⟩
  · cases erase with
    | false => exact False.elim
    | true => exact fun _ => held.cleared trivial

theorem advances_dropHead {hb : Index} {erase : Bool} (held : Commits c s base goal p (.dropHead erase hb))
    (coherent : s.Coherent) (idle : s.Idle p) (staged : s.stage p = some (.dropHead erase hb))
    (stepped : c.commitStep s p (.dropHead erase hb) = some s') (running : s'.panicked = none) :
    Advances c s s' base goal p := by
  have sound := coherent.sound
  have silent := idle.writes
  unfold Config.commitStep at stepped
  cases stepped
  obtain ⟨mild, released, disk⟩ := State.Mild.brelse running
  cases erase with
  | true =>
    refine .of_mild sound staged silent mild (released_quiet released)
     
        (held.goes mild disk silent rfl False.elim ?_ ?_ (fun _ _ => False.elim) (lacking rfl) (lacking rfl)
          (lacking rfl) (lacking rfl) ?_)
    · exact fun _ heads => heads.resolve_left fun both => both.2
    · exact fun _ _ => id
    · exact fun _ => held.cleared trivial
  | false =>
    refine .of_mild sound staged silent mild (released_quiet released)
      (held.goes mild disk silent rfl False.elim ?_ ?_ ?_ (lacking rfl) (lacking rfl) (lacking rfl) (lacking rfl) False.elim)
    · exact fun _ heads => heads.resolve_left fun both => both.2
    · exact fun _ _ => id
    · exact fun t _ now => absurd now (Nat.not_lt_zero t)

theorem advances_clear (held : Commits c s base goal p .clear) (tr : Transaction c.layout (headerOf s.block))
    (faithful : s.Faithful {c.dev}) (idle : s.Idle p) (staged : s.stage p = some .clear)
    (stepped : c.commitStep s p .clear = some s') : Advances c s s' base goal p := by
  have silent := idle.writes
  unfold Config.commitStep at stepped
  cases stepped
  refine ⟨⟨.head true, update_self .., held.clears tr faithful silent⟩, Or.inr rfl, rfl, ?_⟩
  intro inside orderly
  have now := orderly.at (.head true) (by rw [staged]; exact Option.some_ne_none _) fun b writes => by
    rw [silent] at writes
    cases writes
  exact now.congr rfl rfl rfl rfl rfl

theorem advances (held : Commits c s base goal p stage) (tr : Transaction c.layout (headerOf s.block))
    (coherent : s.Coherent) (faithful : s.Faithful {c.dev}) (idle : s.Idle p) (staged : s.stage p = some stage)
    (stepped : c.commitStep s p stage = some s') (running : s'.panicked = none) (going : stage ≠ .done) :
    Advances c s s' base goal p := by
  cases stage
  case check => exact held.advances_check coherent idle staged stepped
  case test => exact held.advances_test coherent idle staged stepped running
  case home => exact held.advances_home coherent idle staged stepped running
  case copy => exact held.advances_copy tr coherent faithful idle staged stepped
  case write => exact held.advances_write tr coherent faithful idle staged stepped
  case dropSrc => exact held.advances_dropSrc coherent idle staged stepped running
  case dropDst => exact held.advances_dropDst coherent idle staged stepped running
  case head => exact held.advances_head coherent idle staged stepped running
  case fill => exact held.advances_fill tr coherent idle staged stepped
  case writeHead => exact held.advances_writeHead tr coherent faithful idle staged stepped
  case dropHead => exact held.advances_dropHead coherent idle staged stepped running
  case clear => exact held.advances_clear tr faithful idle staged stepped
  case done => exact absurd rfl going

end Commits

end Xv6.Buffers
