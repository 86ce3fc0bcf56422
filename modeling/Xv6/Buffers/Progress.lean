import Xv6.Buffers.Commit

namespace Xv6.Buffers

open Function Log Sched Transition Writes

variable {c : Config} {s s' : State} {p q : Slot} {b x : Index} {stage stage' : Stage} {base goal d : Disk} {who : Option Slot}
  {l : List Index}

/-- A write of a statement is of a log block, of a home block or of the header. -/
theorem Stage.place_cases (wrote : stage.wrote = some b) :
    (∃ erase, stage = .dropHead erase b) ∨ ∃ tail src, stage = .dropSrc .writeLog tail b src ∨
      stage = .dropSrc .installTrans tail b src := by
  cases stage
  case dropSrc loop tail dst src =>
    cases wrote
    cases loop
    · exact Or.inr ⟨tail, src, Or.inl rfl⟩
    · exact Or.inr ⟨tail, src, Or.inr rfl⟩
  case dropHead erase hb =>
    cases wrote
    exact Or.inl ⟨erase, rfl⟩
  all_goals cases wrote

namespace Commits

variable (held : Commits c s base goal p stage) (tr : Transaction c.layout (headerOf s.block))
include held tr

theorem place_ne_start {loop : Loop} {tail : Nat} {dst src : Index} (at_src : stage = .dropSrc loop tail dst src) :
    stage.place c s.block ≠ c.layout.start := by
  subst at_src
  have low := held.low tail rfl
  cases loop with
  | writeLog => exact Nat.ne_of_gt (Nat.lt_succ_of_le (Nat.le_add_right _ _))
  | installTrans =>
    intro same
    apply tr.outside tail low
    show c.layout.Inside (homeOf s.block tail)
    rw [show homeOf s.block tail = c.layout.start from same]
    exact tr.inside_start

theorem header_written {erase : Bool} {hb : Index} (at_head : stage = .dropHead erase hb) (faithful : s.Faithful {c.dev})
    (clean : ∀ b, (s.pc p).writes = some b → (s.buf b).dirty = false) : Lists s.block (s.disk (c.dev % 2) c.layout.start) := by
  rw [faithful.stored c.dev c.layout.start rfl]
  · exact held.sent erase hb at_head
  · intro b names
    by_contra dirty
    rcases held.dirty b (eq_true_of_ne_false dirty) with writes | ⟨t, low, -, same⟩
    · exact dirty (clean b writes)
    · apply tr.outside t low
      show c.layout.Inside (homeOf s.block t)
      rw [← same, names.2]
      exact tr.inside_start

theorem heads_kept (faithful : s.Faithful {c.dev}) (block : s'.block = s.block)
    (disk : s'.disk = s.disk ∨ ∃ b, (s.pc p).writes = some b ∧
      s'.disk = update s.disk (c.dev % 2) (update (s.disk (c.dev % 2)) (stage.place c s.block) (s.buf b).data))
    (finished : ∀ b, (s.pc p).writes = some b → (s'.pc p).writes ≠ some b → (s.buf b).dirty = false) :
    stage.Heads c s'.block goal (s'.disk (c.dev % 2)) ((s'.pc p).writes ≠ none) := by
  have heads := held.heads
  have clean : (s'.pc p).writes = none → ∀ b, (s.pc p).writes = some b → (s.buf b).dirty = false := by
    intro none b writing
    exact finished b writing (by rw [none]; exact nofun)
  have empty : ∀ data, s.block = [] → Lists s.block data → Bytes.load 4 data 0 = 0 := by
    intro data nothing lists
    rw [lists.1, nothing]
    rfl
  rw [block]
  rcases disk with same | ⟨b, writing, sent⟩
  · rw [same]
    rcases stage.heads_cases c s.block goal (s.disk (c.dev % 2)) with ⟨erase, hb, rfl⟩ | still
    · by_cases none : (s'.pc p).writes = none
      · have header := held.header_written tr rfl faithful (clean none)
        cases erase with
        | false => exact Or.inr header
        | true => exact Or.inr (empty _ (held.cleared trivial) header)
      · cases erase with
        | false => exact heads.imp_left fun both => ⟨both.1, none⟩
        | true => exact heads.imp_left fun both => ⟨both.1, none⟩
    · rw [still _ ((s.pc p).writes ≠ none)]
      exact heads
  · obtain ⟨wrote, holds⟩ := held.flight b writing
    have fits := holds.fits
    rcases Stage.place_cases wrote with ⟨erase, rfl⟩ | ⟨tail, src, rfl | rfl⟩
    · have there : s'.disk (c.dev % 2) c.layout.start = (s.buf b).data := by
        rw [sent, update_self]
        exact update_self ..
      cases erase with
      | false =>
        refine Or.inr ?_
        rw [there]
        exact fits
      | true =>
        refine Or.inr ?_
        rw [Layout.count, there]
        exact empty _ (held.cleared trivial) fits
    · have elsewhere : s'.disk (c.dev % 2) c.layout.start = s.disk (c.dev % 2) c.layout.start := by
        rw [sent, update_self]
        exact update_of_ne (held.place_ne_start tr rfl).symm ..
      show Bytes.load 4 (s'.disk (c.dev % 2) c.layout.start) 0 = 0
      rw [elsewhere]
      exact heads
    · have elsewhere : s'.disk (c.dev % 2) c.layout.start = s.disk (c.dev % 2) c.layout.start := by
        rw [sent, update_self]
        exact update_of_ne (held.place_ne_start tr rfl).symm ..
      show Lists s.block (s'.disk (c.dev % 2) c.layout.start)
      rw [elsewhere]
      exact heads

theorem early_place (early : stage.Early) (wrote : stage.wrote = some b) : c.layout.Inside (stage.place c s.block) := by
  rcases Stage.place_cases wrote with ⟨erase, rfl⟩ | ⟨tail, src, rfl | rfl⟩
  · exact tr.inside_start
  · exact tr.inside_log tail (held.low tail rfl)
  · cases early

/-- A step of another process or of the disk, or of the process in one of its calls. -/
theorem kept (faithful : s.Faithful {c.dev}) (mild : s.Mild s' who)
    (sends : s.Sends s') (others : ∀ q, q ≠ p → (s.pc q).writes = none) (own : who = some p → s.Goes s' p ∧ s.pc p ≠ .out) :
    Commits c s' base goal p stage := by
  have disk : s'.disk = s.disk ∨ ∃ b, (s.pc p).writes = some b ∧
      s'.disk = update s.disk (c.dev % 2) (update (s.disk (c.dev % 2)) (stage.place c s.block) (s.buf b).data) := by
    apply sends.imp_right
    rintro ⟨q, b, writes, -, sent⟩
    have same : q = p := by
      by_contra other
      rw [others q other] at writes
      cases writes
    subst same
    refine ⟨b, writes, ?_⟩
    obtain ⟨-, ⟨-, ⟨dev, blockno⟩, -⟩⟩ := held.flight b writes
    rw [sent, dev, blockno]
  have finished : ∀ b, (s.pc p).writes = some b → (s'.pc p).writes ≠ some b → (s.buf b).dirty = false := by
    intro b writes gone
    by_cases mine : who = some p
    · exact (own mine).1.finished b writes gone
    · rw [mild.pcs p mine] at gone
      exact absurd writes gone
  have released : ∀ b, who = some p → s'.pc p ≠ .released b := fun b mine => (own mine).1.released b
  have lock : ∀ b, (s.buf b).lock = some p → (s'.buf b).lock = some p ∧ (s'.buf b).Same (s.buf b) := by
    intro b locked
    refine ⟨(mild.lock b p locked).resolve_right fun both => released b both.1 both.2, mild.same b ?_⟩
    rw [locked]
    exact nofun
  have data : ∀ b, (s.buf b).lock = some p → (s.pc p).asks = none → (s'.buf b).data = (s.buf b).data := by
    intro b locked silent
    by_cases mine : who = some p
    · exact (own mine).1.data b
    · exact mild.data b p locked mine (by rw [silent]; exact nofun)
  have holds : ∀ b, (s.pc p).asks = none → stage.Holds c s goal p b → stage.Holds c s' goal p b := by
    intro b silent ⟨locked, names, fits⟩
    obtain ⟨still, same⟩ := lock b locked
    refine ⟨still, ?_, ?_⟩
    · rw [mild.block]
      exact ⟨same.1.trans names.1, same.2.trans names.2⟩
    · rw [mild.block, data b locked silent]
      exact fits
  constructor
  case given =>
    rw [mild.given]
    exact held.given
  case early =>
    intro early n outside
    rw [← held.early early n outside]
    rcases disk with same | ⟨b, writes, sent⟩
    · rw [same]
    · rw [sent, update_self]
      apply update_of_ne
      rintro rfl
      exact outside (held.early_place tr early (held.flight b writes).1)
  case heads => exact held.heads_kept tr faithful mild.block disk finished
  case filled =>
    rw [mild.block, mild.given]
    exact held.filled
  case dirty =>
    intro b dirty
    obtain ⟨before, same⟩ := mild.dirty b dirty
    rw [mild.block, same.2]
    apply (held.dirty b before).imp_left
    intro writes
    by_contra gone
    rw [finished b writes gone] at before
    cases before
  case low =>
    rw [mild.block]
    exact held.low
  case reads =>
    intro n source
    rw [mild.block] at source
    have reads := held.reads n source
    by_cases mine : who = some p
    · exact (own mine).1.reads c.dev n reads
    · rw [mild.pcs p mine]
      exact reads
  case log =>
    intro loop tail log copies
    obtain ⟨locked, names⟩ := held.log loop tail log copies
    obtain ⟨still, same⟩ := lock log locked
    exact ⟨still, same.1.trans names.1, same.2.trans names.2⟩
  case ready =>
    intro b ready
    obtain ⟨out, before⟩ := held.ready b ready
    have other : who ≠ some p := fun mine => (own mine).2 out
    exact ⟨(mild.pcs p other).trans out, holds b (by rw [out]; rfl) before⟩
  case flight =>
    intro b writes
    have before := mild.writes p b writes
    obtain ⟨wrote, there⟩ := held.flight b before
    refine ⟨wrote, holds b ?_ there⟩
    cases place : s.pc p <;> rw [place] at before <;> try cases before
    case starting request x => cases request <;> first | rfl | cases before
    case waiting request x => cases request <;> first | rfl | cases before
  case sent =>
    rw [mild.block, mild.given]
    exact held.sent
  case cleared =>
    rw [mild.block]
    exact held.cleared

omit held tr in
theorem lacking {α : Type} {o : Option α} {P : α → Prop} (absent : o = none) (w : α) (present : o = some w) : P w := by
  rw [absent] at present
  cases present

omit tr in
theorem goes (mild : s.Mild s' (some p)) (disk : s'.disk = s.disk) (silent : (s.pc p).writes = none)
    (unsent : stage'.wrote = none) (early : stage'.Early → stage.Early)
    (heads : ∀ d, stage.Heads c s.block goal d False → stage'.Heads c s.block goal d False)
    (filled : ∀ t, t < s.block.length → stage'.Filled t → stage.Filled t)
    (installed : ∀ t, t < s.block.length → stage'.Installed t → stage.Installed t)
    (low : ∀ t, stage'.tail = some t → t < s.block.length)
    (reads : ∀ n, stage'.source c s.block = some n → (s'.pc p).Reads c.dev n)
    (log : ∀ w, stage'.copies = some w →
      (s'.buf w.2).lock = some p ∧ (s'.buf w.2).Names c.dev (c.layout.start + w.1 + 1))
    (ready : ∀ b, stage'.ready = some b → s'.pc p = .out ∧ stage'.Holds c s' goal p b)
    (cleared : stage'.Cleared → s.block = []) : Commits c (s'.at p stage') base goal p stage' := by
  have still : ∀ b, (s'.pc p).writes ≠ some b := by
    intro b writes
    have before := mild.writes p b writes
    rw [silent] at before
    cases before
  have header := held.heads
  rw [eq_false (fun busy => busy silent : ¬(s.pc p).writes ≠ none)] at header
  constructor
  case given =>
    intro n outside
    show s'.given c.dev n = goal n
    rw [mild.given]
    exact held.given n outside
  case early =>
    intro now
    show ∀ n, ¬c.layout.Inside n → s'.disk (c.dev % 2) n = base n
    rw [disk]
    exact held.early (early now)
  case heads =>
    show stage'.Heads c s'.block goal (s'.disk (c.dev % 2)) ((s'.pc p).writes ≠ none)
    rw [mild.block, disk]
    rcases stage'.heads_cases c s.block goal (s.disk (c.dev % 2)) with ⟨erase, hb, same⟩ | any
    · rw [same] at unsent
      cases unsent
    · rw [any _ False]
      exact heads _ header
  case filled =>
    intro t low full
    show s'.given c.dev (c.layout.start + t + 1) = goal (homeOf s'.block t)
    rw [mild.given, mild.block]
    replace low : t < s'.block.length := low
    rw [mild.block] at low
    exact held.filled t low (filled t low full)
  case dirty =>
    intro b dirty
    obtain ⟨before, same⟩ := mild.dirty b dirty
    refine Or.inr ?_
    show ∃ t, t < s'.block.length ∧ ¬stage'.Installed t ∧ (s'.buf b).blockno = homeOf s'.block t
    rw [mild.block, same.2]
    rcases held.dirty b before with writes | ⟨t, low, left, home⟩
    · rw [silent] at writes
      cases writes
    · exact ⟨t, low, fun now => left (installed t low now), home⟩
  case low =>
    show ∀ t, stage'.tail = some t → t < s'.block.length
    rw [mild.block]
    exact low
  case reads =>
    show ∀ n, stage'.source c s'.block = some n → (s'.pc p).Reads c.dev n
    rw [mild.block]
    exact reads
  case log =>
    intro loop tail b same
    exact log (tail, b) (by rw [same]; rfl)
  case ready =>
    intro b some
    obtain ⟨out, holds⟩ := ready b some
    exact ⟨out, holds.lock, holds.names, holds.fits⟩
  case flight => exact fun b writes => absurd writes (still b)
  case sent =>
    intro erase hb same
    rw [same] at unsent
    cases unsent
  case cleared =>
    show stage'.Cleared → s'.block = []
    rw [mild.block]
    exact cleared

omit tr in
theorem passes (faithful : s.Faithful {c.dev}) (order : s.Order l) (used : s.buf b ≠ .zero) (some_ready : stage.ready = some b) (wrote : stage'.wrote = some b)
    (place : stage'.place c s.block = stage.place c s.block)
    (fits : ∀ data, stage.Fits s.block goal data → stage'.Fits s.block goal data) (early : stage'.Early → stage.Early)
    (heads : ∀ d, stage.Heads c s.block goal d False → stage'.Heads c s.block goal d True)
    (value : ∀ data, stage.Fits s.block goal data → ¬c.layout.Inside (stage.place c s.block) →
      data = goal (stage.place c s.block))
    (filled : ∀ t, t < s.block.length → stage'.Filled t →
      stage.place c s.block ≠ c.layout.start + t + 1 ∧ stage.Filled t ∨
        stage.place c s.block = c.layout.start + t + 1 ∧ ∀ data, stage.Fits s.block goal data → data = goal (homeOf s.block t))
    (installed : ∀ t, t < s.block.length → stage'.Installed t → stage.Installed t ∨ homeOf s.block t = stage.place c s.block)
    (low : ∀ t, stage'.tail = some t → t < s.block.length) (source : stage'.source c s.block = none)
    (copies : stage'.copies = none) (unready : stage'.ready = none)
    (sent : ∀ erase hb, stage' = .dropHead erase hb → stage.place c s.block = c.layout.start ∧
      ∀ data, stage.Fits s.block goal data → Lists s.block data)
    (cleared : stage'.Cleared → s.block = []) (locked : (s.buf b).lock = some p) :
    Commits c ((s.bwrite p b).at p stage') base goal p stage' := by
  obtain ⟨out, holds⟩ := held.ready b some_ready
  have silent : (s.pc p).writes = none := by rw [out]; rfl
  have header := held.heads
  rw [eq_false (fun busy => busy silent : ¬(s.pc p).writes ≠ none)] at header
  rw [State.bwrite, if_pos locked]
  set v : Buf := { s.buf b with dirty := true }
  have given : ((s.put b v).give b).given c.dev = update (s.given c.dev) (stage.place c s.block) (s.buf b).data := by
    rw [State.given_give_put]
    show update s.given (s.buf b).dev (update (s.given (s.buf b).dev) (s.buf b).blockno (s.buf b).data) c.dev = _
    rw [holds.names.1, holds.names.2, update_self]
  constructor
  case given =>
    intro n outside
    show ((s.put b v).give b).given c.dev n = goal n
    rw [given]
    by_cases here : n = stage.place c s.block
    · subst here
      rw [update_self]
      exact value _ holds.fits outside
    · rw [update_of_ne here]
      exact held.given n outside
  case early => exact fun now => held.early (early now)
  case heads =>
    have busy : (((((s.put b v).give b).goto p (.starting .write b)).at p stage').pc p).writes ≠ none := by
      show (update s.pc p (.starting .write b) p).writes ≠ none
      rw [update_self]
      exact nofun
    rw [eq_true busy]
    exact heads _ header
  case filled =>
    intro t inside full
    show ((s.put b v).give b).given c.dev (c.layout.start + t + 1) = goal (homeOf s.block t)
    rw [given]
    rcases filled t inside full with ⟨other, before⟩ | ⟨here, same⟩
    · rw [update_of_ne other.symm]
      exact held.filled t inside before
    · rw [← here, update_self]
      exact same _ holds.fits
  case dirty =>
    intro x dirty
    show (update s.pc p (.starting .write b) p).writes = some x ∨ _
    rw [update_self]
    by_cases here : x = b
    · subst here
      exact Or.inl rfl
    · refine Or.inr ?_
      replace dirty : (update s.buf b v x).dirty = true := dirty
      show ∃ t, t < s.block.length ∧ ¬stage'.Installed t ∧ (update s.buf b v x).blockno = homeOf s.block t
      rw [update_of_ne here] at dirty ⊢
      rcases held.dirty x dirty with writes | ⟨t, inside, left, home⟩
      · rw [silent] at writes
        cases writes
      · refine ⟨t, inside, fun now => ?_, home⟩
        rcases installed t inside now with before | this
        · exact left before
        · have dirty_used : s.buf x ≠ .zero := by
            intro zero
            rw [zero] at dirty
            cases dirty
          have same_dev : (s.buf x).dev = (s.buf b).dev := (faithful.named_of_used dirty_used).trans holds.names.1.symm
          exact dirty_used (order.unique here ⟨same_dev, (home.trans this).trans holds.names.2.symm⟩ used)
  case low => exact low
  case reads =>
    intro n some
    exact absurd (some.symm.trans source) nofun
  case log =>
    intro loop tail b same
    rw [same] at copies
    cases copies
  case ready =>
    intro x some
    rw [unready] at some
    cases some
  case flight =>
    intro x writes
    replace writes : (update s.pc p (.starting .write b) p).writes = some x := writes
    rw [update_self] at writes
    cases writes
    refine ⟨wrote, ?_, ?_, ?_⟩
    · show (update s.buf b v b).lock = some p
      rw [update_self]
      exact locked
    · show (update s.buf b v b).Names c.dev (stage'.place c s.block)
      rw [update_self, place]
      exact holds.names
    · show stage'.Fits s.block goal (update s.buf b v b).data
      rw [update_self]
      exact fits _ holds.fits
  case sent =>
    intro erase hb same
    obtain ⟨here, lists⟩ := sent erase hb same
    show Lists s.block (((s.put b v).give b).given c.dev c.layout.start)
    rw [given, ← here, update_self]
    exact lists _ holds.fits
  case cleared => exact cleared

end Commits

end Xv6.Buffers
