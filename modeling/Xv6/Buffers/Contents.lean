import Xv6.Buffers.Runs
import Mathlib.Data.Set.Function

namespace Xv6.Buffers

open Function Links Log Sched Tally Transition

variable {s s' s'' : State} {p q : Slot} {b x : Index} {dev blockno : Nat} {l : List Index} {c : Config} {data : Data}
  {a : Action} {stage : Stage} {v : Buf} {pc : Pc} {devs : Set Nat}

/-- The same block with the same contents, for the disk. -/
structure Buf.Alike (v w : Buf) : Prop where
  same : v.Same w
  valid : v.valid = w.valid
  dirty : v.dirty = w.dirty
  data : v.data = w.data

namespace State

/-- A buffer or the disk has what was last given for a block. -/
structure Faithful (s : State) (devs : Set Nat) : Prop where
  named : ∀ b, s.buf b = .zero ∨ (s.buf b).dev ∈ devs
  cached : ∀ b, (s.buf b).dev ∈ devs → s.touched b = false → (s.buf b).valid = true →
    (s.buf b).data = s.given (s.buf b).dev (s.buf b).blockno
  stored : ∀ dev blockno, dev ∈ devs → (∀ b, (s.buf b).Names dev blockno → (s.buf b).dirty = false) →
    s.disk (dev % 2) blockno = s.given dev blockno

/-- The driver has sent the block that it is writing. -/
def Active (s : State) : Prop :=
  s.panicked = none → ∀ b ∈ s.idequeue.head?, (s.buf b).dirty = true →
    s.disk ((s.buf b).dev % 2) (s.buf b).blockno = (s.buf b).data

theorem used_of_referenced (referenced : 0 < (s.buf b).refcnt) : s.buf b ≠ .zero := by
  intro zero
  rw [zero] at referenced
  exact Nat.lt_irrefl 0 referenced

theorem Order.unique (order : s.Order l) (other : x ≠ b) (same : (s.buf x).Same (s.buf b)) (used : s.buf b ≠ .zero) :
    s.buf x = .zero := by
  have either : (s.buf x).Same (s.buf b) → s.buf x = .zero ∨ s.buf b = .zero := by
    have symmetric : Std.Symm fun x y : Index => (s.buf x).Same (s.buf y) → s.buf x = .zero ∨ s.buf y = .zero :=
      ⟨fun _ _ either same => (either ⟨same.1.symm, same.2.symm⟩).symm⟩
    have weaker := order.apart.imp (S := fun x y => (s.buf x).Same (s.buf y) → s.buf x = .zero ∨ s.buf y = .zero)
      fun apart same => .inr (apart same)
    exact weaker.forall (order.full x) (order.full b) other
  exact (either same).resolve_right used

namespace Faithful

variable (faithful : s.Faithful devs)
include faithful

theorem named_of_used (used : s.buf b ≠ .zero) : (s.buf b).dev ∈ devs := (faithful.named b).resolve_left used

theorem alike (alike : ∀ x, (s'.buf x).Alike (s.buf x)) (touched : s'.touched = s.touched) (given : s'.given = s.given)
    (disk : s'.disk = s.disk) (named : ∀ x, s.buf x = .zero → s'.buf x = .zero ∨ (s'.buf x).dev ∈ devs) :
    s'.Faithful devs where
  named x := by
    rcases faithful.named x with zero | inside
    · exact named x zero
    · rw [(alike x).same.1]
      exact .inr inside
  cached x := by
    rw [touched, given, (alike x).same.1, (alike x).same.2, (alike x).valid, (alike x).data]
    exact faithful.cached x
  stored dev blockno inside clean := by
    rw [given, disk]
    apply faithful.stored dev blockno inside
    intro x names
    rw [← (alike x).dirty]
    exact clean x ⟨(alike x).same.1.trans names.1, (alike x).same.2.trans names.2⟩

theorem recycled (inside : dev ∈ devs) (clean : (s.buf b).dirty = false) (buf : s'.buf = update s.buf b v)
    (names : v.Names dev blockno) (invalid : v.valid = false) (touched : s'.touched = s.touched) (given : s'.given = s.given) (disk : s'.disk = s.disk) : s'.Faithful devs where
  named x := by
    rw [buf]
    by_cases here : x = b
    · subst here
      rw [update_self, names.1]
      exact .inr inside
    · rw [update_of_ne here]
      exact faithful.named x
  cached x := by
    rw [buf, touched, given]
    by_cases here : x = b
    · subst here
      rw [update_self, invalid]
      intro _ _ valid
      cases valid
    · rw [update_of_ne here]
      exact faithful.cached x
  stored dev' blockno' inside clean'' := by
    rw [given, disk]
    apply faithful.stored dev' blockno' inside
    intro x names'
    by_cases here : x = b
    · subst here
      exact clean
    · have kept := clean'' x
      rw [buf, update_of_ne here] at kept
      exact kept names'

theorem modified (used : s.buf b ≠ .zero) (buf : s'.buf = update s.buf b v) (same : v.Same (s.buf b))
    (dirty : v.dirty = (s.buf b).dirty) (touched : s'.touched = update s.touched b true) (given : s'.given = s.given)
    (disk : s'.disk = s.disk) : s'.Faithful devs where
  named x := by
    rw [buf]
    by_cases here : x = b
    · subst here
      rw [update_self, same.1]
      exact .inr (faithful.named_of_used used)
    · rw [update_of_ne here]
      exact faithful.named x
  cached x := by
    rw [buf, touched, given]
    by_cases here : x = b
    · subst here
      rw [update_self, update_self]
      intro _ untouched
      cases untouched
    · rw [update_of_ne here, update_of_ne here]
      exact faithful.cached x
  stored dev' blockno' inside clean := by
    rw [given, disk]
    apply faithful.stored dev' blockno' inside
    intro x names
    have kept := clean x
    by_cases here : x = b
    · subst here
      rw [buf, update_self, dirty] at kept
      exact kept ⟨same.1.trans names.1, same.2.trans names.2⟩
    · rw [buf, update_of_ne here] at kept
      exact kept names

theorem given (order : s.Order l) (used : s.buf b ≠ .zero) (buf : s'.buf = update s.buf b { s.buf b with dirty := true })
    (touched : s'.touched = update s.touched b false) (disk : s'.disk = s.disk)
    (given : s'.given =
      update s.given (s.buf b).dev (update (s.given (s.buf b).dev) (s.buf b).blockno (s.buf b).data)) :
    s'.Faithful devs where
  named x := by
    rw [buf]
    by_cases here : x = b
    · subst here
      rw [update_self]
      exact .inr (faithful.named_of_used used)
    · rw [update_of_ne here]
      exact faithful.named x
  cached x := by
    rw [buf, touched, given]
    by_cases here : x = b
    · subst here
      intro _ _ _
      rw [update_self, update_self, update_self]
    · rw [update_of_ne here, update_of_ne here]
      intro inside untouched valid
      by_cases same : (s.buf x).Same (s.buf b)
      · rw [order.unique here same used] at valid
        cases valid
      · have before := faithful.cached x inside untouched valid
        by_cases same_dev : (s.buf x).dev = (s.buf b).dev
        · have other : (s.buf x).blockno ≠ (s.buf b).blockno := fun eq => same ⟨same_dev, eq⟩
          rw [same_dev, update_self, update_of_ne other, ← same_dev]
          exact before
        · rw [update_of_ne same_dev]
          exact before
  stored dev' blockno' inside clean := by
    rw [given, disk]
    have other : ¬ (s.buf b).Names dev' blockno' := by
      intro names
      have dirty := clean b
      rw [buf, update_self] at dirty
      cases dirty names
    have before : s.disk (dev' % 2) blockno' = s.given dev' blockno' := by
      apply faithful.stored dev' blockno' inside
      intro x names
      have here : x ≠ b := by
        rintro rfl
        exact other names
      have kept := clean x
      rw [buf, update_of_ne here] at kept
      exact kept names
    by_cases same_dev : dev' = (s.buf b).dev
    · have other_block : blockno' ≠ (s.buf b).blockno := fun eq => other ⟨same_dev.symm, eq.symm⟩
      rw [before, same_dev, update_self, update_of_ne other_block]
    · rw [before, update_of_ne same_dev]

theorem idestart (apart : Set.InjOn (· % 2) devs) (used : s.buf b ≠ .zero) : (s.idestart b).Faithful devs := by
  unfold State.idestart
  dsimp only
  split_ifs with _ dirty
  · exact ⟨faithful.named, faithful.cached, faithful.stored⟩
  · refine ⟨faithful.named, faithful.cached, ?_⟩
    intro dev' blockno' inside clean
    have other : ¬ (s.buf b).Names dev' blockno' := by
      intro names
      rw [clean b names] at dirty
      cases dirty
    have before := faithful.stored dev' blockno' inside clean
    dsimp only
    by_cases same_dev : dev' % 2 = (s.buf b).dev % 2
    · have same : dev' = (s.buf b).dev := apart inside (faithful.named_of_used used) same_dev
      have other_block : blockno' ≠ (s.buf b).blockno := fun eq => other ⟨same.symm, eq.symm⟩
      rw [same_dev, update_self, update_of_ne other_block, ← same_dev]
      exact before
    · rw [update_of_ne same_dev]
      exact before
  · exact faithful

end Faithful

theorem Active.idestart (head : s.idequeue.head? = some b) : (s.idestart b).Active := by
  unfold State.idestart
  dsimp only
  split_ifs with _ dirty
  · intro none
    cases none
  · intro _ x first _
    have same : b = x := Option.some.inj (head.symm.trans first)
    subst same
    dsimp only
    rw [update_self, update_self]
  · intro _ x first dirty'
    have same : b = x := Option.some.inj (head.symm.trans first)
    subst same
    exact absurd dirty' dirty

theorem Active.frame (active : s.Active) (running : s.panicked = none) (queue : s'.idequeue = s.idequeue)
    (disk : s'.disk = s.disk) (alike : ∀ x ∈ s.idequeue, (s'.buf x).Alike (s.buf x)) : s'.Active := by
  intro _ x first dirty
  rw [queue] at first
  have kept := alike x (List.mem_of_mem_head? first)
  rw [disk, kept.same.1, kept.same.2, kept.data]
  exact active running x first (kept.dirty ▸ dirty)

theorem alike_update (alike : v.Alike (s.buf b)) (x : Index) : (update s.buf b v x).Alike (s.buf x) := by
  by_cases here : x = b
  · subst here
    rw [update_self]
    exact alike
  · rw [update_of_ne here]
    exact ⟨⟨rfl, rfl⟩, rfl, rfl, rfl⟩

theorem given_give_put : ((s.put b v).give b).given = update s.given v.dev (update (s.given v.dev) v.blockno v.data) := by
  unfold give
  dsimp only
  rw [buf_put, update_self]
  rfl

structure Told (s : State) (devs : Set Nat) : Prop where
  faithful : s.Faithful devs
  active : s.Active

namespace Told

variable (told : s.Told devs) (running : s.panicked = none)
include told

theorem panic (msg : String) : (s.panic msg).Told devs where
  faithful := ⟨told.faithful.named, told.faithful.cached, told.faithful.stored⟩
  active := by
    intro none
    cases none

include running

theorem quiet (used : s.buf b ≠ .zero) (alike : v.Alike (s.buf b)) (buf : s'.buf = update s.buf b v)
    (touched : s'.touched = s.touched) (given : s'.given = s.given) (disk : s'.disk = s.disk)
    (queue : s'.idequeue = s.idequeue) : s'.Told devs where
  faithful := by
    apply told.faithful.alike ?_ touched given disk
    · intro x zero
      have other : x ≠ b := by
        rintro rfl
        exact used zero
      rw [buf, update_of_ne other]
      exact .inl zero
    · rw [buf]
      exact alike_update alike
  active := by
    apply told.active.frame running queue disk
    intro x _
    rw [buf]
    exact alike_update alike x

theorem frame (buf : s'.buf = s.buf) (touched : s'.touched = s.touched) (given : s'.given = s.given)
    (disk : s'.disk = s.disk) (queue : s'.idequeue = s.idequeue) : s'.Told devs where
  faithful := by
    apply told.faithful.alike ?_ touched given disk
    · intro x zero
      rw [buf]
      exact .inl zero
    · intro x
      rw [buf]
      exact ⟨⟨rfl, rfl⟩, rfl, rfl, rfl⟩
  active := by
    apply told.active.frame running queue disk
    intro x _
    rw [buf]
    exact ⟨⟨rfl, rfl⟩, rfl, rfl, rfl⟩

theorem away (faithful : s'.Faithful devs) (outside : b ∉ s.idequeue) (buf : s'.buf = update s.buf b v)
    (disk : s'.disk = s.disk) (queue : s'.idequeue = s.idequeue) : s'.Told devs where
  faithful := faithful
  active := by
    apply told.active.frame running queue disk
    intro x member
    have other : x ≠ b := by
      rintro rfl
      exact outside member
    rw [buf, update_of_ne other]
    exact ⟨⟨rfl, rfl⟩, rfl, rfl, rfl⟩

theorem bget (sound : s.Sound) (order : s.Order l) (inside : dev ∈ devs) (got : s.bget p dev blockno = some s') :
    s'.Told devs := by
  obtain ⟨_, ends, how⟩ := order.bget p dev blockno
  rw [got] at ends
  cases ends
  cases how with
  | found b l₁ l₂ split names first =>
    have alike := alike_update (s := s) (b := b) (v := { s.buf b with refcnt := (s.buf b).refcnt + 1 }) ⟨⟨rfl, rfl⟩, rfl, rfl, rfl⟩
    constructor
    · refine told.faithful.alike alike rfl rfl rfl ?_
      intro x zero
      by_cases here : x = b
      · subst here
        exact .inr (by simpa [names.1] using inside)
      · exact .inl (by simpa [here] using zero)
    · refine told.active.frame running rfl rfl ?_
      exact fun x _ => alike x
  | recycled b absent unused clean =>
    refine told.away running ?_ (sound.not_queued_of_unlocked (sound.unlocked unused)) rfl rfl rfl
    exact told.faithful.recycled inside clean rfl ⟨rfl, rfl⟩ rfl rfl rfl rfl
  | noBuffers => exact told.panic _

theorem bwrite (sound : s.Sound) (order : s.Order l) (idle : s.Idle p) : (s.bwrite p b).Told devs := by
  unfold State.bwrite
  split_ifs with locked
  · have used := used_of_referenced (sound.referenced_of_lock locked)
    have outside : b ∉ s.idequeue := sound.not_queued locked (by rw [idle.apart.2.2]; exact (Option.some_ne_none b).symm)
    refine told.away running ?_ outside rfl rfl rfl
    refine told.faithful.given order used rfl rfl rfl ?_
    exact given_give_put
  · exact told.panic _

theorem modify (sound : s.Sound) (idle : s.Idle p) (locked : (s.buf b).lock = some p) : (s.modify p b data).Told devs := by
  have used := used_of_referenced (sound.referenced_of_lock locked)
  have outside : b ∉ s.idequeue := sound.not_queued locked (by rw [idle.apart.2.2]; exact (Option.some_ne_none b).symm)
  exact told.away running (told.faithful.modified used rfl ⟨rfl, rfl⟩ rfl rfl rfl rfl) outside rfl rfl rfl

theorem brelse (sound : s.Sound) : (s.brelse p b).Told devs := by
  unfold State.brelse
  split_ifs with locked
  · have used := used_of_referenced (sound.referenced_of_lock locked)
    refine told.quiet running used ?_ rfl rfl rfl rfl rfl
    exact ⟨⟨rfl, rfl⟩, rfl, rfl, rfl⟩
  · exact told.panic _

theorem logWrite : (c.logWrite s p b).Told devs := by
  unfold Config.logWrite
  split_ifs
  · exact told.panic _
  · exact told.panic _
  · exact told.frame running rfl rfl rfl rfl rfl

theorem append (sound : s.Sound) (order : s.Order l) (place : s.pc p = .logging b) : (s.append p b).Told devs := by
  have located := sound.located p
  rw [place] at located
  have locked : (s.buf b).lock = some p := located
  have used := used_of_referenced (sound.referenced_of_lock locked)
  have outside : b ∉ s.idequeue := sound.not_queued locked (by rw [place]; exact (Option.some_ne_none b).symm)
  refine told.away running ?_ outside rfl rfl rfl
  refine told.faithful.given order used rfl rfl rfl ?_
  exact given_give_put

theorem unref (sound : s.Sound) (place : s.pc p = .released b) : (s.unref p b).Told devs := by
  have used := used_of_referenced (sound.referenced_of_awaits (p := p) (b := b) (by rw [place]; rfl))
  unfold State.unref
  dsimp only
  split_ifs
  · refine told.quiet running used ?_ rfl rfl rfl rfl rfl
    exact ⟨⟨rfl, rfl⟩, rfl, rfl, rfl⟩
  · refine told.quiet running used ?_ rfl rfl rfl rfl rfl
    exact ⟨⟨rfl, rfl⟩, rfl, rfl, rfl⟩

theorem iderw (sound : s.Sound) (apart : Set.InjOn (· % 2) devs) {request : Request}
    (place : s.pc p = .starting request b) : (c.iderw s p request b).Told devs := by
  have located := sound.located p
  rw [place] at located
  have used := used_of_referenced (sound.referenced_of_lock located.1.1)
  have queued : ({ s with idequeue := s.idequeue ++ [b] }.goto p (.waiting request b)).Faithful devs :=
    ⟨told.faithful.named, told.faithful.cached, told.faithful.stored⟩
  unfold Config.iderw
  dsimp only
  split_ifs with _ _ _ first
  · exact told.panic _
  · exact told.panic _
  · exact told.panic _
  · exact ⟨queued.idestart apart used, .idestart first⟩
  · refine ⟨queued, ?_⟩
    intro _ x head dirty
    apply told.active running x ?_ dirty
    cases before : s.idequeue with
    | nil =>
      have only : (s.idequeue ++ [b]).head? = some b := by rw [before]; rfl
      exact absurd only first
    | cons y rest =>
      have same : (s.idequeue ++ [b]).head? = some x := head
      rw [before] at same
      exact same

theorem resume (sound : s.Sound) (order : s.Order l) (apart : Set.InjOn (· % 2) devs)
    (resumed : c.resume s p (s.pc p) = some s') : s'.Told devs := by
  cases place : s.pc p <;> rw [place] at resumed <;> unfold Config.resume at resumed
  case out => cases resumed
  case locking dev blockno b =>
    dsimp only at resumed
    split_ifs at resumed with unlocked
    cases resumed
    have used := used_of_referenced (sound.referenced_of_awaits (p := p) (b := b) (by rw [place]; rfl))
    refine told.quiet running used ?_ rfl rfl rfl rfl rfl
    exact ⟨⟨rfl, rfl⟩, rfl, rfl, rfl⟩
  case locked =>
    cases resumed
    exact told.frame running rfl rfl rfl rfl rfl
  case starting =>
    cases resumed
    exact told.iderw running sound apart place
  case waiting =>
    dsimp only at resumed
    split_ifs at resumed
    cases resumed
    exact told.frame running rfl rfl rfl rfl rfl
  case returned => cases resumed
  case logging b =>
    cases resumed
    exact told.append running sound order place
  case released b =>
    cases resumed
    exact told.unref running sound place

theorem complete {rest : List Index} (sound : s.Sound) (order : s.Order l) (queue : s.idequeue = b :: rest) :
    ({ s with idequeue := rest }.put b
      { s.buf b with
        data := if (s.buf b).dirty = false then s.disk ((s.buf b).dev % 2) (s.buf b).blockno else (s.buf b).data
        valid := true
        dirty := false }).Faithful devs := by
  have member : b ∈ s.idequeue := queue ▸ List.mem_cons_self ..
  obtain ⟨p, holder, waits⟩ := sound.queued b member
  obtain ⟨request, place⟩ := Pc.waiting_of_waits waits
  have located := sound.located p
  rw [place] at located
  have used := used_of_referenced (sound.referenced_of_lock holder)
  have inside := told.faithful.named_of_used used
  have sent : (s.buf b).dirty = true →
      s.disk ((s.buf b).dev % 2) (s.buf b).blockno = s.given (s.buf b).dev (s.buf b).blockno := by
    intro dirty
    rw [told.active running b (by rw [queue]; rfl) dirty]
    exact told.faithful.cached b inside located.1.2 (sound.pinned b dirty)
  have here : s.disk ((s.buf b).dev % 2) (s.buf b).blockno = s.given (s.buf b).dev (s.buf b).blockno := by
    by_cases dirty : (s.buf b).dirty = true
    · exact sent dirty
    · apply told.faithful.stored _ _ inside
      intro x names
      by_cases same : x = b
      · rw [same]
        exact eq_false_of_ne_true dirty
      · rw [order.unique same names used]
        rfl
  constructor
  · intro x
    by_cases same : x = b
    · subst same
      simpa using .inr inside
    · simpa [same] using told.faithful.named x
  · intro x
    by_cases same : x = b
    · subst same
      intro _ _ _
      simp only [buf_put, update_self]
      split_ifs with clean
      · exact here
      · have dirty : (s.buf x).dirty = true := by simpa using clean
        exact told.faithful.cached x inside located.1.2 (sound.pinned x dirty)
    · simpa [same] using told.faithful.cached x
  · intro dev blockno inside' clean
    by_cases names : (s.buf b).Names dev blockno
    · obtain ⟨rfl, rfl⟩ := names
      exact here
    · apply told.faithful.stored dev blockno inside'
      intro x names'
      have other : x ≠ b := by
        rintro rfl
        exact names names'
      simpa [other] using clean x (by simpa [other] using names')

theorem ideintr (sound : s.Sound) (order : s.Order l) (apart : Set.InjOn (· % 2) devs) : (s.ideintr false).Told devs := by
  unfold State.ideintr
  cases queue : s.idequeue with
  | nil => exact told
  | cons b rest =>
    have faithful := told.complete running sound order queue
    simp only [and_true]
    cases rest with
    | nil =>
      refine ⟨faithful, ?_⟩
      intro _ x head
      cases head
    | cons x rest =>
      have member : x ∈ s.idequeue := queue ▸ List.mem_cons_of_mem b (List.mem_cons_self ..)
      obtain ⟨p, holder, _⟩ := sound.queued x member
      have once := sound.once
      rw [queue] at once
      have other : x ≠ b := by
        rintro rfl
        exact (List.nodup_cons.mp once).1 (List.mem_cons_self ..)
      have used := used_of_referenced (sound.referenced_of_lock holder)
      refine ⟨faithful.idestart apart ?_, .idestart rfl⟩
      simpa [other] using used

omit running in
theorem «at» : (s.at p stage).Told devs where
  faithful := ⟨told.faithful.named, told.faithful.cached, told.faithful.stored⟩
  active := told.active

theorem commitStep (coherent : s.Coherent) (inside : c.dev ∈ devs) (idle : s.Idle p)
    (staged : s.stage p = some stage) (stepped : c.commitStep s p stage = some s') : s'.Told devs := by
  obtain ⟨l, order⟩ := coherent.order
  have sound := coherent.sound
  have kept := coherent.kept p stage staged
  have located := sound.located p
  cases stage <;> unfold Config.commitStep at stepped
  case check =>
    cases stepped
    exact told.at
  case test loop tail =>
    dsimp only at stepped
    split_ifs at stepped
    · obtain ⟨s₁, got, rfl⟩ := Option.map_eq_some_iff.mp stepped
      exact (told.bget running sound order inside got).at
    · cases stepped
      exact told.at
    · cases stepped
      exact told.at
  case home loop tail =>
    cases place : s.pc p <;> rw [place] at stepped located <;> dsimp only at stepped <;> try cases stepped
    case returned dev blockno log =>
      obtain ⟨s₁, got, rfl⟩ := Option.map_eq_some_iff.mp stepped
      exact (told.bget running sound order inside got).at
  case copy loop tail log =>
    cases place : s.pc p <;> rw [place] at stepped located <;> dsimp only at stepped <;> try cases stepped
    case returned dev blockno home =>
      split_ifs at stepped
      · cases stepped
        exact (told.modify running sound idle kept.1).at
      · cases stepped
        exact (told.modify running sound idle located.1.1).at
  case write =>
    cases stepped
    exact (told.bwrite running sound order idle).at
  case dropSrc =>
    cases stepped
    exact (told.brelse running sound).at
  case dropDst =>
    cases stepped
    exact (told.brelse running sound).at
  case head =>
    obtain ⟨s₁, got, rfl⟩ := Option.map_eq_some_iff.mp stepped
    exact (told.bget running sound order inside got).at
  case fill =>
    cases place : s.pc p <;> rw [place] at stepped located <;> dsimp only at stepped <;> try cases stepped
    case returned dev blockno hb => exact (told.modify running sound idle located.1.1).at
  case writeHead =>
    cases stepped
    exact (told.bwrite running sound order idle).at
  case dropHead =>
    cases stepped
    exact (told.brelse running sound).at
  case clear =>
    cases stepped
    refine Told.at ?_
    exact told.frame running rfl rfl rfl rfl rfl
  case done =>
    cases stepped
    exact told.frame running rfl rfl rfl rfl rfl

end Told

theorem Told.start (disk : Nat → Disk) : (State.start disk).Told devs where
  faithful := by
    refine ⟨fun _ => .inl rfl, ?_, fun _ _ _ _ => rfl⟩
    intro b _ _ valid
    cases valid
  active := by
    intro _ b head
    cases head

end State

/-- The devices that an action names; the drive reports no error. -/
def Action.Within (devs : Set Nat) : Action → Prop
  | .bread _ dev _ => dev ∈ devs
  | .ideintr error => error = false
  | _ => True

instance [DecidablePred (· ∈ devs)] : Decidable (a.Within devs) := by
  unfold Action.Within
  split <;> infer_instance

namespace State

theorem Told.step (told : s.Told devs) (coherent : s.Coherent) (apart : Set.InjOn (· % 2) devs) (inside : c.dev ∈ devs)
    (within : a.Within devs) (taken : c.Takes s a s') : s'.Told devs := by
  obtain ⟨disciplined, stepped⟩ := taken
  unfold Config.step at stepped
  split_ifs at stepped with running
  obtain ⟨l, order⟩ := coherent.order
  have sound := coherent.sound
  cases a <;> unfold Config.act at stepped <;> dsimp only at stepped
  case bread p dev blockno =>
    split_ifs at stepped
    exact told.bget running sound order within stepped
  case modify p b data =>
    split_ifs at stepped with free
    cases stepped
    exact told.modify running sound free.1 disciplined
  case bwrite p b =>
    split_ifs at stepped with free
    cases stepped
    exact told.bwrite running sound order free.1
  case logWrite p b =>
    split_ifs at stepped
    cases stepped
    exact told.logWrite running
  case brelse p b =>
    split_ifs at stepped
    cases stepped
    exact told.brelse running sound
  case beginOp p =>
    split_ifs at stepped
    cases stepped
    unfold State.beginOp
    split_ifs
    · exact told
    · exact told
    · exact told.frame running rfl rfl rfl rfl rfl
  case endOp p =>
    split_ifs at stepped
    cases stepped
    unfold State.endOp
    dsimp only
    split_ifs
    · refine Told.panic ?_ _
      exact told.frame running rfl rfl rfl rfl rfl
    · exact told.frame running rfl rfl rfl rfl rfl
    · exact told.frame running rfl rfl rfl rfl rfl
  case commit p =>
    split_ifs at stepped with idle
    obtain ⟨stage, staged, stepped⟩ := Option.bind_eq_some_iff.mp stepped
    exact told.commitStep running coherent inside idle staged stepped
  case resume p => exact told.resume running sound order apart stepped
  case ideintr error =>
    cases within
    cases stepped
    exact told.ideintr running sound order apart

end State

end Xv6.Buffers
