import Xv6.Buffers.Calls

namespace Xv6.Buffers

open Function Links Log Sched Tally Transition

variable {s s' s'' : State} {p q : Slot} {b x : Index} {dev blockno : Nat} {l : List Index} {c : Config} {data : Data}
  {a : Action} {stage : Stage} {disk : Nat → Disk} {past : List (State × Action)}

namespace State

/-- If the process holds the buffer, it has not modified it. -/
def Clean (s : State) (p : Slot) (b : Index) : Prop := (s.buf b).lock = some p → s.touched b = false

/-- What `commit` knows of its buffers. -/
def Kept (s : State) (p : Slot) : Stage → Prop
  | .copy _ _ log => s.Keeps p log
  | .write _ _ dst src => src ≠ dst → s.Clean p src
  | .dropSrc _ _ dst src => s.Clean p dst ∧ s.Clean p src
  | .dropDst _ _ dst => s.Clean p dst
  | .dropHead _ hb => s.Clean p hb
  | _ => True

/-- The process gives up no buffer and modifies none. -/
structure Gentle (s s' : State) (p : Slot) : Prop where
  lock : ∀ b, (s.buf b).lock = some p → (s'.buf b).lock = some p
  clean : ∀ b, s.Clean p b → s'.Clean p b

theorem Spares.gentle (spares : s.Spares s' q) : s.Gentle s' q where
  lock b := (spares.lock b).mpr
  clean b clean locked := by
    have before := (spares.lock b).mp locked
    rw [spares.touched b before]
    exact clean before

theorem Kept.mono (gentle : s.Gentle s' p) (kept : s.Kept p stage) : s'.Kept p stage := by
  cases stage
  case copy => exact ⟨gentle.lock _ kept.1, gentle.clean _ (fun _ => kept.2) (gentle.lock _ kept.1)⟩
  case write => exact fun other => gentle.clean _ (kept other)
  case dropSrc => exact ⟨gentle.clean _ kept.1, gentle.clean _ kept.2⟩
  case dropDst => exact gentle.clean _ kept
  case dropHead => exact gentle.clean _ kept
  all_goals trivial

structure Coherent (s : State) : Prop where
  sound : s.Sound
  order : ∃ l, s.Order l
  kept : ∀ p stage, s.stage p = some stage → s.Kept p stage

theorem Coherent.start : (State.start disk).Coherent where
  sound := by
    constructor
    case counted =>
      intro b
      have none : tally (fun p => ((State.start disk).pc p).awaits) = 0 := tally_none
      rw [none]
      rfl
    case fresh => exact fun _ _ _ => rfl
    case pinned =>
      intro b dirty
      cases dirty
    case calm => exact fun _ _ => rfl
    case held =>
      intro p b locked
      cases locked
    case located => exact fun _ => trivial
    case once => exact List.nodup_nil
    case queued =>
      intro b member
      cases member
    case pending =>
      intro b member
      cases member
  order := by
    refine ⟨(List.finRange NBUF).reverse, .init, fun b => List.mem_reverse.mpr (List.mem_finRange b), ?_⟩
    exact List.pairwise_of_forall fun _ _ _ => rfl
  kept := by
    intro p stage staged
    cases staged

namespace Gentle

theorem of_same (lock : ∀ b, (s'.buf b).lock = (s.buf b).lock) (touched : s'.touched = s.touched) : s.Gentle s' p where
  lock b locked := (lock b).trans locked
  clean b clean locked := by
    rw [touched]
    exact clean ((lock b).symm.trans locked)

theorem bget (order : s.Order l) (got : s.bget p dev blockno = some s') : s.Gentle s' q := by
  obtain ⟨_, ends, how⟩ := order.bget p dev blockno
  rw [got] at ends
  cases ends
  cases how with
  | found b =>
    refine of_same ?_ rfl
    intro x
    by_cases here : x = b
    · subst here
      simp
    · simp [here]
  | recycled b =>
    refine of_same ?_ rfl
    intro x
    by_cases here : x = b
    · subst here
      simp
    · simp [here]
  | noBuffers => exact of_same (fun _ => rfl) rfl

theorem idestart (gentle : s.Gentle s' p) (b : Index) : s.Gentle (s'.idestart b) p := by
  obtain ⟨disk, panicked, eq⟩ := idestart_eq (s := s') (b := b)
  rw [eq]
  exact ⟨gentle.lock, gentle.clean⟩

theorem iderw {request : Request} : s.Gentle (c.iderw s p request b) q := by
  unfold Config.iderw
  dsimp only
  split_ifs
  · exact of_same (fun _ => rfl) rfl
  · exact of_same (fun _ => rfl) rfl
  · exact of_same (fun _ => rfl) rfl
  · apply idestart
    exact of_same (fun _ => rfl) rfl
  · exact of_same (fun _ => rfl) rfl

theorem acquiresleep (sound : s.Sound) (unlocked : (s.buf b).lock = none) {pc : Pc} :
    s.Gentle ((s.put b { s.buf b with lock := some p }).goto p pc) p where
  lock x locked := by
    have other : x ≠ b := by
      rintro rfl
      rw [unlocked] at locked
      cases locked
    simpa [other] using locked
  clean x clean locked := by
    by_cases here : x = b
    · subst here
      exact sound.calm x unlocked
    · exact clean (by simpa [here] using locked)

theorem append : s.Gentle (s.append p b) q where
  lock x locked := by
    by_cases here : x = b
    · subst here
      simpa [State.append, give] using locked
    · simpa [State.append, give, here] using locked
  clean x clean locked := by
    by_cases here : x = b
    · subst here
      simp [State.append, give]
    · have before : s.touched x = false := clean (by simpa [State.append, give, here] using locked)
      simpa [State.append, give, here] using before

theorem unref : s.Gentle (s.unref p b) q := by
  unfold State.unref
  dsimp only
  have lock : ∀ x, (update s.buf b { s.buf b with refcnt := (s.buf b).refcnt - 1 } x).lock = (s.buf x).lock := by
    intro x
    by_cases here : x = b
    · subst here
      rw [update_self]
    · rw [update_of_ne here]
  split_ifs
  · exact of_same lock rfl
  · exact of_same lock rfl

theorem resume (sound : s.Sound) (resumed : c.resume s p (s.pc p) = some s') : s.Gentle s' p := by
  cases place : s.pc p <;> rw [place] at resumed <;> unfold Config.resume at resumed
  case out => cases resumed
  case locking dev blockno b =>
    dsimp only at resumed
    split_ifs at resumed with unlocked
    cases resumed
    exact acquiresleep sound unlocked
  case locked =>
    cases resumed
    exact of_same (fun _ => rfl) rfl
  case starting =>
    cases resumed
    exact iderw
  case waiting =>
    dsimp only at resumed
    split_ifs at resumed
    cases resumed
    exact of_same (fun _ => rfl) rfl
  case returned => cases resumed
  case logging b =>
    cases resumed
    exact append
  case released b =>
    cases resumed
    exact unref

end Gentle

namespace Coherent

theorem call (coherent : s.Coherent) (call : s.Call s' p) (own : ∀ stage, s.stage p = some stage → s'.Kept p stage) :
    s'.Coherent where
  sound := call.sound
  order := call.order
  kept q stage staged := by
    rw [call.stage] at staged
    by_cases here : q = p
    · subst here
      exact own stage staged
    · exact (coherent.kept q stage staged).mono (call.others q here).gentle

theorem goes (coherent : s.Coherent) (call : s.Call s' p) (own : s'.Kept p stage) : (s'.at p stage).Coherent where
  sound := call.sound.congr rfl rfl rfl rfl
  order := by
    obtain ⟨l, order⟩ := call.order
    exact ⟨l, order.ring, order.full, order.apart⟩
  kept q stage' staged := by
    have which : (s'.at p stage).stage = update s.stage p (some stage) := by rw [← call.stage]; rfl
    rw [which] at staged
    by_cases here : q = p
    · subst here
      rw [update_self] at staged
      cases staged
      cases stage <;> exact own
    · rw [update_of_ne here] at staged
      have kept := (coherent.kept q stage' staged).mono (call.others q here).gentle
      cases stage' <;> exact kept

theorem ideintr (coherent : s.Coherent) (error : Bool) : (s.ideintr error).Coherent := by
  obtain ⟨l, order⟩ := coherent.order
  have tick := coherent.sound.ideintr order error
  refine ⟨tick.sound, tick.order, ?_⟩
  intro p stage staged
  rw [tick.stage] at staged
  exact (coherent.kept p stage staged).mono (tick.spares p).gentle

end Coherent

theorem bwrite_clean : (s.bwrite p b).Clean p b := by
  unfold State.bwrite
  split_ifs with locked
  · intro _
    simp [give]
  · exact fun holder => absurd holder locked

theorem bwrite_clean_of_ne (other : x ≠ b) (clean : s.Clean p x) : (s.bwrite p b).Clean p x := by
  unfold State.bwrite
  split_ifs
  · intro locked
    have before : s.touched x = false := clean (by simpa [give, other] using locked)
    simpa [give, other] using before
  · exact clean

theorem brelse_clean (clean : s.Clean p x) : (s.brelse p b).Clean p x := by
  unfold State.brelse
  split_ifs
  · intro locked
    by_cases here : x = b
    · subst here
      simp at locked
    · exact clean (by simpa [here] using locked)
  · exact clean

theorem modify_clean (other : x ≠ b) (clean : s.Clean p x) : (s.modify p b data).Clean p x := by
  intro locked
  have before : s.touched x = false := clean (by simpa [State.modify, other] using locked)
  simpa [State.modify, other] using before

namespace Coherent

theorem commitStep (coherent : s.Coherent) (idle : s.Idle p) (staged : s.stage p = some stage)
    (stepped : c.commitStep s p stage = some s') : s'.Coherent := by
  obtain ⟨l, order⟩ := coherent.order
  have sound := coherent.sound
  have kept := coherent.kept p stage staged
  have located := sound.located p
  have stay : s.Call s p := .frame sound order rfl rfl rfl rfl rfl rfl
  cases stage <;> unfold Config.commitStep at stepped
  case check =>
    cases stepped
    split_ifs
    · exact coherent.goes stay trivial
    · exact coherent.goes stay trivial
  case test loop tail =>
    dsimp only at stepped
    split_ifs at stepped
    · obtain ⟨s₁, got, rfl⟩ := Option.map_eq_some_iff.mp stepped
      exact coherent.goes (.bget sound order idle got) trivial
    · cases stepped
      exact coherent.goes stay trivial
    · cases stepped
      exact coherent.goes stay trivial
  case home loop tail =>
    cases place : s.pc p <;> rw [place] at stepped located <;> dsimp only at stepped <;> try cases stepped
    case returned dev blockno log =>
      obtain ⟨s₁, got, rfl⟩ := Option.map_eq_some_iff.mp stepped
      have gentle : s.Gentle s₁ p := .bget order got
      apply coherent.goes (.bget sound order idle got)
      exact ⟨gentle.lock log located.1.1, gentle.clean log (fun _ => located.1.2) (gentle.lock log located.1.1)⟩
  case copy loop tail log =>
    cases place : s.pc p <;> rw [place] at stepped located <;> dsimp only at stepped <;> try cases stepped
    case returned dev blockno home =>
      split_ifs at stepped
      · cases stepped
        apply coherent.goes (.modify sound order idle kept.1 _)
        exact fun other => modify_clean other fun _ => located.1.2
      · cases stepped
        apply coherent.goes (.modify sound order idle located.1.1 _)
        exact fun other => modify_clean other fun _ => kept.2
  case write loop tail dst src =>
    cases stepped
    apply coherent.goes (.bwrite sound order idle dst)
    apply And.intro bwrite_clean
    by_cases same : src = dst
    · subst same
      exact bwrite_clean
    · exact bwrite_clean_of_ne same (kept same)
  case dropSrc loop tail dst src =>
    cases stepped
    exact coherent.goes (.brelse sound order idle src kept.2) (brelse_clean kept.1)
  case dropDst loop tail dst =>
    cases stepped
    exact coherent.goes (.brelse sound order idle dst kept) trivial
  case head erase =>
    obtain ⟨s₁, got, rfl⟩ := Option.map_eq_some_iff.mp stepped
    exact coherent.goes (.bget sound order idle got) trivial
  case fill erase =>
    cases place : s.pc p <;> rw [place] at stepped located <;> dsimp only at stepped <;> try cases stepped
    case returned dev blockno hb => exact coherent.goes (.modify sound order idle located.1.1 _) trivial
  case writeHead erase hb =>
    cases stepped
    exact coherent.goes (.bwrite sound order idle hb) bwrite_clean
  case dropHead erase hb =>
    cases stepped
    split_ifs
    · exact coherent.goes (.brelse sound order idle hb kept) trivial
    · exact coherent.goes (.brelse sound order idle hb kept) trivial
  case clear =>
    cases stepped
    refine coherent.goes ?_ trivial
    exact .frame sound order rfl rfl rfl rfl rfl rfl
  case done =>
    cases stepped
    constructor
    · exact sound.congr rfl rfl rfl rfl
    · exact ⟨l, order.ring, order.full, order.apart⟩
    · intro q stage staged
      by_cases here : q = p
      · subst here
        simp at staged
      · have before : s.stage q = some stage := by simpa [here] using staged
        have kept := coherent.kept q stage before
        cases stage <;> exact kept

theorem step (coherent : s.Coherent) (taken : c.Takes s a s') : s'.Coherent := by
  obtain ⟨disciplined, stepped⟩ := taken
  unfold Config.step at stepped
  split_ifs at stepped
  obtain ⟨l, order⟩ := coherent.order
  have sound := coherent.sound
  have user : ∀ {s' : State} {p : Slot}, s.stage p = none → s.Call s' p → s'.Coherent := by
    intro s' p free call
    apply coherent.call call
    intro stage staged
    rw [free] at staged
    cases staged
  cases a <;> unfold Config.act at stepped <;> dsimp only at stepped
  case bread p dev blockno =>
    split_ifs at stepped with free
    exact user free.2 (.bget sound order free.1 stepped)
  case modify p b data =>
    split_ifs at stepped with free
    cases stepped
    exact user free.2 (.modify sound order free.1 disciplined data)
  case bwrite p b =>
    split_ifs at stepped with free
    cases stepped
    exact user free.2 (.bwrite sound order free.1 b)
  case logWrite p b =>
    split_ifs at stepped with free
    cases stepped
    exact user free.2 (.logWrite sound order free.1 disciplined)
  case brelse p b =>
    split_ifs at stepped with free
    cases stepped
    exact user free.2 (.brelse sound order free.1 b disciplined)
  case beginOp p =>
    split_ifs at stepped with free
    cases stepped
    unfold State.beginOp
    split_ifs
    · exact coherent
    · exact coherent
    · exact user free.2 (.frame sound order rfl rfl rfl rfl rfl rfl)
  case endOp p =>
    split_ifs at stepped with free
    cases stepped
    unfold State.endOp
    dsimp only
    split_ifs
    · exact user free.2 (.frame sound order rfl rfl rfl rfl rfl rfl)
    · show (({ s with outstanding := s.outstanding - 1, committing := true } : State).at p .check).Coherent
      refine coherent.goes ?_ trivial
      exact .frame sound order rfl rfl rfl rfl rfl rfl
    · exact user free.2 (.frame sound order rfl rfl rfl rfl rfl rfl)
  case commit p =>
    split_ifs at stepped with idle
    obtain ⟨stage, staged, stepped⟩ := Option.bind_eq_some_iff.mp stepped
    exact coherent.commitStep idle staged stepped
  case resume p =>
    have call : s.Call s' p := .resume sound order stepped
    exact coherent.call call fun stage staged => (coherent.kept p stage staged).mono (.resume sound stepped)
  case ideintr error =>
    cases stepped
    exact coherent.ideintr error

end Coherent

end State

end Xv6.Buffers
