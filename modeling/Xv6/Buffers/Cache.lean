import Xv6.Buffers.Contents
import Xv6.Log.Recovery

namespace Xv6.Buffers

open Function Links Log Sched Transition

variable {s s' : State} {p q : Slot} {b x : Index} {dev blockno : Nat} {l : List Index} {c : Config} {data : Data}
  {a : Action} {stage : Stage} {v : Buf} {disk : Nat → Disk} {past : List (State × Action)}

namespace State

/-- No buffer has changed its block unless it was free. -/
def Holds (s s' : State) : Prop := ∀ b, (s'.buf b).Same (s.buf b) ∨ (s.buf b).refcnt = 0 ∧ (s.buf b).dirty = false

namespace Holds

theorem of_buf (buf : s'.buf = s.buf) : s.Holds s' := by
  intro b
  rw [buf]
  exact .inl ⟨rfl, rfl⟩

theorem of_update (buf : s'.buf = update s.buf b v) (same : v.Same (s.buf b)) : s.Holds s' := by
  intro x
  rw [buf]
  by_cases here : x = b
  · subst here
    rw [update_self]
    exact .inl same
  · rw [update_of_ne here]
    exact .inl ⟨rfl, rfl⟩

theorem bget (order : s.Order l) (got : s.bget p dev blockno = some s') : s.Holds s' := by
  obtain ⟨_, ends, how⟩ := order.bget p dev blockno
  rw [got] at ends
  cases ends
  cases how with
  | found b => exact of_update rfl ⟨rfl, rfl⟩
  | recycled b absent unused clean =>
    intro x
    by_cases here : x = b
    · subst here
      exact .inr ⟨unused, clean⟩
    · exact .inl (by simp [here, Buf.Same])
  | noBuffers => exact of_buf rfl

theorem bwrite : s.Holds (s.bwrite p b) := by
  unfold State.bwrite
  split_ifs
  · refine of_update rfl ?_
    exact ⟨rfl, rfl⟩
  · exact of_buf rfl

theorem brelse : s.Holds (s.brelse p b) := by
  unfold State.brelse
  split_ifs
  · refine of_update rfl ?_
    exact ⟨rfl, rfl⟩
  · exact of_buf rfl

theorem unref : s.Holds (s.unref p b) := by
  unfold State.unref
  dsimp only
  split_ifs
  · refine of_update rfl ?_
    exact ⟨rfl, rfl⟩
  · refine of_update rfl ?_
    exact ⟨rfl, rfl⟩

theorem idestart (holds : s.Holds s') : s.Holds (s'.idestart b) := by
  obtain ⟨disk, panicked, eq⟩ := idestart_eq (s := s') (b := b)
  rw [eq]
  exact holds

theorem ideintr (error : Bool) : s.Holds (s.ideintr error) := by
  unfold State.ideintr
  cases s.idequeue with
  | nil => exact of_buf rfl
  | cons b rest =>
    dsimp only
    have done : ∀ data, s.Holds ({ s with idequeue := rest }.put b { s.buf b with data := data, valid := true, dirty := false }) := by
      intro data
      refine of_update rfl ?_
      exact ⟨rfl, rfl⟩
    cases rest with
    | nil => exact done _
    | cons x rest => exact (done _).idestart

theorem iderw {request : Request} : s.Holds (c.iderw s p request b) := by
  unfold Config.iderw
  dsimp only
  split_ifs
  · exact of_buf rfl
  · exact of_buf rfl
  · exact of_buf rfl
  · apply idestart
    exact of_buf rfl
  · exact of_buf rfl

theorem logWrite : s.Holds (c.logWrite s p b) := by
  unfold Config.logWrite
  split_ifs
  · exact of_buf rfl
  · exact of_buf rfl
  · exact of_buf rfl

theorem resume {pc : Pc} (resumed : c.resume s p pc = some s') : s.Holds s' := by
  cases pc <;> unfold Config.resume at resumed <;> dsimp only at resumed
  case out => cases resumed
  case locking =>
    split_ifs at resumed
    cases resumed
    refine of_update rfl ?_
    exact ⟨rfl, rfl⟩
  case locked =>
    cases resumed
    exact of_buf rfl
  case starting =>
    cases resumed
    exact iderw
  case waiting =>
    split_ifs at resumed
    cases resumed
    exact of_buf rfl
  case returned => cases resumed
  case logging =>
    cases resumed
    refine of_update rfl ?_
    exact ⟨rfl, rfl⟩
  case released =>
    cases resumed
    exact unref

theorem modify (p : Slot) : s.Holds (s.modify p b data) := by
  refine of_update rfl ?_
  exact ⟨rfl, rfl⟩

theorem commitStep (order : s.Order l) (stepped : c.commitStep s p stage = some s') : s.Holds s' := by
  cases stage <;> unfold Config.commitStep at stepped <;> dsimp only at stepped
  case check =>
    cases stepped
    exact of_buf rfl
  case test loop tail =>
    split_ifs at stepped
    · obtain ⟨s₁, got, rfl⟩ := Option.map_eq_some_iff.mp stepped
      have holds := bget order got
      exact holds
    · cases stepped
      exact of_buf rfl
    · cases stepped
      exact of_buf rfl
  case home =>
    cases place : s.pc p <;> rw [place] at stepped <;> dsimp only at stepped <;> try cases stepped
    obtain ⟨s₁, got, rfl⟩ := Option.map_eq_some_iff.mp stepped
    have holds := bget order got
    exact holds
  case copy =>
    cases place : s.pc p <;> rw [place] at stepped <;> dsimp only at stepped <;> try cases stepped
    split_ifs at stepped
    · cases stepped
      exact modify p
    · cases stepped
      exact modify p
  case write =>
    cases stepped
    exact bwrite
  case dropSrc =>
    cases stepped
    exact brelse
  case dropDst =>
    cases stepped
    exact brelse
  case head =>
    obtain ⟨s₁, got, rfl⟩ := Option.map_eq_some_iff.mp stepped
    have holds := bget order got
    exact holds
  case fill =>
    cases place : s.pc p <;> rw [place] at stepped <;> dsimp only at stepped <;> try cases stepped
    exact modify p
  case writeHead =>
    cases stepped
    exact bwrite
  case dropHead =>
    cases stepped
    exact brelse
  case clear =>
    cases stepped
    exact of_buf rfl
  case done =>
    cases stepped
    exact of_buf rfl

theorem step (order : s.Order l) (stepped : c.step s a = some s') : s.Holds s' := by
  unfold Config.step at stepped
  split_ifs at stepped
  cases a <;> unfold Config.act at stepped <;> dsimp only at stepped
  case bread =>
    split_ifs at stepped
    exact bget order stepped
  case modify p b data =>
    split_ifs at stepped
    cases stepped
    exact modify p
  case bwrite =>
    split_ifs at stepped
    cases stepped
    exact bwrite
  case logWrite =>
    split_ifs at stepped
    cases stepped
    exact logWrite
  case brelse =>
    split_ifs at stepped
    cases stepped
    exact brelse
  case beginOp =>
    split_ifs at stepped
    cases stepped
    unfold State.beginOp
    split_ifs <;> exact of_buf rfl
  case endOp =>
    split_ifs at stepped
    cases stepped
    unfold State.endOp
    dsimp only
    split_ifs <;> exact of_buf rfl
  case commit p =>
    split_ifs at stepped
    obtain ⟨stage, _, stepped⟩ := Option.bind_eq_some_iff.mp stepped
    exact commitStep order stepped
  case resume => exact resume stepped
  case ideintr error =>
    cases stepped
    exact ideintr error

end Holds

end State

theorem coherent_of_run (run : Path c.Takes (.start disk) past s) : s.Coherent :=
  run.always (I := State.Coherent) .start fun coherent taken => coherent.step taken

theorem told_of_run {devs : Set Nat} (apart : Set.InjOn (· % 2) devs) (inside : c.dev ∈ devs)
    (run : Path c.Takes (.start disk) past s) (within : ∀ entry ∈ past, entry.2.Within devs) : s.Told devs := by
  have narrow : Path (fun x a y => c.Takes x a y ∧ a.Within devs) (.start disk) past s := run.restrict within
  have both : s.Coherent ∧ s.Told devs := narrow.always (I := fun s => s.Coherent ∧ s.Told devs) ⟨.start, .start disk⟩
    fun held taken => ⟨held.1.step taken.1, held.2.step held.1 apart inside taken.2 taken.1⟩
  exact both.2

/-- Whatever the processes and `commit` do, the buffers stay in one ring, no block has two of them, none in use is
    taken for another block, and `bread` returns what was last given for the block, if the drive can tell the
    devices apart and reports no error. -/
theorem buffer_cache_coherent (c : Config) (disk : Nat → Disk) {past : List (State × Action)} {s : State}
    (run : Path c.Takes (.start disk) past s) :
    (∃ l, s.lru.Ring l ∧ ∀ b, b ∈ l) ∧
    (∀ p dev blockno, ∃ s', s.bget p dev blockno = some s') ∧
    (∀ b b', b ≠ b' → (s.buf b).Same (s.buf b') →
      (s.buf b).Names 0 0 ∧ (s.buf b = .zero ∨ s.buf b' = .zero)) ∧
    (∀ a s', c.step s a = some s' → ∀ b, ¬ (s'.buf b).Same (s.buf b) →
      (s.buf b).refcnt = 0 ∧ (s.buf b).dirty = false) ∧
    ∀ devs, Set.InjOn (· % 2) devs → c.dev ∈ devs → (∀ entry ∈ past, entry.2.Within devs) →
      ∀ p dev blockno b, s.pc p = .returned dev blockno b →
        (s.buf b).Names dev blockno ∧ (s.buf b).data = s.given dev blockno := by
  have coherent := coherent_of_run run
  have sound := coherent.sound
  obtain ⟨l, order⟩ := coherent.order
  refine ⟨⟨l, order.ring, order.full⟩, ?_, ?_, ?_, ?_⟩
  · intro p dev blockno
    obtain ⟨s', got, _⟩ := order.bget p dev blockno
    exact ⟨s', got⟩
  · intro b b' other same
    by_cases used : s.buf b' = .zero
    · rw [used] at same
      exact ⟨same, .inr used⟩
    · have zero := order.unique other same used
      rw [zero]
      exact ⟨⟨rfl, rfl⟩, .inl rfl⟩
  · intro a s' stepped b moved
    exact (State.Holds.step order stepped b).resolve_left moved
  · intro devs apart inside within p dev blockno b place
    have told := told_of_run apart inside run within
    have located := sound.located p
    rw [place] at located
    obtain ⟨⟨locked, untouched⟩, names⟩ := located
    have fetched : (s.pc p).fetches = none := by rw [place]; rfl
    have valid : (s.buf b).valid = true := by simpa [fetched] using sound.held p b locked
    have used := State.used_of_referenced (sound.referenced_of_lock locked)
    have data := told.faithful.cached b (told.faithful.named_of_used used) untouched valid
    rw [names.1, names.2] at data
    exact ⟨names, data⟩

def imageConfig : Config := ⟨Log.imageLog, 1, true⟩

/-- A step in which every process keeps to the rules for its buffers. -/
def Config.obeyed (c : Config) (s : State) (a : Action) : Option State := if s.Disciplined a then c.step s a else none

def writer : Slot := ⟨0, Sched.nproc_pos⟩

def firstBuffer : Index := ⟨0, by decide⟩

/-- The labels of a `bread` that the drive serves. -/
def fetch (p : Slot) (blockno : Nat) : List Action :=
  [.bread p 1 blockno, .resume p, .resume p, .resume p, .ideintr false, .resume p]

def release (p : Slot) (b : Index) : List Action := [.brelse p b, .resume p]

/-- A process writes block 5. While others have the 29 other buffers, it reads block 60, which takes the buffer of block 5,
    and then block 5 again. -/
def evictsRun : List Action :=
  fetch writer 5 ++ [.modify writer firstBuffer fun _ => 7, .bwrite writer firstBuffer, .resume writer, .ideintr false,
    .resume writer] ++ release writer firstBuffer ++ ((List.finRange NPROC).tail.take 29).map (fun q => .bread q 1 (5 + q)) ++
    fetch writer 60 ++ release writer firstBuffer ++ fetch writer 5

theorem buffer_cache_coherent_of_eviction : ∃ past s, Path (Config.Takes imageConfig) (.start fun _ _ _ => 0) past s ∧
    (∃ entry ∈ past, (entry.1.buf firstBuffer).blockno = 60) ∧ s.pc writer = .returned 1 5 firstBuffer ∧
      (s.buf firstBuffer).data 0 = 7 ∧ (s.buf firstBuffer).data = s.given 1 5 := by
  obtain ⟨past, s, path, passed⟩ := replay_reaches imageConfig.obeyed (.start fun _ _ _ => 0) evictsRun
    (fun past s => decide ((∀ entry ∈ past, entry.2.Within {1}) ∧ (∃ entry ∈ past, (entry.1.buf firstBuffer).blockno = 60) ∧
      s.pc writer = .returned 1 5 firstBuffer ∧ (s.buf firstBuffer).data 0 = 7)) (by decide +kernel)
  obtain ⟨within, evicted, place, data⟩ := of_decide_eq_true passed
  have run : Path imageConfig.Takes (.start fun _ _ _ => 0) past s := by
    apply path.mono
    intro x a y taken
    simp only [Config.obeyed, Option.ite_none_right_eq_some] at taken
    exact taken
  have coherent := (buffer_cache_coherent imageConfig (fun _ _ _ => 0) run).2.2.2.2 {1} (Set.injOn_singleton _ 1) rfl within
  exact ⟨past, s, run, evicted, place, data, (coherent writer 1 5 firstBuffer place).2⟩

end Xv6.Buffers
