import Xv6.Buffers.Cache

namespace Xv6.Buffers

open Function Log Sched

variable {s s' s'' : State} {p q r : Slot} {b x : Index} {dev blockno : Nat} {l : List Index} {c : Config} {request : Request}

/-- The buffer that a process is writing to the disk. -/
def Pc.writes : Pc → Option Index
  | .starting .write b => some b
  | .waiting .write b => some b
  | _ => none

/-- The buffer that a process is reading from the disk. -/
def Pc.asks : Pc → Option Index
  | .starting (.read ..) b => some b
  | .waiting (.read ..) b => some b
  | _ => none

/-- The process is in a `bread` of the block, or has just got it. -/
def Pc.Reads (dev blockno : Nat) : Pc → Prop
  | .locking d n _ => d = dev ∧ n = blockno
  | .locked d n _ => d = dev ∧ n = blockno
  | .starting (.read d n) _ => d = dev ∧ n = blockno
  | .waiting (.read d n) _ => d = dev ∧ n = blockno
  | .returned d n _ => d = dev ∧ n = blockno
  | _ => False

theorem State.Idle.writes (idle : s.Idle p) : (s.pc p).writes = none := by
  unfold State.Idle at idle
  cases place : s.pc p <;> rw [place] at idle
  case out => rfl
  case returned => rfl
  all_goals cases idle

namespace State

/-- A step of one process, or of the disk, that gives nothing to the log or to the disk. -/
structure Mild (s s' : State) (who : Option Slot) : Prop where
  given : s'.given = s.given
  block : s'.block = s.block
  stage : s'.stage = s.stage
  committing : s'.committing = s.committing
  outstanding : s'.outstanding = s.outstanding
  pcs : ∀ r, who ≠ some r → s'.pc r = s.pc r
  writes : ∀ r b, (s'.pc r).writes = some b → (s.pc r).writes = some b
  asks : ∀ r b, (s'.pc r).asks = some b → (s.pc r).asks = some b ∨ (s'.buf b).dirty = false
  dirty : ∀ b, (s'.buf b).dirty = true → (s.buf b).dirty = true ∧ (s'.buf b).Same (s.buf b)
  same : ∀ b, (s.buf b).lock ≠ none → (s'.buf b).Same (s.buf b)
  data : ∀ b r, (s.buf b).lock = some r → who ≠ some r → (s.pc r).asks ≠ some b → (s'.buf b).data = (s.buf b).data
  lock : ∀ b r, (s.buf b).lock = some r → (s'.buf b).lock = some r ∨ who = some r ∧ s'.pc r = .released b

/-- What a step sends to the disk is a block that a process is writing. -/
def Sends (s s' : State) : Prop :=
  s'.disk = s.disk ∨ ∃ p b, (s.pc p).writes = some b ∧ (s.buf b).lock = some p ∧
    s'.disk = update s.disk ((s.buf b).dev % 2) (update (s.disk ((s.buf b).dev % 2)) (s.buf b).blockno (s.buf b).data)

namespace Mild

section Pcs

variable {pc : Pc}

theorem pcs_of (pcs : s'.pc = update s.pc q pc) (r : Slot) (other : some q ≠ some r) : s'.pc r = s.pc r := by
  rw [pcs, update_of_ne fun same => other (congrArg some same.symm)]

theorem writes_of (pcs : s'.pc = update s.pc q pc) (own : ∀ b, pc.writes = some b → (s.pc q).writes = some b) (r : Slot)
    (b : Index) (writes : (s'.pc r).writes = some b) : (s.pc r).writes = some b := by
  rw [pcs] at writes
  by_cases here : r = q
  · subst here
    rw [update_self] at writes
    exact own b writes
  · rwa [update_of_ne here] at writes

theorem asks_of (pcs : s'.pc = update s.pc q pc) (own : ∀ b, pc.asks = some b → (s'.buf b).dirty = false) (r : Slot)
    (b : Index) (asks : (s'.pc r).asks = some b) : (s.pc r).asks = some b ∨ (s'.buf b).dirty = false := by
  rw [pcs] at asks
  by_cases here : r = q
  · subst here
    rw [update_self] at asks
    exact Or.inr (own b asks)
  · rw [update_of_ne here] at asks
    exact Or.inl asks

end Pcs

theorem refl (s : State) (who : Option Slot) : s.Mild s who :=
  ⟨rfl, rfl, rfl, rfl, rfl, fun _ _ => rfl, fun _ _ => id, fun _ _ => Or.inl, fun _ dirty => ⟨dirty, rfl, rfl⟩,
    fun _ _ => ⟨rfl, rfl⟩, fun _ _ _ _ _ => rfl, fun _ _ => Or.inl⟩

theorem of_buf (buf : s'.buf = s.buf) (given : s'.given = s.given) (block : s'.block = s.block)
    (stage : s'.stage = s.stage) (committing : s'.committing = s.committing) (outstanding : s'.outstanding = s.outstanding)
    {pc : Pc} (pcs : s'.pc = update s.pc q pc) (writes : ∀ b, pc.writes = some b → (s.pc q).writes = some b)
    (asks : ∀ b, pc.asks = some b → (s.buf b).dirty = false) : s.Mild s' (some q) := by
  constructor
  case given => exact given
  case block => exact block
  case stage => exact stage
  case committing => exact committing
  case outstanding => exact outstanding
  case pcs => exact pcs_of pcs
  case writes => exact writes_of pcs writes
  case asks => exact asks_of pcs (buf ▸ asks)
  case dirty =>
    intro b dirty
    rw [buf] at dirty ⊢
    exact ⟨dirty, rfl, rfl⟩
  case same =>
    intro b _
    rw [buf]
    exact ⟨rfl, rfl⟩
  case data =>
    intro b r _ _ _
    rw [buf]
  case lock =>
    intro b r locked
    rw [buf]
    exact Or.inl locked

/-- A step that changes one buffer and goes on to where the process neither reads nor writes. -/
theorem of_update {v : Buf} (buf : s'.buf = update s.buf b v) (given : s'.given = s.given)
    (block : s'.block = s.block) (stage : s'.stage = s.stage) (committing : s'.committing = s.committing)
    (outstanding : s'.outstanding = s.outstanding) {pc : Pc} (pcs : s'.pc = update s.pc q pc) (writes : pc.writes = none)
    (asks : pc.asks = none) (dirty : v.dirty = true → (s.buf b).dirty = true)
    (same : v.Same (s.buf b) ∨ (s.buf b).lock = none ∧ v.dirty = false)
    (data : ∀ r, (s.buf b).lock = some r → r ≠ q → v.data = (s.buf b).data)
    (lock : ∀ r, (s.buf b).lock = some r → v.lock = some r ∨ r = q ∧ pc = .released b) : s.Mild s' (some q) := by
  constructor
  case given => exact given
  case block => exact block
  case stage => exact stage
  case committing => exact committing
  case outstanding => exact outstanding
  case pcs => exact pcs_of pcs
  case writes =>
    refine writes_of pcs fun x writing => ?_
    rw [writes] at writing
    cases writing
  case asks =>
    refine asks_of pcs fun x asking => ?_
    rw [asks] at asking
    cases asking
  case dirty =>
    intro x now
    rw [buf] at now ⊢
    by_cases here : x = b
    · subst here
      rw [update_self] at now ⊢
      refine ⟨dirty now, same.resolve_right ?_⟩
      rintro ⟨-, clean⟩
      rw [clean] at now
      cases now
    · rw [update_of_ne here] at now ⊢
      exact ⟨now, rfl, rfl⟩
  case same =>
    intro x locked
    rw [buf]
    by_cases here : x = b
    · subst here
      rw [update_self]
      exact same.resolve_right fun unlocked => locked unlocked.1
    · rw [update_of_ne here]
      exact ⟨rfl, rfl⟩
  case data =>
    intro x r locked other _
    rw [buf]
    by_cases here : x = b
    · subst here
      rw [update_self]
      exact data r locked fun same => other (congrArg some same.symm)
    · rw [update_of_ne here]
  case lock =>
    intro x r locked
    rw [buf]
    by_cases here : x = b
    · subst here
      rw [update_self]
      apply (lock r locked).imp_right
      rintro ⟨rfl, released⟩
      rw [pcs, update_self]
      exact ⟨rfl, released⟩
    · rw [update_of_ne here]
      exact Or.inl locked

theorem bget (sound : s.Sound) (order : s.Order l) (got : s.bget p dev blockno = some s') (running : s'.panicked = none) :
    s.Mild s' (some p) ∧ (s'.pc p).Reads dev blockno ∧ (∀ b, s'.pc p ≠ .released b) ∧ s'.disk = s.disk := by
  obtain ⟨_, ends, how⟩ := order.bget p dev blockno
  rw [got] at ends
  cases ends
  cases how with
  | found b =>
    refine ⟨of_update (b := b) rfl rfl rfl rfl rfl rfl rfl rfl rfl id (Or.inl ⟨rfl, rfl⟩) ?_ ?_, ?_, ?_, rfl⟩
    · exact fun _ _ _ => rfl
    · exact fun _ locked => Or.inl locked
    · rw [pc_goto, update_self]
      exact ⟨rfl, rfl⟩
    · rw [pc_goto, update_self]
      nofun
  | recycled b absent unused clean =>
    have unlocked := sound.unlocked unused
    refine ⟨of_update (b := b) rfl rfl rfl rfl rfl rfl rfl rfl rfl nofun (Or.inr ⟨unlocked, rfl⟩) ?_ ?_, ?_, ?_, rfl⟩
    · intro r locked
      rw [unlocked] at locked
      cases locked
    · exact fun _ locked => Or.inl locked
    · rw [pc_goto, update_self]
      exact ⟨rfl, rfl⟩
    · rw [pc_goto, update_self]
      nofun
  | noBuffers => cases running

theorem modify (locked : (s.buf b).lock = some p) (data : Data) : s.Mild (s.modify p b data) (some p) := by
  refine of_update (b := b) rfl rfl rfl rfl rfl rfl rfl rfl rfl id (Or.inl ⟨rfl, rfl⟩) ?_ ?_
  · intro r holder other
    rw [locked] at holder
    exact absurd (Option.some.inj holder).symm other
  · exact fun _ locked => Or.inl locked

theorem brelse (running : (s.brelse p b).panicked = none) :
    s.Mild (s.brelse p b) (some p) ∧ (s.brelse p b).pc p = .released b ∧ (s.brelse p b).disk = s.disk := by
  unfold State.brelse at running ⊢
  split_ifs at running ⊢ with locked
  · refine ⟨of_update (b := b) rfl rfl rfl rfl rfl rfl rfl rfl rfl id (Or.inl ⟨rfl, rfl⟩) ?_ ?_, update_self .., rfl⟩
    · exact fun _ _ _ => rfl
    · intro r holder
      rw [locked] at holder
      exact Or.inr ⟨(Option.some.inj holder).symm, rfl⟩
  · cases running

theorem unref : s.Mild (s.unref p b) (some p) ∧ (s.unref p b).disk = s.disk := by
  unfold State.unref
  dsimp only
  split_ifs
  · refine ⟨of_update (b := b) rfl rfl rfl rfl rfl rfl rfl rfl rfl id (Or.inl ⟨rfl, rfl⟩) ?_ ?_, rfl⟩
    · exact fun _ _ _ => rfl
    · exact fun _ locked => Or.inl locked
  · refine ⟨of_update (b := b) rfl rfl rfl rfl rfl rfl rfl rfl rfl id (Or.inl ⟨rfl, rfl⟩) ?_ ?_, rfl⟩
    · exact fun _ _ _ => rfl
    · exact fun _ locked => Or.inl locked

end Mild

theorem idestart_cases (running : (s.idestart b).panicked = none) :
    s.idestart b = s ∨ (s.buf b).dirty = true ∧ s.idestart b = { s with
      disk := update s.disk ((s.buf b).dev % 2) (update (s.disk ((s.buf b).dev % 2)) (s.buf b).blockno (s.buf b).data) } := by
  unfold State.idestart at running ⊢
  dsimp only at running ⊢
  split_ifs at running ⊢ with high dirty
  · cases running
  · exact Or.inr ⟨dirty, rfl⟩
  · exact Or.inl rfl

theorem iderw_cases (place : s.pc p = .starting request b) (locked : (s.buf b).lock = some p)
    (asking : ∀ x, (s.pc p).asks = some x → (s.buf x).dirty = false) (running : (c.iderw s p request b).panicked = none) :
    ∃ disk, c.iderw s p request b = { s with
      idequeue := s.idequeue ++ [b]
      disk := disk
      pc := update s.pc p (.waiting request b) } ∧ s.Sends (c.iderw s p request b) := by
  unfold Config.iderw at running ⊢
  dsimp only at running ⊢
  split_ifs at running ⊢
  · cases running
  · cases running
  · cases running
  · rcases idestart_cases running with none | ⟨dirty, sent⟩
    · rw [none]
      exact ⟨s.disk, rfl, Or.inl rfl⟩
    · rw [sent]
      refine ⟨_, rfl, Or.inr ⟨p, b, ?_, locked, rfl⟩⟩
      cases request with
      | write =>
        rw [place]
        rfl
      | read dev blockno =>
        have clean := asking b (by rw [place]; rfl)
        have dirty : (s.buf b).dirty = true := dirty
        rw [clean] at dirty
        cases dirty
  · exact ⟨s.disk, rfl, Or.inl rfl⟩

/-- The steps in a call other than `log_write`. -/
structure Goes (s s' : State) (p : Slot) : Prop where
  mild : s.Mild s' (some p)
  sends : s.Sends s'
  released : ∀ b, s'.pc p ≠ .released b
  logging : ∀ b, s'.pc p ≠ .logging b
  reads : ∀ dev blockno, (s.pc p).Reads dev blockno → (s'.pc p).Reads dev blockno
  data : ∀ b, (s'.buf b).data = (s.buf b).data
  finished : ∀ b, (s.pc p).writes = some b → (s'.pc p).writes ≠ some b → (s.buf b).dirty = false

theorem Goes.of_mild (pc : Pc) (own : s'.pc p = pc) (mild : s.Mild s' (some p)) (sends : s.Sends s')
    (released : ∀ b, pc ≠ .released b) (logging : ∀ b, pc ≠ .logging b)
    (reads : ∀ dev blockno, (s.pc p).Reads dev blockno → pc.Reads dev blockno)
    (data : ∀ b, (s'.buf b).data = (s.buf b).data)
    (finished : ∀ b, (s.pc p).writes = some b → pc.writes ≠ some b → (s.buf b).dirty = false) : s.Goes s' p := by
  subst own
  exact ⟨mild, sends, released, logging, reads, data, finished⟩

theorem Goes.resume (sound : s.Sound) (asking : ∀ b, (s.pc p).asks = some b → (s.buf b).dirty = false)
    (resumed : c.resume s p (s.pc p) = some s') (running : s'.panicked = none) (quiet : ∀ b, s.pc p ≠ .logging b) :
    s.Goes s' p := by
  have located := sound.located p
  cases place : s.pc p <;> rw [place] at resumed located <;> unfold Config.resume at resumed
  case out => cases resumed
  case locking dev blockno b =>
    dsimp only at resumed
    split_ifs at resumed with unlocked
    cases resumed
    refine .of_mild (.locked dev blockno b) (update_self ..) ?_ (Or.inl rfl) nofun nofun ?_ ?_ ?_
    · refine .of_update (b := b) rfl rfl rfl rfl rfl rfl rfl rfl rfl id (Or.inl ⟨rfl, rfl⟩) ?_ ?_
      · exact fun _ _ _ => rfl
      · intro r locked
        rw [unlocked] at locked
        cases locked
    · intro d n reads
      rw [place] at reads
      exact reads
    · intro x
      by_cases here : x = b
      · subst here
        simp
      · simp [here]
    · intro x writes
      rw [place] at writes
      cases writes
  case locked dev blockno b =>
    cases resumed
    by_cases valid : (s.buf b).valid = true
    · rw [if_pos valid]
      refine .of_mild (.returned dev blockno b) (update_self ..) ?_ (Or.inl rfl) nofun nofun ?_ (fun _ => rfl) ?_
      · exact .of_buf rfl rfl rfl rfl rfl rfl rfl nofun nofun
      · intro d n reads
        rw [place] at reads
        exact reads
      · intro x writes
        rw [place] at writes
        cases writes
    · rw [if_neg valid]
      refine .of_mild (.starting (.read dev blockno) b) (update_self ..) ?_ (Or.inl rfl) nofun nofun ?_ (fun _ => rfl) ?_
      · refine .of_buf rfl rfl rfl rfl rfl rfl rfl nofun ?_
        rintro x ⟨⟩
        by_contra dirty
        exact valid (sound.pinned b (eq_true_of_ne_false dirty))
      · intro d n reads
        rw [place] at reads
        exact reads
      · intro x writes
        rw [place] at writes
        cases writes
  case starting request b =>
    cases resumed
    have clean := asking
    rw [place] at clean
    obtain ⟨disk, same, sends⟩ := iderw_cases place located.1.1 asking running
    rw [same] at sends ⊢
    refine .of_mild (.waiting request b) (update_self ..) ?_ sends nofun nofun ?_ (fun _ => rfl) ?_
    · cases request with
      | write =>
        refine .of_buf rfl rfl rfl rfl rfl rfl rfl ?_ nofun
        intro x writes
        rw [place]
        exact writes
      | read dev blockno => exact .of_buf rfl rfl rfl rfl rfl rfl rfl nofun clean
    · intro d n reads
      rw [place] at reads
      cases request <;> exact reads
    · intro x writes waits
      rw [place] at writes
      cases request <;> exact absurd writes waits
  case waiting request b =>
    dsimp only at resumed
    split_ifs at resumed with finished
    cases resumed
    refine .of_mild (request.result b) (update_self ..) ?_ (Or.inl rfl) ?_ ?_ ?_ (fun _ => rfl) ?_
    · cases request with
      | write => exact .of_buf rfl rfl rfl rfl rfl rfl rfl nofun nofun
      | read dev blockno => exact .of_buf rfl rfl rfl rfl rfl rfl rfl nofun nofun
    · cases request <;> nofun
    · cases request <;> nofun
    · intro d n reads
      rw [place] at reads
      cases request with
      | write => exact reads
      | read dev blockno => exact reads
    · intro x writes _
      rw [place] at writes
      cases request with
      | write =>
        cases writes
        exact finished.2
      | read dev blockno => cases writes
  case returned => cases resumed
  case logging b => exact absurd place (quiet b)
  case released b =>
    cases resumed
    have out : (s.unref p b).pc p = .out := by
      unfold State.unref
      dsimp only
      split_ifs <;> exact update_self ..
    refine .of_mild _ out Mild.unref.1 (Or.inl Mild.unref.2) nofun nofun ?_ ?_ ?_
    · intro d n reads
      rw [place] at reads
      exact reads
    · intro x
      have buf : (s.unref p b).buf = update s.buf b { s.buf b with refcnt := (s.buf b).refcnt - 1 } := by
        unfold State.unref
        dsimp only
        split_ifs <;> rfl
      rw [buf]
      by_cases here : x = b
      · subst here
        rw [update_self]
      · rw [update_of_ne here]
    · intro x writes
      rw [place] at writes
      cases writes

theorem Mild.complete {rest : List Index} {data : Data} (sound : s.Sound) (queue : s.idequeue = b :: rest)
    (kept : (s.buf b).dirty = true → data = (s.buf b).data) (disk : Nat → Disk) :
    s.Mild { { s with idequeue := rest }.put b { s.buf b with data := data, valid := true, dirty := false } with disk := disk }
      none := by
  constructor
  case given => rfl
  case block => rfl
  case stage => rfl
  case committing => rfl
  case outstanding => rfl
  case pcs => exact fun _ _ => rfl
  case writes => exact fun _ _ => id
  case asks => exact fun _ _ => Or.inl
  case dirty =>
    intro x dirty
    rw [buf_put] at dirty ⊢
    by_cases here : x = b
    · subst here
      rw [update_self] at dirty
      cases dirty
    · rw [update_of_ne here] at dirty ⊢
      exact ⟨dirty, rfl, rfl⟩
  case same =>
    intro x _
    rw [buf_put]
    by_cases here : x = b
    · subst here
      rw [update_self]
      exact ⟨rfl, rfl⟩
    · rw [update_of_ne here]
      exact ⟨rfl, rfl⟩
  case data =>
    intro x r locked _ silent
    rw [buf_put]
    by_cases here : x = b
    · subst here
      have member : x ∈ s.idequeue := queue ▸ List.mem_cons_self
      obtain ⟨p, holder, waits⟩ := sound.queued x member
      rw [locked] at holder
      cases holder
      obtain ⟨request, place⟩ := Pc.waiting_of_waits waits
      rw [place] at silent
      rw [update_self]
      cases request with
      | read dev blockno => exact absurd rfl silent
      | write =>
        have valid := (sound.held r x locked).resolve_right (by rw [place]; exact nofun)
        exact kept ((sound.pending x member).resolve_left (by rw [valid]; exact nofun))
    · rw [update_of_ne here]
  case lock =>
    intro x r locked
    rw [buf_put]
    by_cases here : x = b
    · subst here
      rw [update_self]
      exact Or.inl locked
    · rw [update_of_ne here]
      exact Or.inl locked

/-- A buffer with something to write is in the queue because a process writes it. -/
theorem Sound.writing (sound : s.Sound) (asking : ∀ p b, (s.pc p).asks = some b → (s.buf b).dirty = false)
    (member : x ∈ s.idequeue) (dirty : (s.buf x).dirty = true) : ∃ p, (s.pc p).writes = some x ∧ (s.buf x).lock = some p := by
  obtain ⟨p, locked, waits⟩ := sound.queued x member
  obtain ⟨request, place⟩ := Pc.waiting_of_waits waits
  refine ⟨p, ?_, locked⟩
  cases request with
  | write =>
    rw [place]
    rfl
  | read dev blockno =>
    have clean := asking p x (by rw [place]; rfl)
    rw [clean] at dirty
    cases dirty

theorem Mild.ideintr (sound : s.Sound) (asking : ∀ p b, (s.pc p).asks = some b → (s.buf b).dirty = false)
    (running : (s.ideintr false).panicked = none) : s.Mild (s.ideintr false) none ∧ s.Sends (s.ideintr false) := by
  cases queue : s.idequeue with
  | nil =>
    have same : s.ideintr false = s := by rw [State.ideintr, queue]
    rw [same]
    exact ⟨.refl s none, Or.inl rfl⟩
  | cons b rest =>
    have read : (s.buf b).dirty = true →
        (if (s.buf b).dirty = false ∧ false = false then s.disk ((s.buf b).dev % 2) (s.buf b).blockno else (s.buf b).data) =
          (s.buf b).data := by
      intro dirty
      rw [dirty]
      rfl
    have mild := Mild.complete sound queue read
    cases rest with
    | nil =>
      rw [State.ideintr, queue]
      exact ⟨mild s.disk, Or.inl rfl⟩
    | cons x rest =>
      have once := sound.once
      rw [queue] at once
      have other : x ≠ b := by
        rintro rfl
        exact (List.nodup_cons.mp once).1 List.mem_cons_self
      have next : x ∈ s.idequeue := queue ▸ List.mem_cons_of_mem b List.mem_cons_self
      rw [State.ideintr, queue] at running ⊢
      dsimp only [List.head?_cons, Option.elim_some] at running ⊢
      rcases idestart_cases running with none | ⟨dirty, sent⟩
      · rw [none]
        exact ⟨mild s.disk, Or.inl rfl⟩
      · rw [sent]
        rw [buf_put, update_of_ne other] at dirty ⊢
        obtain ⟨p, writes, locked⟩ := sound.writing asking next dirty
        exact ⟨mild _, Or.inr ⟨p, x, writes, locked, rfl⟩⟩

/-- The disk is as it was, and no commit begins or ends. -/
structure Still (s s' : State) : Prop where
  disk : s'.disk = s.disk
  committing : s'.committing = s.committing

namespace Still

theorem bget (got : s.bget p dev blockno = some s') : s.Still s' := by
  unfold State.bget at got
  split at got
  · cases got
    exact ⟨rfl, rfl⟩
  · split at got
    · cases got
      exact ⟨rfl, rfl⟩
    · cases got
      exact ⟨rfl, rfl⟩
    · cases got
  · cases got

theorem bwrite : s.Still (s.bwrite p b) := by
  unfold State.bwrite
  split_ifs
  · exact ⟨rfl, rfl⟩
  · exact ⟨rfl, rfl⟩

theorem brelse : s.Still (s.brelse p b) := by
  unfold State.brelse
  split_ifs
  · exact ⟨rfl, rfl⟩
  · exact ⟨rfl, rfl⟩

theorem unref : s.Still (s.unref p b) := by
  unfold State.unref
  dsimp only
  split_ifs
  · exact ⟨rfl, rfl⟩
  · exact ⟨rfl, rfl⟩

theorem idestart (stopped : (s.idestart b).panicked ≠ none) (running : s.panicked = none) : s.Still (s.idestart b) := by
  unfold State.idestart at stopped ⊢
  dsimp only at stopped ⊢
  split_ifs at stopped ⊢
  · exact ⟨rfl, rfl⟩
  · exact absurd running stopped
  · exact ⟨rfl, rfl⟩

theorem iderw (stopped : (c.iderw s p request b).panicked ≠ none) (running : s.panicked = none) :
    s.Still (c.iderw s p request b) := by
  unfold Config.iderw at stopped ⊢
  dsimp only at stopped ⊢
  split_ifs at stopped ⊢
  · exact ⟨rfl, rfl⟩
  · exact ⟨rfl, rfl⟩
  · exact ⟨rfl, rfl⟩
  · have still := idestart stopped running
    exact ⟨still.disk, still.committing⟩
  · exact ⟨rfl, rfl⟩

theorem ideintr {error : Bool} (stopped : (s.ideintr error).panicked ≠ none) (running : s.panicked = none) :
    s.Still (s.ideintr error) := by
  cases queue : s.idequeue with
  | nil =>
    rw [State.ideintr, queue]
    exact ⟨rfl, rfl⟩
  | cons b rest =>
    cases rest with
    | nil =>
      rw [State.ideintr, queue]
      exact ⟨rfl, rfl⟩
    | cons x rest =>
      rw [State.ideintr, queue] at stopped ⊢
      dsimp only [List.head?_cons, Option.elim_some] at stopped ⊢
      have still := idestart stopped running
      exact ⟨still.disk, still.committing⟩

theorem logWrite : s.Still (c.logWrite s p b) := by
  unfold Config.logWrite
  split_ifs
  · exact ⟨rfl, rfl⟩
  · exact ⟨rfl, rfl⟩
  · exact ⟨rfl, rfl⟩

theorem resume (resumed : c.resume s p (s.pc p) = some s') (stopped : s'.panicked ≠ none) (running : s.panicked = none) :
    s.Still s' := by
  cases place : s.pc p <;> rw [place] at resumed <;> unfold Config.resume at resumed
  case out => cases resumed
  case locking =>
    dsimp only at resumed
    split_ifs at resumed
    cases resumed
    exact ⟨rfl, rfl⟩
  case locked =>
    cases resumed
    exact ⟨rfl, rfl⟩
  case starting request b =>
    cases resumed
    exact iderw stopped running
  case waiting =>
    dsimp only at resumed
    split_ifs at resumed
    cases resumed
    exact ⟨rfl, rfl⟩
  case returned => cases resumed
  case logging =>
    cases resumed
    exact ⟨rfl, rfl⟩
  case released =>
    cases resumed
    exact unref

theorem commitStep {stage : Stage} (stepped : c.commitStep s p stage = some s') (stopped : s'.panicked ≠ none)
    (running : s.panicked = none) : s.Still s' := by
  have moved : ∀ {s₁ : State} {next : Stage}, s.Still s₁ → s.Still (s₁.at p next) := fun still => ⟨still.disk, still.committing⟩
  cases stage <;> unfold Config.commitStep at stepped
  case check =>
    cases stepped
    exact moved ⟨rfl, rfl⟩
  case test =>
    dsimp only at stepped
    split_ifs at stepped
    · obtain ⟨s₁, got, rfl⟩ := Option.map_eq_some_iff.mp stepped
      exact moved (bget got)
    · cases stepped
      exact moved ⟨rfl, rfl⟩
    · cases stepped
      exact moved ⟨rfl, rfl⟩
  case home =>
    cases place : s.pc p <;> rw [place] at stepped <;> dsimp only at stepped <;> try cases stepped
    case returned =>
      obtain ⟨s₁, got, rfl⟩ := Option.map_eq_some_iff.mp stepped
      exact moved (bget got)
  case copy =>
    cases place : s.pc p <;> rw [place] at stepped <;> dsimp only at stepped <;> try cases stepped
    case returned =>
      split_ifs at stepped
      · cases stepped
        exact moved ⟨rfl, rfl⟩
      · cases stepped
        exact moved ⟨rfl, rfl⟩
  case write =>
    cases stepped
    exact moved bwrite
  case dropSrc =>
    cases stepped
    exact moved brelse
  case dropDst =>
    cases stepped
    exact moved brelse
  case head =>
    obtain ⟨s₁, got, rfl⟩ := Option.map_eq_some_iff.mp stepped
    exact moved (bget got)
  case fill =>
    cases place : s.pc p <;> rw [place] at stepped <;> dsimp only at stepped <;> try cases stepped
    case returned => exact moved ⟨rfl, rfl⟩
  case writeHead =>
    cases stepped
    exact moved bwrite
  case dropHead =>
    cases stepped
    exact moved brelse
  case clear =>
    cases stepped
    exact moved ⟨rfl, rfl⟩
  case done =>
    cases stepped
    exact absurd running stopped

theorem endOp (stopped : (s.endOp p).panicked ≠ none) (running : s.panicked = none) : s.Still (s.endOp p) := by
  unfold State.endOp at stopped ⊢
  dsimp only at stopped ⊢
  split_ifs at stopped ⊢
  · exact ⟨rfl, rfl⟩
  · exact absurd running stopped
  · exact ⟨rfl, rfl⟩

theorem step {a : Action} (stepped : c.step s a = some s') (stopped : s'.panicked ≠ none) : s.Still s' := by
  unfold Config.step at stepped
  split_ifs at stepped with running
  cases a <;> unfold Config.act at stepped <;> dsimp only at stepped
  case bread =>
    split_ifs at stepped
    exact bget stepped
  case modify =>
    split_ifs at stepped
    cases stepped
    exact ⟨rfl, rfl⟩
  case bwrite =>
    split_ifs at stepped
    cases stepped
    exact bwrite
  case logWrite =>
    split_ifs at stepped
    cases stepped
    exact logWrite
  case brelse =>
    split_ifs at stepped
    cases stepped
    exact brelse
  case beginOp =>
    split_ifs at stepped
    cases stepped
    unfold State.beginOp
    split_ifs
    · exact ⟨rfl, rfl⟩
    · exact ⟨rfl, rfl⟩
    · exact ⟨rfl, rfl⟩
  case endOp =>
    split_ifs at stepped
    cases stepped
    exact endOp stopped running
  case commit p =>
    split_ifs at stepped
    obtain ⟨stage, -, stepped⟩ := Option.bind_eq_some_iff.mp stepped
    exact commitStep stepped stopped running
  case resume => exact resume stepped stopped running
  case ideintr =>
    cases stepped
    exact ideintr stopped running

end Still

end State

end Xv6.Buffers
