import Xv6.Buffers.Order

namespace Xv6.Buffers

open Function Links Log Sched Tally

variable {s s' : State} {p q : Slot} {b x : Index} {dev blockno : Nat} {l : List Index} {pc : Pc} {v : Buf} {t : Bool}
  {c : Config} {request : Request} {data : Data}

namespace State

/-- What is known after a process has taken a step inside a call. -/
structure Call (s s' : State) (p : Slot) : Prop where
  sound : s'.Sound
  order : ∃ l, s'.Order l
  stage : s'.stage = s.stage
  others : ∀ q, q ≠ p → s.Spares s' q

namespace Call

variable (sound : s.Sound) (order : s.Order l)
include sound order

theorem frame (buf : s'.buf = s.buf) (lru : s'.lru = s.lru) (touched : s'.touched = s.touched) (pc : s'.pc = s.pc)
    (queue : s'.idequeue = s.idequeue) (stage : s'.stage = s.stage) : s.Call s' p where
  sound := sound.congr buf touched pc queue
  order := ⟨l, lru ▸ order.ring, order.full, buf ▸ order.apart⟩
  stage := stage
  others q _ := (Spares.refl s q).congr buf touched pc

theorem panic (msg : String) : s.Call (s.panic msg) p := frame sound order rfl rfl rfl rfl rfl rfl

/-- A call that edits a buffer its process holds and that is not at the disk. -/
theorem of_held (locked : (s.buf b).lock = some p) (edit : s.Edit s' p b) (awake : (s.pc p).waits = none)
    (queue : s'.idequeue = s.idequeue) (lru : s'.lru = s.lru) (stage : s'.stage = s.stage) : s.Call s' p where
  sound := by
    have waits : ∀ x, (s.pc p).waits ≠ some x := by
      intro x
      rw [awake]
      exact (Option.some_ne_none x).symm
    exact edit.sound_of_not_queued sound queue (fun x _ => waits x) (sound.not_queued locked (waits b))
  order := ⟨l, order.edit edit (sound.referenced_of_lock locked) lru⟩
  stage := stage
  others _ other := edit.spares other

theorem bget (idle : s.Idle p) (got : s.bget p dev blockno = some s') : s.Call s' p := by
  obtain ⟨_, ends, how⟩ := order.bget p dev blockno
  rw [got] at ends
  cases ends
  obtain ⟨_, _, waits⟩ := idle.apart
  have awake : ∀ x ∈ s.idequeue, (s.pc p).waits ≠ some x := by
    intro x _
    rw [waits]
    exact (Option.some_ne_none x).symm
  cases how with
  | found b l₁ l₂ split names first =>
    have edit := sound.edit_found idle names
    refine ⟨edit.sound_of_queue sound rfl awake ?_ ?_, ⟨l, order.found split names first _⟩, rfl, fun _ => edit.spares⟩
    · simp
    · simp
  | recycled b absent unused clean =>
    have edit := sound.edit_recycle idle unused dev blockno
    have outside := sound.not_queued_of_unlocked (sound.unlocked unused)
    exact ⟨edit.sound_of_not_queued sound rfl awake outside, ⟨l, order.recycled absent ⟨rfl, rfl⟩⟩, rfl, fun _ => edit.spares⟩
  | noBuffers => exact panic sound order _

theorem bwrite (idle : s.Idle p) (b : Index) : s.Call (s.bwrite p b) p := by
  unfold State.bwrite
  split_ifs with locked
  · obtain ⟨awaits, fetches, waits⟩ := idle.apart
    have valid : (s.buf b).valid = true := by simpa [fetches] using sound.held p b locked
    refine of_held sound order locked ?_ waits rfl rfl rfl
    refine sound.edit_held locked rfl rfl rfl ?_ ?_ ?_ ?_ ?_ ?_ ?_ ?_ ?_
    · exact locked
    · rfl
    · exact ⟨rfl, rfl⟩
    · exact id
    · exact fun _ => valid
    · exact awaits.symm
    · simp [fetches]
    · exact .inl valid
    · exact ⟨⟨by simpa [give] using locked, by simp [give]⟩, trivial⟩
  · exact panic sound order _

theorem modify (idle : s.Idle p) (locked : (s.buf b).lock = some p) (data : Data) : s.Call (s.modify p b data) p := by
  obtain ⟨awaits, fetches, waits⟩ := idle.apart
  have valid : (s.buf b).valid = true := by simpa [fetches] using sound.held p b locked
  refine of_held sound order locked ?_ waits rfl rfl rfl
  refine sound.edit_held locked rfl rfl rfl ?_ ?_ ?_ ?_ ?_ ?_ ?_ ?_ ?_
  · exact locked
  · rfl
  · exact ⟨rfl, rfl⟩
  · exact id
  · exact fun _ => valid
  · exact awaits.symm
  · simp [fetches]
  · exact .inl valid
  · trivial

theorem brelse (idle : s.Idle p) (b : Index) (clean : (s.buf b).lock = some p → s.touched b = false) :
    s.Call (s.brelse p b) p := by
  unfold State.brelse
  split_ifs with locked
  · obtain ⟨_, _, waits⟩ := idle.apart
    exact of_held sound order locked (sound.edit_unlock idle locked (clean locked)) waits rfl rfl rfl
  · exact panic sound order _

theorem logWrite (idle : s.Idle p) (locked : (s.buf b).lock = some p) : s.Call (c.logWrite s p b) p := by
  unfold Config.logWrite
  split_ifs
  · exact panic sound order _
  · exact panic sound order _
  · obtain ⟨awaits, fetches, waits⟩ := idle.apart
    have valid : (s.buf b).valid = true := by simpa [fetches] using sound.held p b locked
    refine of_held sound order locked ?_ waits rfl rfl rfl
    refine sound.edit_held locked (update_eq_self ..).symm (update_eq_self ..).symm rfl locked rfl ⟨rfl, rfl⟩ id
      (sound.pinned b) awaits.symm ?_ (.inl valid) locked
    simp [fetches]

theorem append (place : s.pc p = .logging b) : s.Call (s.append p b) p := by
  have located := sound.located p
  rw [place] at located
  have locked : (s.buf b).lock = some p := located
  have fetches : (s.pc p).fetches = none := by rw [place]; rfl
  have valid : (s.buf b).valid = true := by simpa [fetches] using sound.held p b locked
  refine of_held sound order locked ?_ (by rw [place]; rfl) rfl rfl rfl
  refine sound.edit_held locked rfl rfl rfl ?_ ?_ ?_ ?_ ?_ ?_ ?_ ?_ ?_
  · exact locked
  · rfl
  · exact ⟨rfl, rfl⟩
  · exact id
  · exact fun _ => valid
  · rw [place]
    rfl
  · simp [fetches]
  · exact .inl valid
  · trivial

theorem acquiresleep (place : s.pc p = .locking dev blockno b) (unlocked : (s.buf b).lock = none) :
    s.Call ((s.put b { s.buf b with lock := some p }).goto p (.locked dev blockno b)) p := by
  have awaits : (s.pc p).awaits = some b := by rw [place]; rfl
  have edit := sound.edit_lock place unlocked
  constructor
  · apply edit.sound_of_not_queued sound rfl ?_ (sound.not_queued_of_unlocked unlocked)
    intro x _
    rw [place]
    exact (Option.some_ne_none x).symm
  · exact ⟨l, order.edit edit (sound.referenced_of_awaits awaits) rfl⟩
  · rfl
  · exact fun _ => edit.spares

theorem fetch (place : s.pc p = .locked dev blockno b) :
    s.Call (s.goto p (if (s.buf b).valid then .returned dev blockno b else .starting (.read dev blockno) b)) p := by
  have located := sound.located p
  rw [place] at located
  obtain ⟨keeps, names⟩ := located
  have fetches : (s.pc p).fetches = some b := by rw [place]; rfl
  refine of_held sound order keeps.1 ?_ (by rw [place]; rfl) rfl rfl rfl
  refine sound.edit_held keeps.1 (update_eq_self ..).symm (update_eq_self ..).symm rfl keeps.1 rfl ⟨rfl, rfl⟩ id
    (sound.pinned b) ?_ ?_ ?_ ?_
  · rw [place]
    split_ifs <;> rfl
  · intro x other
    rw [fetches]
    exact fun same => other (Option.some.inj same).symm
  · split_ifs with valid
    · exact .inl valid
    · exact .inr rfl
  · split_ifs
    · exact ⟨keeps, names⟩
    · exact ⟨keeps, names⟩

theorem finish (place : s.pc p = .waiting request b) (valid : (s.buf b).valid = true) (clean : (s.buf b).dirty = false) :
    s.Call (s.goto p (request.result b)) p := by
  have located := sound.located p
  rw [place] at located
  obtain ⟨keeps, fits⟩ := located
  have outside : b ∉ s.idequeue := by
    intro member
    rcases sound.pending b member with invalid | dirty
    · rw [valid] at invalid
      cases invalid
    · rw [clean] at dirty
      cases dirty
  have edit : s.Edit (s.goto p (request.result b)) p b := by
    refine sound.edit_held keeps.1 (update_eq_self ..).symm (update_eq_self ..).symm rfl keeps.1 rfl ⟨rfl, rfl⟩ id
      (sound.pinned b) ?_ ?_ (.inl valid) ?_
    · rw [place]
      cases request <;> rfl
    · intro x other
      rw [place]
      exact Pc.fetches_of_waiting other
    · cases request with
      | read => exact ⟨keeps, fits⟩
      | write => trivial
  constructor
  · apply edit.sound_of_not_queued sound rfl ?_ outside
    intro x member
    rw [place]
    rintro same
    cases same
    exact outside member
  · exact ⟨l, order.edit edit (sound.referenced_of_lock keeps.1) rfl⟩
  · rfl
  · exact fun _ => edit.spares

theorem unref (place : s.pc p = .released b) : s.Call (s.unref p b) p := by
  have awaits : (s.pc p).awaits = some b := by rw [place]; rfl
  have located := sound.located p
  rw [place] at located
  have valid : (s.buf b).valid = true := located
  have edit := sound.edit_unref place
  have kept : (s.put b { s.buf b with refcnt := (s.buf b).refcnt - 1 }).goto p .out |>.Sound := by
    apply edit.sound_of_queue sound rfl
    · intro x _
      rw [place]
      exact (Option.some_ne_none x).symm
    · simp
    · simp
  have ordered := order.edit edit (sound.referenced_of_awaits awaits) rfl
  unfold State.unref
  dsimp only
  split_ifs
  · constructor
    · exact kept.congr rfl rfl rfl rfl
    · apply ordered.moved
      intro zero
      have invalid := congrArg Buf.valid zero
      simp [valid, Buf.zero] at invalid
    · rfl
    · exact fun q other => (edit.spares other).congr rfl rfl rfl
  · exact ⟨kept, ⟨l, ordered⟩, rfl, fun _ => edit.spares⟩

theorem enqueue (place : s.pc p = .starting request b) (work : ¬ ((s.buf b).valid = true ∧ (s.buf b).dirty = false)) :
    s.Call ({ s with idequeue := s.idequeue ++ [b] }.goto p (.waiting request b)) p := by
  have located := sound.located p
  rw [place] at located
  obtain ⟨keeps, fits⟩ := located
  have waits : ∀ x, (s.pc p).waits ≠ some x := by
    intro x
    rw [place]
    exact (Option.some_ne_none x).symm
  have outside : b ∉ s.idequeue := sound.not_queued keeps.1 (waits b)
  have edit : s.Edit ({ s with idequeue := s.idequeue ++ [b] }.goto p (.waiting request b)) p b := by
    refine sound.edit_held keeps.1 (update_eq_self ..).symm (update_eq_self ..).symm rfl keeps.1 rfl ⟨rfl, rfl⟩ id
      (sound.pinned b) ?_ ?_ ?_ ⟨keeps, fits⟩
    · rw [place]
      rfl
    · intro x other
      rw [place]
      cases request with
      | read => exact fun same => other (Option.some.inj same).symm
      | write => exact (Option.some_ne_none x).symm
    · apply (sound.held p b keeps.1).imp_right
      rw [place]
      cases request <;> exact id
  constructor
  · apply edit.sound sound
    · exact List.nodup_append.mpr ⟨sound.once, List.nodup_singleton b, fun x member y same => by
        rintro rfl
        exact outside (List.mem_singleton.mp same ▸ member)⟩
    · intro x member
      rcases List.mem_append.mp member with before | last
      · obtain ⟨q, holder, at_disk⟩ := sound.queued x before
        have other : q ≠ p := by
          rintro rfl
          exact waits x at_disk
        exact ⟨q, holder, by rw [edit.pcs q other]; exact at_disk⟩
      · rw [List.mem_singleton.mp last]
        exact ⟨p, keeps.1, by simp [Pc.waits]⟩
    · intro x member
      rcases List.mem_append.mp member with before | last
      · exact sound.pending x before
      · rw [List.mem_singleton.mp last]
        by_cases valid : (s.buf b).valid = true
        · exact .inr (by simpa [valid] using work)
        · exact .inl (eq_false_of_ne_true valid)
  · exact ⟨l, order.edit edit (sound.referenced_of_lock keeps.1) rfl⟩
  · rfl
  · exact fun _ => edit.spares

omit sound order in
theorem idestart (call : s.Call s' p) (b : Index) : s.Call (s'.idestart b) p := by
  obtain ⟨disk, panicked, eq⟩ := idestart_eq (s := s') (b := b)
  rw [eq]
  constructor
  · exact call.sound.congr rfl rfl rfl rfl
  · obtain ⟨l, order⟩ := call.order
    exact ⟨l, order.ring, order.full, order.apart⟩
  · exact call.stage
  · exact fun q other => (call.others q other).congr rfl rfl rfl

theorem iderw (place : s.pc p = .starting request b) : s.Call (c.iderw s p request b) p := by
  unfold Config.iderw
  dsimp only
  split_ifs with _ nothing _ first
  · exact panic sound order _
  · exact panic sound order _
  · exact panic sound order _
  · exact idestart (enqueue sound order place nothing) b
  · exact enqueue sound order place nothing

theorem resume (resumed : c.resume s p (s.pc p) = some s') : s.Call s' p := by
  cases place : s.pc p <;> rw [place] at resumed <;> unfold Config.resume at resumed
  case out => cases resumed
  case locking dev blockno b =>
    dsimp only at resumed
    split_ifs at resumed with unlocked
    cases resumed
    exact acquiresleep sound order place unlocked
  case locked dev blockno b =>
    cases resumed
    exact fetch sound order place
  case starting request b =>
    cases resumed
    exact iderw sound order place
  case waiting request b =>
    dsimp only at resumed
    split_ifs at resumed with finished
    cases resumed
    exact finish sound order place finished.1 finished.2
  case returned => cases resumed
  case logging b =>
    cases resumed
    exact append sound order place
  case released b =>
    cases resumed
    exact unref sound order place

end Call

/-- What an interrupt of the disk leaves as it is. -/
structure Tick (s s' : State) : Prop where
  sound : s'.Sound
  order : ∃ l, s'.Order l
  stage : s'.stage = s.stage
  spares : ∀ q, s.Spares s' q

theorem Tick.idestart (tick : s.Tick s') (b : Index) : s.Tick (s'.idestart b) := by
  obtain ⟨disk, panicked, eq⟩ := idestart_eq (s := s') (b := b)
  rw [eq]
  constructor
  · exact tick.sound.congr rfl rfl rfl rfl
  · obtain ⟨l, order⟩ := tick.order
    exact ⟨l, order.ring, order.full, order.apart⟩
  · exact tick.stage
  · exact fun q => (tick.spares q).congr rfl rfl rfl

theorem Sound.complete {rest : List Index} (sound : s.Sound) (order : s.Order l) (queue : s.idequeue = b :: rest) (data : Data) :
    s.Tick ({ s with idequeue := rest }.put b { s.buf b with data := data, valid := true, dirty := false }) := by
  have member : b ∈ s.idequeue := queue ▸ List.mem_cons_self ..
  obtain ⟨p, holder, waits⟩ := sound.queued b member
  have once := sound.once
  rw [queue] at once
  obtain ⟨outside, once⟩ := List.nodup_cons.mp once
  obtain ⟨request, place⟩ := Pc.waiting_of_waits waits
  have located := sound.located p
  rw [place] at located
  obtain ⟨keeps, fits⟩ := located
  have edit : s.Edit ({ s with idequeue := rest }.put b { s.buf b with data := data, valid := true, dirty := false }) p b := by
    refine sound.edit_held holder rfl (update_eq_self ..).symm (update_eq_self ..).symm holder rfl ⟨rfl, rfl⟩ (fun _ => rfl)
      (fun _ => rfl) rfl ?_ (.inl rfl) ?_
    · intro x other
      rw [place]
      exact Pc.fetches_of_waiting other
    · show State.At _ p (s.pc p)
      rw [place]
      refine ⟨⟨by simpa using holder, keeps.2⟩, ?_⟩
      cases request with
      | read => simpa [Request.Fits, Buf.Names] using fits
      | write => trivial
  constructor
  · apply edit.sound sound once
    · intro x later
      obtain ⟨q, locked, at_disk⟩ := sound.queued x (queue ▸ List.mem_cons_of_mem b later)
      have other : x ≠ b := by
        rintro rfl
        exact outside later
      exact ⟨q, by simpa [other] using locked, at_disk⟩
    · intro x later
      have other : x ≠ b := by
        rintro rfl
        exact outside later
      simpa [other] using sound.pending x (queue ▸ List.mem_cons_of_mem b later)
  · exact ⟨l, order.edit edit (sound.referenced_of_lock holder) rfl⟩
  · rfl
  · intro q
    constructor
    · rfl
    · intro x _
      by_cases here : x = b
      · subst here
        simp [Buf.Same]
      · simp [here, Buf.Same]
    · intro x _ valid
      by_cases here : x = b
      · subst here
        simp
      · simpa [here] using valid
    · intro x
      by_cases here : x = b
      · subst here
        simp
      · simp [here]
    · exact fun _ _ => rfl

theorem Sound.ideintr (sound : s.Sound) (order : s.Order l) (error : Bool) : s.Tick (s.ideintr error) := by
  unfold State.ideintr
  cases queue : s.idequeue with
  | nil => exact ⟨sound, ⟨l, order⟩, rfl, Spares.refl s⟩
  | cons b rest =>
    have tick := sound.complete order queue
      (if (s.buf b).dirty = false ∧ error = false then s.disk ((s.buf b).dev % 2) (s.buf b).blockno else (s.buf b).data)
    cases rest with
    | nil => exact tick
    | cons x rest => exact tick.idestart x

end State

end Xv6.Buffers
