import Xv6.Buffers.Sound

namespace Xv6.Buffers

open Function Links Log Sched Tally

variable {s s' : State} {p q : Slot} {b x : Index} {dev blockno : Nat} {pc : Pc} {v : Buf} {t : Bool} {c : Config}

theorem State.Idle.apart (idle : s.Idle p) :
    (s.pc p).awaits = none ∧ (s.pc p).fetches = none ∧ (s.pc p).waits = none := by
  unfold State.Idle at idle
  cases place : s.pc p <;> rw [place] at idle
  case out => exact ⟨rfl, rfl, rfl⟩
  case returned => exact ⟨rfl, rfl, rfl⟩
  all_goals cases idle

namespace State

@[simp] theorem buf_goto : (s.goto p pc).buf = s.buf := rfl
@[simp] theorem touched_goto : (s.goto p pc).touched = s.touched := rfl
@[simp] theorem pc_goto : (s.goto p pc).pc = update s.pc p pc := rfl
@[simp] theorem buf_put : (s.put b v).buf = update s.buf b v := rfl
@[simp] theorem touched_put : (s.put b v).touched = s.touched := rfl
@[simp] theorem pc_put : (s.put b v).pc = s.pc := rfl
@[simp] theorem given_put : (s.put b v).given = s.given := rfl

theorem idestart_eq : ∃ disk panicked, s.idestart b = { s with disk := disk, panicked := panicked } := by
  unfold idestart
  dsimp only
  split_ifs
  · exact ⟨_, _, rfl⟩
  · exact ⟨_, _, rfl⟩
  · exact ⟨_, _, rfl⟩

theorem Sound.congr (sound : s.Sound) (buf : s'.buf = s.buf) (touched : s'.touched = s.touched) (pc : s'.pc = s.pc)
    (queue : s'.idequeue = s.idequeue) : s'.Sound := by
  cases s
  cases s'
  cases buf
  cases touched
  cases pc
  cases queue
  exact ⟨sound.counted, sound.fresh, sound.pinned, sound.calm, sound.held, sound.located, sound.once, sound.queued,
    sound.pending⟩

theorem Sound.edit_held (sound : s.Sound) (locked : (s.buf b).lock = some p) (buf : s'.buf = update s.buf b v)
    (touched : s'.touched = update s.touched b t) (pcs : s'.pc = update s.pc p pc) (lock : v.lock = some p)
    (refcnt : v.refcnt = (s.buf b).refcnt) (same : v.Same (s.buf b)) (valid : (s.buf b).valid = true → v.valid = true)
    (pinned : v.dirty = true → v.valid = true) (awaits : pc.awaits = (s.pc p).awaits)
    (fetches : ∀ x, x ≠ b → (s.pc p).fetches ≠ some x) (held : v.valid = true ∨ pc.fetches = some b)
    (located : s'.At p pc) : s.Edit s' p b := by
  have here : s'.buf b = v := by rw [buf, update_self]
  have place : s'.pc p = pc := by rw [pcs, update_self]
  have positive := sound.referenced_of_lock locked
  constructor
  case others =>
    intro x other
    rw [buf, touched, update_of_ne other, update_of_ne other]
    exact ⟨rfl, rfl⟩
  case pcs =>
    intro q other
    rw [pcs, update_of_ne other]
  case same => exact fun _ => here ▸ same
  case valid => exact fun _ => here ▸ valid
  case lock =>
    intro q other
    rw [here, lock, locked]
  case touched =>
    intro q other holder
    rw [locked] at holder
    cases holder
    exact absurd rfl other
  case awaits =>
    intro x _
    rw [place, awaits]
  case count =>
    have locks : s'.locks b = s.locks b := by rw [State.locks, State.locks, here, lock, locked]
    rw [place, awaits, here, refcnt, locks]
  case fresh =>
    intro none
    rw [here, refcnt] at none
    omega
  case pinned => exact here ▸ pinned
  case calm =>
    intro unlocked
    rw [here, lock] at unlocked
    cases unlocked
  case fetches => exact fun x other before => absurd before (fetches x other)
  case held =>
    rw [here, place]
    exact fun _ => held
  case located => exact place ▸ located

theorem Sound.edit_found (sound : s.Sound) (idle : s.Idle p) (names : (s.buf b).Names dev blockno) :
    s.Edit ((s.put b { s.buf b with refcnt := (s.buf b).refcnt + 1 }).goto p (.locking dev blockno b)) p b := by
  obtain ⟨awaits, fetches, waits⟩ := idle.apart
  have awaits' : (Pc.locking dev blockno b).awaits = some b := rfl
  constructor
  case others =>
    intro x other
    simp [other]
  case pcs =>
    intro q other
    simp [other]
  case same => simp [Buf.Same]
  case valid => simp
  case lock => simp
  case touched => simp
  case awaits =>
    intro x other
    simp [awaits, awaits', Ne.symm other]
  case count => simp [awaits, awaits', locks]
  case fresh => simp
  case pinned => simpa using sound.pinned b
  case calm => simpa using sound.calm b
  case fetches => simp [fetches]
  case held =>
    intro locked
    have before : (s.buf b).lock = some p := by simpa using locked
    have valid : (s.buf b).valid = true := by simpa [fetches] using sound.held p b before
    simp [valid]
  case located => simpa [At, Buf.Names] using names

theorem Sound.edit_recycle (sound : s.Sound) (idle : s.Idle p) (unused : (s.buf b).refcnt = 0) (dev blockno : Nat) :
    s.Edit ((s.put b
      { s.buf b with
        dev := dev
        blockno := blockno
        valid := false
        dirty := false
        refcnt := 1 }).goto p (.locking dev blockno b)) p b := by
  obtain ⟨awaits, fetches, waits⟩ := idle.apart
  have awaits' : (Pc.locking dev blockno b).awaits = some b := rfl
  have unlocked := sound.unlocked unused
  constructor
  case others =>
    intro x other
    simp [other]
  case pcs =>
    intro q other
    simp [other]
  case same => simp [unused]
  case valid => simp [unused]
  case lock => simp
  case touched => simp
  case awaits =>
    intro x other
    simp [awaits, awaits', Ne.symm other]
  case count => simp [awaits, awaits', locks, unused]
  case fresh => simp
  case pinned => simp
  case calm => simpa using sound.calm b
  case fetches => simp [fetches]
  case held => simp [unlocked]
  case located => simp [At, Buf.Names]

theorem Sound.edit_lock (sound : s.Sound) (place : s.pc p = .locking dev blockno b) (unlocked : (s.buf b).lock = none) :
    s.Edit ((s.put b { s.buf b with lock := some p }).goto p (.locked dev blockno b)) p b := by
  have awaits : (s.pc p).awaits = some b := by rw [place]; rfl
  have awaits' : (Pc.locked dev blockno b).awaits = none := rfl
  have fetches : (s.pc p).fetches = none := by rw [place]; rfl
  have fetches' : (Pc.locked dev blockno b).fetches = some b := rfl
  have names := sound.located p
  rw [place] at names
  constructor
  case others =>
    intro x other
    simp [other]
  case pcs =>
    intro q other
    simp [other]
  case same => simp [Buf.Same]
  case valid => simp
  case lock =>
    intro q other
    simp [unlocked, Ne.symm other]
  case touched => simp
  case awaits =>
    intro x other
    simp [awaits, awaits', Ne.symm other]
  case count => simp [awaits, awaits', locks, unlocked]
  case fresh =>
    intro none
    have positive := sound.referenced_of_awaits awaits
    simp only [buf_goto, buf_put, update_self] at none
    omega
  case pinned => simpa using sound.pinned b
  case calm => simp
  case fetches => simp [fetches]
  case held => simp [fetches']
  case located => simpa [At, Keeps, sound.calm b unlocked, Buf.Names] using names

theorem Sound.edit_unlock (sound : s.Sound) (idle : s.Idle p) (locked : (s.buf b).lock = some p) (clean : s.touched b = false) :
    s.Edit ((s.put b { s.buf b with lock := none }).goto p (.released b)) p b := by
  obtain ⟨awaits, fetches, waits⟩ := idle.apart
  have awaits' : (Pc.released b).awaits = some b := rfl
  have valid : (s.buf b).valid = true := by simpa [fetches] using sound.held p b locked
  constructor
  case others =>
    intro x other
    simp [other]
  case pcs =>
    intro q other
    simp [other]
  case same => simp [Buf.Same]
  case valid => simp
  case lock =>
    intro q other
    simp [locked, Ne.symm other]
  case touched => simp
  case awaits =>
    intro x other
    simp [awaits, awaits', Ne.symm other]
  case count => simp [awaits, awaits', locks, locked]
  case fresh => simp [valid]
  case pinned => simp [valid]
  case calm => simp [clean]
  case fetches => simp [fetches]
  case held => simp
  case located => simp [At, valid]

theorem Sound.edit_unref (sound : s.Sound) (place : s.pc p = .released b) :
    s.Edit ((s.put b { s.buf b with refcnt := (s.buf b).refcnt - 1 }).goto p .out) p b := by
  have awaits : (s.pc p).awaits = some b := by rw [place]; rfl
  have awaits' : Pc.out.awaits = none := rfl
  have fetches : (s.pc p).fetches = none := by rw [place]; rfl
  have located := sound.located p
  rw [place] at located
  have valid : (s.buf b).valid = true := located
  have positive := sound.referenced_of_awaits awaits
  constructor
  case others =>
    intro x other
    simp [other]
  case pcs =>
    intro q other
    simp [other]
  case same => simp [Buf.Same]
  case valid => simp
  case lock => simp
  case touched => simp
  case awaits =>
    intro x other
    simp [awaits, awaits', Ne.symm other]
  case count =>
    simp [awaits, awaits', locks]
    omega
  case fresh => simp [valid]
  case pinned => simpa using sound.pinned b
  case calm => simpa using sound.calm b
  case fetches => simp [fetches]
  case held =>
    intro locked
    have before : (s.buf b).lock = some p := by simpa using locked
    have valid : (s.buf b).valid = true := by simpa [fetches] using sound.held p b before
    simp [valid]
  case located => simp [At]

end State

end Xv6.Buffers
