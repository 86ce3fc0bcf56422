import Xv6.Buffers.Effects
import Xv6.Log.Recovery

namespace Xv6.Buffers

open Function Log Sched Transition

/-- The machine with what no code reads: who is between `begin_op` and `end_op`, the contents of the disk at the start and
    whenever a commit began, and how many commits have ended. -/
structure Volume where
  now : State
  inside : Slot → Bool
  contents : List Disk
  ended : Nat

namespace Volume

def start (c : Config) (disk : Nat → Disk) : Volume := ⟨.start disk, fun _ => false, [disk (c.dev % 2)], 0⟩

/-- File systems leave the writing to the log, use it only inside an operation, and not for its own blocks. -/
def Obeys (c : Config) (x : Volume) : Action → Prop
  | .bread _ dev _ => dev = c.dev
  | .bwrite .. => False
  | .logWrite p b =>
    x.inside p = true ∧ ¬c.layout.Inside (x.now.buf b).blockno ∧ (x.now.buf b).blockno < 4294967296
  | .beginOp p => x.inside p = false
  | .endOp p => x.inside p = true
  | .ideintr error => error = false
  | _ => True

instance (c : Config) (x : Volume) : (a : Action) → Decidable (x.Obeys c a)
  | .ideintr error => inferInstanceAs (Decidable (error = false))
  | .bread _ dev _ => inferInstanceAs (Decidable (dev = c.dev))
  | .bwrite .. => inferInstanceAs (Decidable False)
  | .logWrite p b => inferInstanceAs (Decidable (x.inside p = true ∧ ¬c.layout.Inside (x.now.buf b).blockno ∧
      (x.now.buf b).blockno < 4294967296))
  | .beginOp p => inferInstanceAs (Decidable (x.inside p = false))
  | .endOp p => inferInstanceAs (Decidable (x.inside p = true))
  | .modify .. => inferInstanceAs (Decidable True)
  | .brelse .. => inferInstanceAs (Decidable True)
  | .commit _ => inferInstanceAs (Decidable True)
  | .resume _ => inferInstanceAs (Decidable True)

def goes (x : Volume) (s' : State) : Action → Slot → Bool
  | .beginOp p => if x.now.outstanding < s'.outstanding then update x.inside p true else x.inside
  | .endOp p => update x.inside p false
  | _ => x.inside

def next (c : Config) (x : Volume) (a : Action) (s' : State) : Volume where
  now := s'
  inside := x.goes s' a
  contents :=
    if x.now.committing = false ∧ s'.committing = true then x.contents ++ [x.now.given c.dev] else x.contents
  ended := if x.now.committing = true ∧ s'.committing = false then x.ended + 1 else x.ended

def Takes (c : Config) (x : Volume) (a : Action) (y : Volume) : Prop :=
  x.Obeys c a ∧ y.now.block.length < c.layout.size ∧ c.Takes x.now a y.now ∧ y = x.next c a y.now

end Volume

/-- The buffer that `commit` has just passed to `bwrite`. -/
def Stage.wrote : Stage → Option Index
  | .dropSrc _ _ dst _ => some dst
  | .dropHead _ hb => some hb
  | _ => none

namespace State

variable {s s' : State} {p q : Slot} {b : Index} {inside : Slot → Bool} {l : Layout} {stage : Stage} {who : Option Slot}

/-- `outstanding` counts the operations in progress, one process commits without them, and writes are those of `commit`. -/
structure Orderly (s : State) (inside : Slot → Bool) (l : Layout) : Prop where
  count : s.outstanding = (Finset.univ.filter fun p => inside p = true).card
  logging : ∀ p b, s.pc p = .logging b →
    inside p = true ∧ ¬l.Inside (s.buf b).blockno ∧ (s.buf b).blockno < 4294967296
  busy : s.committing = true → s.outstanding = 0
  staged : ∀ p, s.stage p ≠ none → s.committing = true
  alone : ∀ p q, s.stage p ≠ none → s.stage q ≠ none → p = q
  working : s.committing = true → ∃ p, s.stage p ≠ none
  writing : ∀ p b, (s.pc p).writes = some b → ∃ stage, s.stage p = some stage ∧ stage.wrote = some b
  asking : ∀ p b, (s.pc p).asks = some b → (s.buf b).dirty = false

namespace Orderly

theorem start (disk : Nat → Disk) : Orderly (.start disk) (fun _ => false) l := by
  constructor
  case count => simp [State.start]
  case logging => exact nofun
  case busy => exact nofun
  case staged => exact fun p staged => absurd rfl staged
  case alone => exact fun p q staged => absurd rfl staged
  case working => exact nofun
  case writing => exact nofun
  case asking => exact nofun

variable (held : Orderly s inside l)
include held

theorem positive (within : inside p = true) : 0 < s.outstanding := by
  have pos : 0 < (Finset.univ.filter fun p => inside p = true).card :=
    Finset.card_pos.mpr ⟨p, Finset.mem_filter.mpr ⟨Finset.mem_univ p, within⟩⟩
  rw [held.count]
  exact Int.natCast_pos.mpr pos

theorem outside (busy : s.committing = true) (p : Slot) : inside p = false := by
  by_contra within
  have pos := held.positive (eq_true_of_ne_false within)
  have zero := held.busy busy
  omega

theorem not_committing (within : inside p = true) : s.committing = false := by
  by_contra busy
  have none := held.outside (eq_true_of_ne_false busy) p
  rw [within] at none
  cases none

theorem unstaged (free : s.committing = false) (p : Slot) : s.stage p = none := by
  by_contra staged
  have busy := held.staged p staged
  rw [free] at busy
  cases busy

theorem mild (sound : s.Sound) (mild : s.Mild s' who)
    (logging : ∀ p b, who = some p → s'.pc p = .logging b →
      inside p = true ∧ ¬l.Inside (s'.buf b).blockno ∧ (s'.buf b).blockno < 4294967296) : Orderly s' inside l := by
  constructor
  case count =>
    rw [mild.outstanding]
    exact held.count
  case logging =>
    intro p b place
    by_cases own : who = some p
    · exact logging p b own place
    · rw [mild.pcs p own] at place
      have located := sound.located p
      rw [place] at located
      have locked : (s.buf b).lock = some p := located
      have same := mild.same b (by rw [locked]; exact nofun)
      rw [same.2]
      exact held.logging p b place
  case busy =>
    rw [mild.committing, mild.outstanding]
    exact held.busy
  case staged =>
    rw [mild.committing, mild.stage]
    exact held.staged
  case alone =>
    rw [mild.stage]
    exact held.alone
  case working =>
    rw [mild.committing, mild.stage]
    exact held.working
  case writing =>
    rw [mild.stage]
    exact fun p b writes => held.writing p b (mild.writes p b writes)
  case asking =>
    intro p b asks
    rcases mild.asks p b asks with before | clean
    · by_contra dirty
      have was := (mild.dirty b (eq_true_of_ne_false dirty)).1
      rw [held.asking p b before] at was
      cases was
    · exact clean

theorem «at» (stage : Stage) (staged : s.stage p ≠ none) (writes : ∀ b, (s.pc p).writes = some b → stage.wrote = some b) :
    Orderly (s.at p stage) inside l := by
  have busy := held.staged p staged
  have only : ∀ q, update s.stage p (some stage) q ≠ none → q = p := by
    intro q some
    by_contra other
    rw [update_of_ne other] at some
    exact other (held.alone q p some staged)
  constructor
  case count => exact held.count
  case logging => exact held.logging
  case busy => exact held.busy
  case staged => exact fun _ _ => busy
  case alone => exact fun q r first second => (only q first).trans (only r second).symm
  case working => exact fun _ => ⟨p, by rw [show (s.at p stage).stage p = some stage from update_self ..]; exact nofun⟩
  case writing =>
    intro q b writing
    by_cases here : q = p
    · subst here
      exact ⟨stage, update_self .., writes b writing⟩
    · obtain ⟨stage', some, wrote⟩ := held.writing q b writing
      exact ⟨stage', (update_of_ne here ..).trans some, wrote⟩
  case asking => exact held.asking

theorem give (sound : s.Sound) (locked : (s.buf b).lock = some p) (silent : (s.pc p).asks = none)
    (buf : s'.buf = update s.buf b { s.buf b with dirty := true }) (pc : Pc) (pcs : s'.pc = update s.pc p pc)
    (quiet : ∀ b, pc ≠ .logging b) (asks : pc.asks = none)
    (writes : ∀ x, pc.writes = some x → ∃ stage, s.stage p = some stage ∧ stage.wrote = some x)
    (stage : s'.stage = s.stage) (committing : s'.committing = s.committing) (outstanding : s'.outstanding = s.outstanding) :
    Orderly s' inside l := by
  have blockno : ∀ x, (s'.buf x).blockno = (s.buf x).blockno := by
    intro x
    rw [buf]
    by_cases here : x = b
    · subst here
      rw [update_self]
    · rw [update_of_ne here]
  constructor
  case count =>
    rw [outstanding]
    exact held.count
  case logging =>
    intro q x place
    rw [blockno]
    rw [pcs] at place
    by_cases here : q = p
    · subst here
      rw [update_self] at place
      exact absurd place (quiet x)
    · rw [update_of_ne here] at place
      exact held.logging q x place
  case busy =>
    rw [committing, outstanding]
    exact held.busy
  case staged =>
    rw [committing, stage]
    exact held.staged
  case alone =>
    rw [stage]
    exact held.alone
  case working =>
    rw [committing, stage]
    exact held.working
  case writing =>
    intro q x writing
    rw [stage]
    rw [pcs] at writing
    by_cases here : q = p
    · subst here
      rw [update_self] at writing
      exact writes x writing
    · rw [update_of_ne here] at writing
      exact held.writing q x writing
  case asking =>
    intro q x asking
    rw [pcs] at asking
    by_cases here : q = p
    · subst here
      rw [update_self, asks] at asking
      cases asking
    · rw [update_of_ne here] at asking
      rw [buf]
      by_cases this : x = b
      · subst this
        have located := sound.located q
        cases place : s.pc q <;> rw [place] at asking located <;> try cases asking
        case starting request y =>
          cases request <;> cases asking
          rw [located.1.1] at locked
          exact absurd (Option.some.inj locked) here
        case waiting request y =>
          cases request <;> cases asking
          rw [located.1.1] at locked
          exact absurd (Option.some.inj locked) here
      · rw [update_of_ne this]
        exact held.asking q x asking

theorem congr (pc : s'.pc = s.pc) (buf : s'.buf = s.buf) (stage : s'.stage = s.stage)
    (committing : s'.committing = s.committing) (outstanding : s'.outstanding = s.outstanding) : Orderly s' inside l := by
  cases s
  cases s'
  cases pc
  cases buf
  cases stage
  cases committing
  cases outstanding
  exact ⟨held.count, held.logging, held.busy, held.staged, held.alone, held.working, held.writing, held.asking⟩

theorem begin (without : inside p = false) :
    Orderly s.beginOp (if s.outstanding < s.beginOp.outstanding then update inside p true else inside) l := by
  have cases : s.beginOp = s ∨ s.committing = false ∧ s.beginOp = { s with outstanding := s.outstanding + 1 } := by
    unfold State.beginOp
    split_ifs with busy
    · exact Or.inl rfl
    · exact Or.inl rfl
    · exact Or.inr ⟨eq_false_of_ne_true busy, rfl⟩
  rcases cases with same | ⟨free, same⟩
  · rw [same, if_neg (Int.lt_irrefl _)]
    exact held
  · rw [same, if_pos (Int.lt_succ s.outstanding)]
    constructor
    case count =>
      have grown : (Finset.univ.filter fun q => update inside p true q = true) =
          insert p (Finset.univ.filter fun q => inside q = true) := by
        ext q
        by_cases here : q = p
        · subst here
          simp
        · simp [here]
      rw [grown, Finset.card_insert_of_notMem (by simp [without]), Nat.cast_add, Nat.cast_one, ← held.count]
    case logging =>
      intro q b place
      obtain ⟨within, away⟩ := held.logging q b place
      have other : q ≠ p := by
        rintro rfl
        rw [without] at within
        cases within
      rw [update_of_ne other]
      exact ⟨within, away⟩
    case busy => exact fun busy => absurd (free.symm.trans busy) Bool.false_ne_true
    case staged => exact held.staged
    case alone => exact held.alone
    case working => exact held.working
    case writing => exact held.writing
    case asking => exact held.asking

theorem ends (within : inside p = true) (idle : s.Idle p) (running : (s.endOp p).panicked = none) :
    Orderly (s.endOp p) (update inside p false) l := by
  have free := held.not_committing within
  have shrunk : (Finset.univ.filter fun q => update inside p false q = true) =
      (Finset.univ.filter fun q => inside q = true).erase p := by
    ext q
    by_cases here : q = p
    · subst here
      simp
    · simp [here]
  have count : s.outstanding - 1 = ((Finset.univ.filter fun q => update inside p false q = true).card : Int) := by
    rw [shrunk, Finset.card_erase_of_mem (Finset.mem_filter.mpr ⟨Finset.mem_univ p, within⟩), held.count]
    have pos : 0 < (Finset.univ.filter fun q => inside q = true).card :=
      Finset.card_pos.mpr ⟨p, Finset.mem_filter.mpr ⟨Finset.mem_univ p, within⟩⟩
    omega
  have logging : ∀ q b, s.pc q = .logging b →
      update inside p false q = true ∧ ¬l.Inside (s.buf b).blockno ∧ (s.buf b).blockno < 4294967296 := by
    intro q b place
    have other : q ≠ p := by
      rintro rfl
      unfold State.Idle at idle
      rw [place] at idle
      exact idle
    rw [update_of_ne other]
    exact held.logging q b place
  unfold State.endOp at running ⊢
  have quiet : ¬s.committing = true := fun busy => Bool.false_ne_true (free.symm.trans busy)
  dsimp only at running ⊢
  rw [if_neg quiet] at running ⊢
  split_ifs at running ⊢ with last
  · constructor
    case count => exact count
    case logging => exact logging
    case busy => exact fun _ => last
    case staged => exact fun _ _ => rfl
    case alone =>
      have only : ∀ q, update s.stage p (some .check) q ≠ none → q = p := by
        intro q some
        by_contra other
        rw [update_of_ne other] at some
        exact some (held.unstaged free q)
      exact fun q r first second => (only q first).trans (only r second).symm
    case working => exact fun _ => ⟨p, by simp [State.at]⟩
    case writing =>
      intro q b writes
      obtain ⟨stage, staged, -⟩ := held.writing q b writes
      rw [held.unstaged free q] at staged
      cases staged
    case asking => exact held.asking
  · constructor
    case count => exact count
    case logging => exact logging
    case busy => exact fun busy => absurd busy quiet
    case staged => exact held.staged
    case alone => exact held.alone
    case working => exact held.working
    case writing => exact held.writing
    case asking => exact held.asking

theorem done (staged : s.stage p ≠ none) (silent : (s.pc p).writes = none) :
    Orderly { s with committing := false, stage := update s.stage p none } inside l := by
  have nobody : ∀ q, update s.stage p none q = none := by
    intro q
    by_cases here : q = p
    · subst here
      exact update_self ..
    · rw [update_of_ne here]
      by_contra some
      exact here (held.alone q p some staged)
  constructor
  case count => exact held.count
  case logging => exact held.logging
  case busy => exact nofun
  case staged => exact fun q some => absurd (nobody q) some
  case alone => exact fun q _ some => absurd (nobody q) some
  case working => exact nofun
  case writing =>
    intro q b writes
    obtain ⟨stage, some, -⟩ := held.writing q b writes
    have same := held.alone q p (by rw [some]; exact nofun) staged
    subst same
    rw [show (s.pc q).writes = none from silent] at writes
    cases writes
  case asking => exact held.asking

end Orderly

end State

end Xv6.Buffers
