import Xv6.Sleep.Handlers

namespace Xv6.Sleep

open Sched Function Transition

variable {m : Meeting} {s s' x y : State} {c d : Nat} {t w : Thread} {p q : Slot} {a b : Action} {l : Lock}

/-- The process is neither asleep on the channel nor on its way there. -/
def Meeting.Awake (m : Meeting) (s : State) (p : Slot) : Prop :=
  (s.pc (.proc p) ≠ .tested ∧ s.pc (.proc p) ≠ .locked ∧ s.pc (.proc p) ≠ .committed) ∧
    ¬ ((s.ptable p).state = .sleeping ∧ (s.ptable p).chan = some m.chan)

/-- The waker has made the condition true and has not yet looked for sleepers. -/
def State.Rousing (s : State) (w : Thread) : Prop := s.pc w = .made ∨ s.pc w = .waking

namespace Meeting

theorem wakeup_asleep {r : Sched.Proc} {chan chan' : Chan}
    (asleep : (r.wakeup chan').state = .sleeping ∧ (r.wakeup chan').chan = some chan) :
    r.state = .sleeping ∧ r.chan = some chan := by
  unfold Sched.Proc.wakeup at asleep
  split at asleep
  · exact nomatch asleep.1
  · exact asleep

theorem modify_asleep {t : Table} {change : Sched.Proc → Sched.Proc} {chan : Chan}
    (changed : ¬ ((change (t q)).state = .sleeping ∧ (change (t q)).chan = some chan))
    (asleep : (t.modify q change p).state = .sleeping ∧ (t.modify q change p).chan = some chan) :
    (t p).state = .sleeping ∧ (t p).chan = some chan := by
  by_cases eq : p = q
  · subst eq
    rw [Table.modify_self] at asleep
    exact absurd asleep changed
  · rwa [Table.modify_of_ne _ _ eq] at asleep

theorem Awake.go (awake : m.Awake s p) {pc : Pc} {lock : Lock → Option Nat} {condition : Bool} {cpu : Nat → Cpu}
    {ptable : Table} (moves : t = .proc p → pc ≠ .tested ∧ pc ≠ .locked ∧ pc ≠ .committed)
    (asleep : (ptable p).state = .sleeping ∧ (ptable p).chan = some m.chan →
      (s.ptable p).state = .sleeping ∧ (s.ptable p).chan = some m.chan) :
    m.Awake { s with pc := update s.pc t pc, lock := lock, condition := condition, cpu := cpu, ptable := ptable } p := by
  constructor
  · by_cases same : .proc p = t
    · simp only [same, update_self]
      exact moves same.symm
    · simp only [update_of_ne same]
      exact awake.1
  · exact fun now => awake.2 (asleep now)

theorem Awake.moved (awake : m.Awake s p) {move : Move} (moved : m.Moved s c t move s') : m.Awake s' p := by
  cases moved with
  | makeFalse at_t => exact awake
  | wakeup1 at_t => exact awake.go (fun _ => ⟨nofun, nofun, nofun⟩) wakeup_asleep
  | _ => exact awake.go (fun _ => ⟨nofun, nofun, nofun⟩) id

theorem Awake.napped (held : Sound m s) (awake : m.Awake s p) {nap : Nap} (at_c : s.cpu c = .running q)
    (napped : m.Napped s c q nap s') (no_test : nap = .test → q ≠ p) : m.Awake s' p := by
  have runs := held.running c q (.inl at_c)
  cases napped with
  | true => exact awake
  | test at_p => exact awake.go (fun eq => absurd (Thread.proc.inj eq) (no_test rfl)) id
  | giveUp at_p => exact awake.go (fun _ => ⟨nofun, nofun, nofun⟩) id
  | commit at_p same =>
    exact awake.go (fun eq => absurd at_p (Thread.proc.inj eq ▸ awake.1.1)) id
  | lockTable at_p free ne => exact awake.go (fun eq => absurd at_p (Thread.proc.inj eq ▸ awake.1.1)) id
  | releaseLk at_p => exact awake.go (fun eq => absurd at_p (Thread.proc.inj eq ▸ awake.1.2.1)) id
  | sched at_p =>
    have ne : p ≠ q := by
      intro eq
      subst eq
      exact awake.1.2.2 at_p
    exact awake.go (fun _ => ⟨nofun, nofun, nofun⟩) fun asleep => by rwa [Table.modify_of_ne _ _ ne] at asleep
  | tidyOwn at_p same =>
    exact awake.go (fun _ => ⟨nofun, nofun, nofun⟩) (modify_asleep (by simp))
  | tidy at_p ne => exact awake.go (fun _ => ⟨nofun, nofun, nofun⟩) (modify_asleep (by simp))
  | acquireLk at_p free => exact awake.go (fun _ => ⟨nofun, nofun, nofun⟩) id
  | yield opened free =>
    exact awake.go (fun _ => ⟨nofun, nofun, nofun⟩) (modify_asleep (by simp [Sched.Proc.yield]))
  | endYield back at_p =>
    apply awake.go
    · intro _
      rcases held.back q back at_p with rfl | rfl <;> exact ⟨nofun, nofun, nofun⟩
    · exact id
  | sleepElsewhere chan at_p free ne =>
    exact awake.go (fun _ => ⟨nofun, nofun, nofun⟩) (modify_asleep (by simp [Sched.Proc.sleep, ne]))
  | wakeElsewhere at_p => exact awake.go (fun _ => ⟨nofun, nofun, nofun⟩) (modify_asleep (by simp))

theorem Awake.step (held : Sound m s) (awake : m.Awake s p) (taken : m.Takes s a s') (no_test : tests s a ≠ some p) :
    m.Awake s' p := by
  cases m.step_cases taken with
  | enter c idle free => exact awake
  | leave c at_c => exact awake
  | dispatch c k at_c runnable => exact ⟨awake.1, fun asleep => awake.2 (modify_asleep (by simp) asleep)⟩
  | interruptIdle c at_c => exact awake
  | interrupt c k at_c opened => exact awake
  | iret c under at_c done => exact awake
  | thread c t move s' at_c moved => exact awake.moved moved
  | proc c k nap s' at_c napped =>
    apply awake.napped held at_c napped
    intro eq same
    subst eq same
    exact no_test (by simp only [tests, at_c])
  | wakeupOther chan => exact ⟨awake.1, fun asleep => awake.2 (wakeup_asleep asleep)⟩
  | kill pid k =>
    apply And.intro awake.1
    intro asleep
    apply awake.2
    apply modify_asleep _ asleep
    intro now
    unfold Sched.Proc.kill at now
    split at now
    · exact nomatch now.1
    · exact absurd now.1 ‹_›
  | killNone pid => exact awake

theorem Moved.pc_of_ne {move : Move} (moved : Moved m s c t move s') (ne : w ≠ t) : s'.pc w = s.pc w := by
  cases moved with
  | makeFalse at_t => rfl
  | _ => exact update_of_ne ne ..

theorem Napped.pc_of_ne {nap : Nap} (napped : Napped m s c p nap s') (ne : w ≠ .proc p) : s'.pc w = s.pc w := by
  cases napped with
  | true => rfl
  | _ => exact update_of_ne ne ..

/-- When a waker looks for sleepers, nobody is between the test and `swtch`: the test is under `lk`, and
    `ptable.lock` is taken before `lk` is released. -/
theorem clear_path (held : Sound m s) (at_w : s.pc w = .waking) (ne : w ≠ .proc p) :
    s.pc (.proc p) ≠ .tested ∧ s.pc (.proc p) ≠ .locked ∧ s.pc (.proc p) ≠ .committed := by
  obtain ⟨d, at_d⟩ := held.seated (t := w) (by simp [at_w, Pc.Open]) (by simp [at_w, Pc.Parked])
  have apart : ∀ pc l, m.Holds pc l → m.Holds .waking l → ¬ pc.Open → ¬ pc.Parked → s.pc (.proc p) ≠ pc := by
    intro pc l mine yours active up at_p
    subst at_p
    obtain ⟨c, at_c⟩ := held.seated active up
    exact ne (held.exclusive at_c at_d mine (at_w.symm ▸ yours)).symm
  have lk : m.Holds .waking m.lk := .inl rfl
  exact ⟨apart .tested m.lk rfl lk (by simp [Pc.Open]) (by simp [Pc.Parked]),
    apart .locked m.lk (.inl rfl) lk (by simp [Pc.Open]) (by simp [Pc.Parked]),
    apart .committed .ptable rfl (.inr rfl) (by simp [Pc.Open]) (by simp [Pc.Parked])⟩

theorem roused (held : Sound m s) (at_w : s.pc w = .waking) :
    m.Awake { s with ptable := s.ptable.wakeup1 m.chan, pc := update s.pc w .woke } p := by
  constructor
  · by_cases same : .proc p = w
    · simp only [same, update_self]
      exact ⟨nofun, nofun, nofun⟩
    · simp only [update_of_ne same]
      exact clear_path held at_w (Ne.symm same)
  · intro asleep
    have before := wakeup_asleep asleep
    simp [Table.wakeup1, Sched.Proc.wakeup, before] at asleep

/-- Until it has looked for sleepers a waker stays on its way; when it has, everybody is awake. -/
theorem rouse (held : Sound m s) (rousing : s.Rousing w) (taken : m.Takes s a s') : s'.Rousing w ∨ m.Awake s' p := by
  have still : s'.pc w = s.pc w → s'.Rousing w ∨ m.Awake s' p := by
    intro same
    left
    rwa [State.Rousing, same]
  cases m.step_cases taken with
  | thread c t move s' at_c moved =>
    by_cases same : w = t
    · subst same
      cases moved with
      | wakeupOwn at_w lk => exact .inl (.inr (update_self ..))
      | wakeupAcquire at_w free => exact .inl (.inr (update_self ..))
      | wakeup1 at_w => exact .inr (roused held at_w)
      | makeFalse at_w => exact still rfl
      | _ at_w => simp [State.Rousing, at_w] at rousing
    · exact still (moved.pc_of_ne same)
  | proc c k nap s' at_c napped =>
    by_cases same : w = .proc k
    · subst same
      cases napped with
      | true => exact still rfl
      | yield opened => rcases opened with h | h <;> simp [State.Rousing, h] at rousing
      | endYield back at_w => simp [State.Rousing, at_w] at rousing
      | sleepElsewhere chan at_w => simp [State.Rousing, at_w] at rousing
      | _ at_w => simp [State.Rousing, at_w] at rousing
    · exact still (napped.pc_of_ne same)
  | _ => exact still rfl

theorem made (taken : m.Takes x a s') (makes : makes x a = some w) : s'.pc w = .made := by
  cases m.step_cases taken with
  | thread c t move s' at_c moved =>
    cases moved with
    | makeTrue at_t =>
      have eq : x.thread c = some w := makes
      cases eq.symm.trans at_c
      exact update_self ..
    | _ => cases makes
  | proc c p nap s' at_c napped => cases makes
  | _ => cases makes

theorem woke (taken : m.Takes y b s') (wakes : wakes y b = some w) : y.pc w = .woke := by
  cases m.step_cases taken with
  | thread c t move s' at_c moved =>
    have eq : ∀ u, y.thread c = some u → Meeting.wakes y (.thread c .wakeupRelease) = some w → u = w := by
      intro u at_u woken
      exact Option.some.inj (at_u.symm.trans woken)
    cases moved with
    | wokeOwn at_t lk => exact eq t at_c wakes ▸ at_t
    | wakeupRelease at_t ne => exact eq t at_c wakes ▸ at_t
    | _ => cases wakes
  | proc c p nap s' at_c napped => cases wakes
  | _ => cases wakes

theorem sound_of_path {past : List (State × Action)} (held : Sound m x) (path : Path m.Takes x past s) : Sound m s :=
  path.always held fun held taken => held.step taken

theorem Awake.run {past : List (State × Action)} (held : Sound m x) (awake : m.Awake x p) (path : Path m.Takes x past s)
    (no_test : ∀ entry ∈ past, tests entry.1 entry.2 ≠ some p) : m.Awake s p := by
  induction path with
  | nil => exact awake
  | snoc before taken ih =>
    have awake := ih fun entry member => no_test entry (.tail _ member)
    exact awake.step (sound_of_path held before) taken (no_test _ (.head _))

theorem rousing_run {past : List (State × Action)} (held : Sound m x) (rousing : x.Rousing w) (path : Path m.Takes x past s)
    (no_test : ∀ entry ∈ past, tests entry.1 entry.2 ≠ some p) :
    s.Rousing w ∨ m.Awake s p := by
  induction path with
  | nil => exact .inl rousing
  | snoc before taken ih =>
    have held := sound_of_path held before
    rcases ih fun entry member => no_test entry (.tail _ member) with rousing | awake
    · exact rouse held rousing taken
    · exact .inr (awake.step held taken (no_test _ (.head _)))

theorem returned (held : Sound m s) (taken : m.Takes s a s') (returns : m.returns s a = some p) :
    ∃ c, s'.cpu c = .running p ∧ s'.lock m.lk = some c ∧ (s'.ptable p).chan = none := by
  cases m.step_cases taken with
  | proc c k nap s' at_c napped =>
    have own := fun l pc (at_p : s.pc (.proc k) = pc) => held.own (l := l) (thread_running.mpr at_c) at_p
    cases napped with
    | tidyOwn at_p same =>
      simp only [Meeting.returns, at_c, if_pos same, Option.some.injEq] at returns
      subst returns
      exact ⟨c, at_c, same ▸ own .ptable _ at_p rfl, by simp⟩
    | tidy at_p ne => simp only [Meeting.returns, at_c, if_neg ne, reduceCtorEq] at returns
    | acquireLk at_p free =>
      simp only [Meeting.returns, at_c, Option.some.injEq] at returns
      subst returns
      exact ⟨c, at_c, update_self .., (held.chan k).resolve_right (by simp [at_p, Pc.Asleep])⟩
    | _ => cases returns
  | thread c t move s' at_c moved => cases returns
  | _ => cases returns

/-- For every lock and channel, any processes, any wakers and any interleaving: a process that sleeps on the channel
    has tested the condition after the last time it was made true with a completed wakeup, and `sleep` returns with
    the lock held and `chan` clear. -/
theorem no_wakeup_lost (m : Meeting) (live : Slot → Bool) (condition : Bool) {past : List (State × Action)} {s : State}
    (path : Path m.Takes (start live condition) past s) :
    (∀ p, (s.ptable p).state = .sleeping → (s.ptable p).chan = some m.chan →
      ∀ later y b between x a before w, past = later ++ (y, b) :: (between ++ (x, a) :: before) →
        makes x a = some w → wakes y b = some w →
          ∃ entry ∈ later ++ (y, b) :: between, tests entry.1 entry.2 = some p) ∧
      ∀ a s' p, m.Takes s a s' → m.returns s a = some p →
        ∃ c, s'.cpu c = .running p ∧ s'.lock m.lk = some c ∧ (s'.ptable p).chan = none := by
  have sound : Sound m (start live condition) := .start live condition
  constructor
  · intro p asleep on_chan later y b between x a before w eq makes wakes
    by_contra no_test
    push Not at no_test
    subst eq
    obtain ⟨early, z, waking, late⟩ := path.cut
    obtain ⟨early, x', making, middle⟩ := early.cut
    have held : Sound m x' := (sound_of_path sound early).step making
    have rousing : x'.Rousing w := .inl (made making makes)
    have no_test : (∀ entry ∈ later, tests entry.1 entry.2 ≠ some p) ∧ tests y b ≠ some p ∧
        ∀ entry ∈ between, tests entry.1 entry.2 ≠ some p :=
      ⟨fun entry member => no_test entry (by simp [member]), no_test (y, b) (by simp),
        fun entry member => no_test entry (by simp [member])⟩
    rcases rousing_run held rousing middle no_test.2.2 with still | awake
    · simp [State.Rousing, woke waking wakes] at still
    · have awake := awake.step (sound_of_path held middle) waking no_test.2.1
      have final := awake.run (sound_of_path held (.snoc middle waking)) late no_test.1
      exact final.2 ⟨asleep, on_chan⟩
  · exact fun a s' p taken returns => returned (sound_of_path sound path) taken returns

theorem twice {α : Type} {past : List α} {i j : Nat} {e f : α} (at_i : past[i]? = some e) (at_j : (past.drop (i + 1))[j]? = some f) :
    past = past.take i ++ e :: ((past.drop (i + 1)).take j ++ f :: (past.drop (i + 1)).drop (j + 1)) := by
  obtain ⟨inside, rfl⟩ := List.getElem?_eq_some_iff.mp at_i
  obtain ⟨inside', rfl⟩ := List.getElem?_eq_some_iff.mp at_j
  rw [← List.drop_eq_getElem_cons inside', List.take_append_drop, ← List.drop_eq_getElem_cons inside, List.take_append_drop]

/-- A sleeper is woken, finds the condition false again and sleeps a second time. -/
theorem no_wakeup_lost_of_retest : ∃ p w past s, Path (Takes ⟨.other, .other 4⟩) (start (fun _ => true) false) past s ∧
    (s.ptable p).state = .sleeping ∧ ∃ later y b between x a before,
      past = later ++ (y, b) :: (between ++ (x, a) :: before) ∧ makes x a = some w ∧ wakes y b = some w ∧
        ∃ entry ∈ later ++ (y, b) :: between, tests entry.1 entry.2 = some p := by
  let m : Meeting := ⟨.other, .other 4⟩
  let p : Slot := ⟨0, by decide⟩
  let w : Slot := ⟨1, by decide⟩
  obtain ⟨past, s, path, reached⟩ := replay_reaches m.step (start (fun _ => true) false)
    ([.enter 0, .dispatch 0 p, .proc 0 .endYield, .enter 1, .dispatch 1 w, .proc 1 .endYield,
      .thread 0 .acquire, .proc 0 .test, .proc 0 .lockTable, .proc 0 .releaseLk, .proc 0 .sched, .leave 0,
      .thread 1 .acquire, .thread 1 .makeTrue, .thread 1 .wakeupAcquire, .thread 1 .wakeup1, .thread 1 .wakeupRelease,
      .thread 1 .makeFalse, .thread 1 .release,
      .enter 0, .dispatch 0 p, .proc 0 .tidy, .proc 0 .acquireLk, .proc 0 .test, .proc 0 .lockTable, .proc 0 .releaseLk,
      .proc 0 .sched])
    (fun past s => (s.ptable p).state = .sleeping ∧ (s.ptable p).chan = some m.chan ∧
      past[10]?.any (fun entry => decide (wakes entry.1 entry.2 = some (.proc w))) ∧
      (past.drop 11)[2]?.any (fun entry => decide (makes entry.1 entry.2 = some (.proc w)))) (by decide +kernel)
  simp only [decide_eq_true_eq, Option.any_eq_true] at reached
  obtain ⟨asleep, on_chan, ⟨⟨y, b⟩, at_y, wakes⟩, ⟨x, a⟩, at_x, makes⟩ := reached
  have eq := twice at_y at_x
  exact ⟨p, .proc w, past, s, path, asleep, _, y, b, _, x, a, _, eq, makes, wakes,
    (no_wakeup_lost m (fun _ => true) false path).1 p asleep on_chan _ y b _ x a _ (.proc w) eq makes wakes⟩

end Meeting

end Xv6.Sleep
