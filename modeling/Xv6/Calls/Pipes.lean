import Xv6.Calls.Rules

namespace Xv6.Fs

open Function Outcome Tally Transition Xv6.Stream

variable {sb : Superblock} {devsw : Devsw}

/-- The end of a pipe that a file is, by its page and by whether it is the one to write to. -/
def File.pipeEnd (file : File) : Option (Nat × Bool) :=
  if file.type = .FD_PIPE then some (file.pipe, file.writable) else none

theorem File.pipeEnd_of_pipe {file : File} (type : file.type = .FD_PIPE) :
    file.pipeEnd = some (file.pipe, file.writable) := if_pos type

theorem File.pipeEnd_of_other {file : File} (type : file.type ≠ .FD_PIPE) : file.pipeEnd = none := if_neg type

theorem File.pipeEnd_close {file : File} : file.close.pipeEnd = none := if_neg (by simp [File.close])

def side (p : Pipe) (writable : Bool) : Bool := if writable then p.writeopen else p.readopen

theorem side_pipeclose (p : Pipe) (w v : Bool) : side (Stream.pipeclose p w) v = if v = w then false else side p v := by
  cases w <;> cases v <;> rfl

theorem side_pipealloc (data : Fin PIPESIZE → UInt8) (w : Bool) : side (Stream.pipealloc data) w = true := by
  cases w <;> rfl

/-- A pipe has the sides that files are the ends of, and a page is a pipe as long as it has one. Its page is not free. -/
structure Pipes (ends : Fin NFILE → Option (Nat × Bool)) (owned : Nat → Prop) (pipe : Nat → Option Pipe)
    (freelist : List Nat) : Prop where
  sides : ∀ page p, pipe page = some p → ∀ w, side p w = true ↔ ∃ f, ends f = some (page, w)
  used : ∀ page p, pipe page = some p → ∃ w, side p w = true
  live : ∀ f page w, ends f = some (page, w) → (pipe page).isSome
  alone : ∀ f g e, ends f = some e → ends g = some e → f = g
  nodup : freelist.Nodup
  apart : ∀ page ∈ freelist, pipe page = none
  pages : ∀ page, (pipe page).isSome ∨ page ∈ freelist ↔ owned page

namespace Pipes

variable {ends : Fin NFILE → Option (Nat × Bool)} {owned : Nat → Prop} {pipe : Nat → Option Pipe} {freelist next : List Nat}
  {f f0 f1 g : Fin NFILE} {page other : Nat} {w : Bool} {p : Pipe}

theorem update_some {e : Nat × Bool} (here : update ends f none g = some e) : g ≠ f ∧ ends g = some e := by
  by_cases same : g = f
  · subst same
    rw [update_self] at here
    cases here
  · rw [update_of_ne same] at here
    exact ⟨same, here⟩

theorem sides_closed (pipes : Pipes ends owned pipe freelist) (here : ends f = some (page, w)) (v : Bool)
    (found : pipe page = some p) :
    side (Stream.pipeclose p w) v = true ↔ ∃ g, update ends f none g = some (page, v) := by
  rw [side_pipeclose]
  by_cases same : v = w
  · subst same
    rw [if_pos rfl]
    constructor
    · exact nofun
    · rintro ⟨g, at_g⟩
      obtain ⟨ne, at_g⟩ := update_some at_g
      exact absurd (pipes.alone g f _ at_g here) ne
  · rw [if_neg same, pipes.sides page p found v]
    constructor
    · rintro ⟨g, at_g⟩
      have ne : g ≠ f := by
        rintro rfl
        rw [here] at at_g
        cases at_g
        exact same rfl
      exact ⟨g, by rw [update_of_ne ne]; exact at_g⟩
    · rintro ⟨g, at_g⟩
      exact ⟨g, (update_some at_g).2⟩

theorem others_closed (here : ends f = some (page, w)) (ne : other ≠ page) (v : Bool) :
    (∃ g, ends g = some (other, v)) ↔ ∃ g, update ends f none g = some (other, v) := by
  constructor
  · rintro ⟨g, at_g⟩
    have away : g ≠ f := by
      rintro rfl
      rw [here] at at_g
      cases at_g
      exact ne rfl
    exact ⟨g, by rw [update_of_ne away]; exact at_g⟩
  · rintro ⟨g, at_g⟩
    exact ⟨g, (update_some at_g).2⟩

theorem close (pipes : Pipes ends owned pipe freelist) (here : ends f = some (page, w)) (found : pipe page = some p)
    (still : ∃ v, side (Stream.pipeclose p w) v = true) :
    Pipes (update ends f none) owned (update pipe page (some (Stream.pipeclose p w))) freelist where
  sides other q found' v := by
    by_cases same : other = page
    · subst same
      rw [update_self] at found'
      cases found'
      exact pipes.sides_closed here v found
    · rw [update_of_ne same] at found'
      exact (pipes.sides other q found' v).trans (others_closed here same v)
  used other q found' := by
    by_cases same : other = page
    · subst same
      rw [update_self] at found'
      cases found'
      exact still
    · rw [update_of_ne same] at found'
      exact pipes.used other q found'
  live g other v at_g := by
    have before := pipes.live g other v (update_some at_g).2
    by_cases same : other = page
    · subst same
      rw [update_self]
      rfl
    · rw [update_of_ne same]
      exact before
  alone g h e at_g at_h := pipes.alone g h e (update_some at_g).2 (update_some at_h).2
  nodup := pipes.nodup
  apart other member := by
    have free := pipes.apart other member
    by_cases same : other = page
    · subst same
      rw [free] at found
      cases found
    · rw [update_of_ne same]
      exact free
  pages other := by
    rw [← pipes.pages other]
    by_cases same : other = page
    · subst same
      rw [update_self, found]
      rfl
    · rw [update_of_ne same]

theorem free (pipes : Pipes ends owned pipe freelist) (here : ends f = some (page, w)) (found : pipe page = some p)
    (gone : ∀ v, side (Stream.pipeclose p w) v = false) :
    Pipes (update ends f none) owned (update pipe page none) (page :: freelist) where
  sides other q found' v := by
    by_cases same : other = page
    · subst same
      rw [update_self] at found'
      cases found'
    · rw [update_of_ne same] at found'
      exact (pipes.sides other q found' v).trans (others_closed here same v)
  used other q found' := by
    by_cases same : other = page
    · subst same
      rw [update_self] at found'
      cases found'
    · rw [update_of_ne same] at found'
      exact pipes.used other q found'
  live g other v at_g := by
    by_cases same : other = page
    · subst same
      have still := (pipes.sides_closed here v found).mpr ⟨g, at_g⟩
      rw [gone v] at still
      cases still
    · rw [update_of_ne same]
      exact pipes.live g other v (update_some at_g).2
  alone g h e at_g at_h := pipes.alone g h e (update_some at_g).2 (update_some at_h).2
  nodup := by
    apply List.nodup_cons.mpr
    constructor
    · intro member
      rw [pipes.apart page member] at found
      cases found
    · exact pipes.nodup
  apart other member := by
    by_cases same : other = page
    · subst same
      exact update_self ..
    · rw [update_of_ne same]
      exact pipes.apart other ((List.mem_cons.mp member).resolve_left same)
  pages other := by
    rw [← pipes.pages other, List.mem_cons]
    by_cases same : other = page
    · subst same
      simp [found]
    · simp [same]

theorem create (pipes : Pipes ends owned pipe (page :: next)) (ne : f0 ≠ f1) (free0 : ends f0 = none)
    (free1 : ends f1 = none) (data : Fin PIPESIZE → UInt8) :
    Pipes (update (update ends f0 (some (page, false))) f1 (some (page, true))) owned
      (update pipe page (some (Stream.pipealloc data))) next := by
  have unused : pipe page = none := pipes.apart page (List.mem_cons_self ..)
  have old : ∀ g v, ends g ≠ some (page, v) := by
    intro g v at_g
    have live := pipes.live g page v at_g
    rw [unused] at live
    cases live
  have value : ∀ g e, update (update ends f0 (some (page, false))) f1 (some (page, true)) g = some e ↔
      g = f0 ∧ e = (page, false) ∨ g = f1 ∧ e = (page, true) ∨ ends g = some e := by
    intro g e
    by_cases first : g = f0
    · subst first
      rw [update_of_ne ne, update_self]
      simp [free0, ne, eq_comm]
    · by_cases second : g = f1
      · subst second
        rw [update_self]
        simp [free1, first, eq_comm]
      · rw [update_of_ne second, update_of_ne first]
        simp [first, second]
  constructor
  · intro other q found v
    by_cases same : other = page
    · subst same
      rw [update_self] at found
      cases found
      rw [side_pipealloc]
      simp only [value, true_iff]
      cases v with
      | false => exact ⟨f0, .inl ⟨rfl, rfl⟩⟩
      | true => exact ⟨f1, .inr (.inl ⟨rfl, rfl⟩)⟩
    · rw [update_of_ne same] at found
      rw [pipes.sides other q found v]
      simp only [value, Prod.mk.injEq, same, false_and, and_false, false_or]
  · intro other q found
    by_cases same : other = page
    · subst same
      rw [update_self] at found
      cases found
      exact ⟨true, side_pipealloc data true⟩
    · rw [update_of_ne same] at found
      exact pipes.used other q found
  · intro g other v at_g
    by_cases same : other = page
    · subst same
      rw [update_self]
      rfl
    · rw [update_of_ne same]
      rcases (value g _).mp at_g with ⟨_, eq⟩ | ⟨_, eq⟩ | before
      · cases eq
        exact absurd rfl same
      · cases eq
        exact absurd rfl same
      · exact pipes.live g other v before
  · intro g h e at_g at_h
    rcases (value g e).mp at_g with ⟨rfl, rfl⟩ | ⟨rfl, rfl⟩ | before <;>
      rcases (value h _).mp at_h with ⟨eq, eq'⟩ | ⟨eq, eq'⟩ | after
    · exact eq.symm
    · cases eq'
    · exact absurd after (old h false)
    · cases eq'
    · exact eq.symm
    · exact absurd after (old h true)
    · subst eq'
      exact absurd before (old g false)
    · subst eq'
      exact absurd before (old g true)
    · exact pipes.alone g h e before after
  · exact (List.nodup_cons.mp pipes.nodup).2
  · intro other member
    have ne : other ≠ page := by
      rintro rfl
      exact (List.nodup_cons.mp pipes.nodup).1 member
    rw [update_of_ne ne]
    exact pipes.apart other (List.mem_cons_of_mem _ member)
  · intro other
    rw [← pipes.pages other, List.mem_cons]
    by_cases same : other = page
    · subst same
      simp
    · simp [same]

end Pipes

end Xv6.Fs
