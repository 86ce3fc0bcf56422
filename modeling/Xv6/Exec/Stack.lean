import Xv6.Books.Image
import Xv6.Cow.Isolation
import Xv6.Exec.Code
import Xv6.Library.Reading
import Xv6.Memory.Copyout

namespace Xv6

open CommandProgram Function Ledger Discipline Reading

/-- What user code reads with page table `x`. -/
def PgDir.space (x : PgDir) (ram : Nat → Page) : Space := fun va =>
  if x.User (pageOf (va % 2 ^ 32)) then some (ram (x.pte (pageOf (va % 2 ^ 32))).addr (va % pgSize)) else none

section Space

variable {x : PgDir} {va b : Nat} {bytes : List UInt8} {ram ram' : Nat → Page}

theorem Stored.holds (stored : Stored x va bytes ram ram') (reached : ReachesUser x va bytes.length) :
    Holds (x.space ram') va bytes := by
  intro j inside
  have user : x.User (pageOf ((va + j) % 2 ^ 32)) := reached j inside
  unfold PgDir.space
  rw [if_pos user]
  exact congrArg some (stored.there j inside)

theorem Stored.frame (stored : Stored x va bytes ram ram') (reached : ReachesUser x va bytes.length) (plain : x.Plain)
    (away : ∀ j, j < bytes.length → b % 2 ^ 32 ≠ (va + j) % 2 ^ 32) : x.space ram' b = x.space ram b := by
  unfold PgDir.space
  by_cases user : x.User (pageOf (b % 2 ^ 32))
  · rw [if_pos user, if_pos user, stored.elsewhere]
    intro j inside ⟨frame, offset⟩
    have page := plain.apart _ _ user (reached j inside) frame
    apply away j inside
    unfold bytePage byteOff pageOf pgSize at *
    omega
  · rw [if_neg user, if_neg user]

end Space

/-- Strings on a stack that grows down from `sp` to `sp'` and not below `bottom`, with the places where they begin. -/
inductive Placed (mem : Space) (bottom : Nat) : Nat → List (List UInt8) → List Nat → Nat → Prop
  | nil {sp : Nat} : Placed mem bottom sp [] [] sp
  | cons {sp q sp' : Nat} {arg : List UInt8} {rest : List (List UInt8)} {pointers : List Nat} (aligned : q % 4 = 0)
      (low : bottom ≤ q) (below : q + arg.length + 1 ≤ sp) (bytes : Holds mem q (arg ++ [0]))
      (placed : Placed mem bottom q rest pointers sp') : Placed mem bottom sp (arg :: rest) (q :: pointers) sp'

namespace Placed

variable {mem mem' : Space} {bottom sp sp' : Nat} {argv : List (List UInt8)} {pointers : List Nat}

theorem le (placed : Placed mem bottom sp argv pointers sp') : sp' ≤ sp := by
  induction placed with
  | nil => exact Nat.le_refl _
  | cons _ _ below _ _ ih => omega

theorem low (placed : Placed mem bottom sp argv pointers sp') (start : bottom ≤ sp) : bottom ≤ sp' := by
  induction placed with
  | nil => exact start
  | cons _ low _ _ _ ih => exact ih low

theorem aligned (placed : Placed mem bottom sp argv pointers sp') (start : sp % 4 = 0) : sp' % 4 = 0 := by
  induction placed with
  | nil => exact start
  | cons aligned _ _ _ _ ih => exact ih aligned

theorem congr (placed : Placed mem bottom sp argv pointers sp') (same : ∀ i, sp' ≤ i → i < sp → mem' i = mem i) :
    Placed mem' bottom sp argv pointers sp' := by
  induction placed with
  | nil => exact .nil
  | cons aligned low below bytes placed ih =>
    have le := placed.le
    refine .cons aligned low below (bytes.congr fun i above upto => ?_) (ih fun i above upto => ?_)
    · rw [List.length_append, List.length_singleton] at upto
      exact same i (by omega) (by omega)
    · exact same i above (by omega)

theorem length_eq (placed : Placed mem bottom sp argv pointers sp') : pointers.length = argv.length := by
  induction placed with
  | nil => rfl
  | cons _ _ _ _ _ ih => rw [List.length_cons, List.length_cons, ih]

/-- The pointers are word-aligned and lie between the two ends of the stack. -/
theorem pointer (placed : Placed mem bottom sp argv pointers sp') :
    ∀ q ∈ pointers, q % 4 = 0 ∧ bottom ≤ q ∧ sp' ≤ q ∧ q < sp := by
  induction placed with
  | nil => exact fun q member => absurd member List.not_mem_nil
  | cons aligned low below _ placed ih =>
    intro q member
    rcases List.mem_cons.mp member with rfl | later
    · exact ⟨aligned, low, placed.le, by omega⟩
    · have there := ih q later
      exact ⟨there.1, there.2.1, there.2.2.1, by omega⟩

theorem strings (placed : Placed mem bottom sp argv pointers sp') (nul : ∀ arg ∈ argv, 0 ∉ arg) {fuel : Nat}
    (enough : sp - bottom ≤ fuel) : pointers.mapM (string mem fuel) = some argv := by
  induction placed with
  | nil => rfl
  | cons aligned low below bytes placed ih =>
    rename_i sp q sp' arg rest pointers
    have here : string mem fuel q = some arg := string_bytes (nul arg List.mem_cons_self) (by omega) bytes
    have later := ih (fun arg member => nul arg (List.mem_cons_of_mem _ member)) (by omega)
    rw [List.mapM_cons, here, later]
    rfl

/-- The place and the length of each string with its NUL. -/
def areas (argv : List (List UInt8)) (pointers : List Nat) : List (Nat × Nat) :=
  List.zipWith (fun q arg => (q, arg.length + 1)) pointers argv

theorem area (placed : Placed mem bottom sp argv pointers sp') :
    ∀ a ∈ areas argv pointers, bottom ≤ a.1 ∧ sp' ≤ a.1 ∧ a.1 + a.2 ≤ sp := by
  induction placed with
  | nil => exact fun a member => absurd member List.not_mem_nil
  | cons aligned low below _ placed ih =>
    intro a member
    rcases List.mem_cons.mp member with rfl | later
    · exact ⟨low, placed.le, by omega⟩
    · have there := ih a later
      exact ⟨there.1, there.2.1, by omega⟩

theorem apart (placed : Placed mem bottom sp argv pointers sp') :
    (areas argv pointers).Pairwise fun a b => a.1 + a.2 ≤ b.1 ∨ b.1 + b.2 ≤ a.1 := by
  induction placed with
  | nil => exact .nil
  | cons aligned low below _ placed ih =>
    apply List.Pairwise.cons _ ih
    exact fun b member => .inr (placed.area b member).2.2

end Placed

variable {ι : Type} [Fintype ι] [DecidableEq ι]
variable {S : Setting ι} {lo : Proc} {gh : Gh} {d k va sp sz : Nat} {x : PgDir} {a : Proc × Gh} {bytes : List UInt8}

/-- The pages as the operation under way knows them. -/
def Gh.pages (g : Gh) : Nat → Page := fun f => (g.seen f).1

theorem Gh.pages_see (g : Gh) (f : Nat) (page : Page) : (g.see f page).pages = update g.pages f page := by
  funext f'
  show (update g.seen f (page, (g.seen f).2) f').1 = update g.pages f page f'
  by_cases same : f' = f
  · rw [same, update_self, update_self]
  · rw [update_of_ne same, update_of_ne same]
    rfl

/-- A page table whose user pages may all be written. -/
structure PgDir.Ready (x : PgDir) : Prop extends x.Plain where
  opened : ∀ v, x.User v → Open x v

/-- What `copyout` leaves when it returns 0. -/
structure Delivered (x : PgDir) (va : Nat) (bytes : List UInt8) (g g' : Gh) : Prop where
  reached : ReachesUser x va bytes.length
  stored : Stored x va bytes g.pages g'.pages

theorem Delivered.nil : Delivered x va [] gh gh := ⟨fun _ low => absurd low (Nat.not_lt_zero _), .nil⟩

variable [KernelImage]

theorem copyout_outline (beside : Beside d x a (lo, gh)) (ready : x.Ready) (lax : ¬ S.strict) (small : va < 2 ^ 32)
    (fuel : bytes = [] ∨ va % pgSize + bytes.length ≤ k * pgSize) :
    S.Outline (copyout d k va bytes) lo gh (fun copied lo' gh' => Beside d x a (lo', gh') ∧
      (copied = true → Delivered x va bytes gh gh')) := by
  induction k generalizing va bytes gh with
  | zero =>
    have empty : bytes = [] := fuel.elim id fun none => List.length_eq_zero_iff.mp (by omega)
    subst empty
    rw [copyout_nil]
    exact pure_rule ⟨beside, fun _ => .nil⟩
  | succ k ih =>
    by_cases empty : bytes = []
    · subst empty
      rw [copyout_nil]
      exact pure_rule ⟨beside, fun _ => .nil⟩
    · have fuel := fuel.resolve_left empty
      have offset : va % pgSize < pgSize := Nat.mod_lt _ (by decide)
      have page : pageOf (pageOf va * pgSize) = pageOf va := Nat.mul_div_cancel _ (by decide)
      rw [copyout, if_neg empty]
      unfold uva2ka
      rw [bind_assoc]
      apply walk_rule beside.at_d
      case missing => exact fun _ => Discipline.outline_fail.mpr ⟨lax, by simp⟩
      intro _
      simp only [bind_assoc]
      apply pte_rule
      intro _
      rw [Proc.dir_of beside.at_d, page]
      by_cases user : x.User (pageOf va)
      · rw [if_pos (by simpa [PgDir.User] using user), pure_bind]
        have here := ready.opened _ user
        apply beside.store here.user here.present here.writable
        intro beside'
        by_cases last : bytes.length ≤ pgSize - va % pgSize
        · rw [Nat.min_eq_right last, List.take_length, List.drop_length, copyout_nil] at *
          refine pure_rule ⟨beside', fun _ => ⟨fun j low => ?_, ?_⟩⟩
          · rwa [bytePage_here small (by omega)]
          · rw [Gh.pages_see]
            exact .of_store small (by omega)
        · rw [Nat.min_eq_left (by omega)] at *
          obtain ⟨n, eq⟩ : ∃ n, n = pgSize - va % pgSize := ⟨_, rfl⟩
          rw [← eq] at beside' ⊢
          have whole : va % pgSize + n = pgSize := by omega
          have taken : (bytes.take n).length = n := List.length_take_of_le (by omega)
          have dropped : (bytes.drop n).length = bytes.length - n := List.length_drop
          apply (ih beside' (Nat.mod_lt _ (by decide)) (.inr (by unfold pgSize at *; omega))).mono
          rintro copied lo' gh' ⟨after, rest⟩
          refine ⟨after, fun done => ?_⟩
          obtain ⟨reached, stored⟩ := rest done
          have all := reached.next small user whole
          rw [dropped, Nat.add_sub_cancel' (by omega)] at all
          rw [Gh.pages_see] at stored
          have both := Stored.append (bytes.take n) (bytes.drop n) ready.toPlain small (by omega)
            (by rwa [List.take_append_drop]) (.of_store small (by omega)) stored
          rw [List.take_append_drop] at both
          exact ⟨all, both⟩
      · rw [if_neg (by simpa [PgDir.User] using user), pure_bind]
        exact pure_rule ⟨beside, fun wrong => absurd wrong (by decide)⟩

theorem Beside.apart (beside : Beside d x a (lo, gh)) {s : Shared} {t : ι} {env : ι → Proc × Gh} {count : Nat → ℕ}
    {mark : Nat → Mark} (at_t : env t = (lo, gh)) (inv : S.Inv s env count mark) {v w : Nat} (opened : Open x v)
    (opened' : Open x w) (same : (x.pte v).addr = (x.pte w).addr) : v = w := by
  have at_d : (env t).1.dirs d = some x := by
    rw [at_t]
    exact beside.at_d
  exact (inv.writer_alone at_d at_d opened'.user opened.user opened'.present opened.present opened'.writable same).2.2

theorem Loaded.ready {x' : PgDir} (loaded : Loaded x' sz)
    (entries : x'.pte = update x.pte (pageOf sz - 2) { x.pte (pageOf sz - 2) with u := false })
    (apart : ∀ v w, Open x v → Open x w → (x.pte v).addr = (x.pte w).addr → v = w) : x'.Ready := by
  have same : ∀ v, (x'.pte v).addr = (x.pte v).addr ∧ (x'.pte v).p = (x.pte v).p ∧ (x'.pte v).w = (x.pte v).w := by
    intro v
    rw [entries]
    by_cases guard : v = pageOf sz - 2
    · rw [guard, update_self]
      exact ⟨rfl, rfl, rfl⟩
    · rw [update_of_ne guard]
      exact ⟨rfl, rfl, rfl⟩
  have before : ∀ v, x'.User v → Open x v := by
    intro v user
    have opened := loaded.opened user.1 user.2
    exact ⟨opened.user, (same v).2.1 ▸ opened.present, (same v).2.2 ▸ opened.writable⟩
  refine ⟨⟨fun v user => (before v user).user, fun v w user user' equal => ?_⟩, fun v user => loaded.opened user.1 user.2⟩
  rw [(same v).1, (same w).1] at equal
  exact apart v w (before v user) (before w user') equal

/-- A range of user pages that ends next to the stack pointer begins above the guard page. -/
theorem Loaded.in_stack (loaded : Loaded x sz) {n : Nat} (reached : ReachesUser x va n) (positive : 0 < n)
    (low : sz - pgSize ≤ sp) (ends : sp < va + n + 4) (upper : va + n ≤ sp) (high : sp ≤ sz) : sz - pgSize ≤ va := by
  by_contra below
  have whole := loaded.whole
  have stack := loaded.stack
  have bound := loaded.bound
  obtain ⟨b, place⟩ : ∃ b, b = min (va + n - 1) (sz - pgSize - 1) := ⟨_, rfl⟩
  have user := reached (b - va) (by omega)
  have page : bytePage va (b - va) = pageOf sz - 2 := by
    unfold bytePage pageOf kernBase pgSize at *
    omega
  rw [page] at user
  have mapped := loaded.mapped (pageOf sz - 2) (by unfold pageOf pgSize at *; omega)
  exact mapped.2.2.mp user.2 rfl

omit [KernelImage] in
theorem place_fits {n place : Nat} (eq : place = (sp + 2 ^ 32 - n) % 2 ^ 32 / 4 * 4) (bound : sp < kernBase)
    (fits : place + n ≤ userPages * pgSize) : place % 4 = 0 ∧ place + n ≤ sp ∧ sp < place + n + 4 := by
  rw [userPages_eq] at fits
  unfold kernBase at bound
  unfold pgSize at fits
  omega

theorem pushArgs_outline {argv : List (List UInt8)} {pointers : List Nat} (beside : Beside d x a (lo, gh)) (ready : x.Ready)
    (loaded : Loaded x sz) (lax : ¬ S.strict) (few : pointers.length ≤ maxArg) (low : sz - pgSize ≤ sp) (high : sp ≤ sz) :
    S.Outline (pushArgs d argv sp pointers) lo gh (fun pushed lo' gh' => Beside d x a (lo', gh') ∧
      ∀ sp' all, pushed = some (sp', all) → all.length ≤ maxArg ∧ ∃ places, all = pointers ++ places ∧
        Placed (x.space gh'.pages) (sz - pgSize) sp argv places sp' ∧
        ∀ i, sp ≤ i → i < 2 ^ 32 → x.space gh'.pages i = x.space gh.pages i) := by
  induction argv generalizing sp pointers gh with
  | nil =>
    refine pure_rule ⟨beside, fun sp' all same => ?_⟩
    cases same
    exact ⟨few, [], (List.append_nil _).symm, .nil, fun _ _ _ => rfl⟩
  | cons arg rest ih =>
    unfold pushArgs
    by_cases many : maxArg ≤ pointers.length
    · rw [if_pos many]
      exact pure_rule ⟨beside, fun _ _ wrong => absurd wrong (by simp)⟩
    · rw [if_neg many]
      dsimp only
      obtain ⟨place, eq⟩ : ∃ place, place = (sp + 2 ^ 32 - (arg.length + 1)) % 2 ^ 32 / 4 * 4 := ⟨_, rfl⟩
      have small : place < 2 ^ 32 := by omega
      have length : (arg ++ [0]).length = arg.length + 1 := List.length_append
      rw [← eq]
      apply Outline.andThen (copyout_outline beside ready lax small (.inr ?_))
      · rintro copied lo' gh₁ ⟨beside', delivered⟩
        have same : lo' = lo := beside'.own.trans beside.own.symm
        rw [same] at beside' ⊢
        cases copied
        · exact pure_rule ⟨beside', fun _ _ wrong => absurd wrong (by simp)⟩
        · obtain ⟨reached, stored⟩ := delivered rfl
          have holds := stored.holds reached
          have frame := fun i => stored.frame (b := i) reached ready.toPlain
          rw [length] at reached frame
          have fits := (ready.toPlain.no_wrap small reached).resolve_left (by omega)
          obtain ⟨aligned, upper, ends⟩ := place_fits eq (Nat.lt_of_le_of_lt high loaded.bound) fits
          have bottom := loaded.in_stack reached (by omega) low ends upper high
          apply (ih beside' (by rw [List.length_append, List.length_singleton]; omega) bottom (by omega)).mono
          rintro pushed lo₂ gh₂ ⟨beside₂, result⟩
          refine ⟨beside₂, fun sp' all done => ?_⟩
          obtain ⟨few', places, whole, placed, kept⟩ := result sp' all done
          have user : userPages * pgSize ≤ 2 ^ 32 := by decide
          refine ⟨few', place :: places, ?_, .cons aligned bottom upper (holds.congr fun i above upto => ?_) placed, fun i above small' => ?_⟩
          · rw [whole, List.append_assoc, List.singleton_append]
          · rw [length] at upto
            exact kept i above (by omega)
          · rw [kept i (by omega) small', frame i]
            intro j inside
            omega
      · rw [length]
        unfold pgRoundUp pgSize
        omega

/-- The stack of a new program: the strings from its top down, and below them the words for `main`. -/
structure StackLayout (mem : Space) (sz esp : Nat) (argv : List (List UInt8)) (pointers : List Nat) : Prop where
  low : sz - pgSize ≤ esp
  placed : Placed mem (sz - pgSize) sz argv pointers (esp + 16 + 4 * pointers.length)
  words : Holds mem esp (ustack (esp + 16 + 4 * pointers.length) pointers)

theorem stack_outline {size : Nat} {argv : List (List UInt8)} (flat : Flat x (pgRoundUp size)) (beside : Beside d x a (lo, gh))
    (settled : ∀ f, a.2.tok .uncounted f = 0) (lax : ¬ S.strict) :
    S.Outline (Exec.stack d size argv) lo gh (fun stacked lo' gh' => ∃ x', Beside d x' a (lo', gh') ∧
      ∀ sz esp, stacked = some (sz, esp) → Loaded x' sz ∧ ∃ pointers, StackLayout (x'.space gh'.pages) sz esp argv pointers) := by
  have bad : ∀ {x' : PgDir} {lo' : Proc} {gh' : Gh}, Beside d x' a (lo', gh') →
      S.Outline (pure none) lo' gh' (fun stacked lo' gh' => ∃ x', Beside d x' a (lo', gh') ∧
        ∀ sz esp, stacked = some (sz, esp) → Loaded x' sz ∧ ∃ pointers, StackLayout (x'.space gh'.pages) sz esp argv pointers) :=
    fun beside' => pure_rule ⟨_, beside', fun _ _ wrong => absurd wrong (by simp)⟩
  unfold Exec.stack
  dsimp only
  have same : pgRoundUp (pgRoundUp size * pgSize) = pgRoundUp size := by
    unfold pgRoundUp pgSize
    omega
  have aligned : pgRoundUp size * pgSize % pgSize = 0 := Nat.mul_mod_left ..
  rw [← same] at flat
  generalize pgRoundUp size * pgSize = bottom at *
  apply Outline.andThen (flat.grow beside settled)
  rintro sz lo₂ gh₂ ⟨x₂, beside₂, grown⟩
  by_cases failed : sz = 0
  · rw [if_pos failed]
    exact bad beside₂
  · rw [if_neg failed]
    obtain ⟨exact', fits, flat₂⟩ := grown failed
    have exact' : sz = bottom + 2 * pgSize := by omega
    have whole : sz % pgSize = 0 := by
      unfold pgSize at *
      omega
    have pages : pgRoundUp sz = pageOf sz := by
      unfold pgRoundUp pageOf
      unfold pgSize at *
      omega
    rw [pages] at flat₂
    have guard : pageOf (sz - 2 * pgSize) = pageOf sz - 2 := by
      unfold pageOf pgSize at *
      omega
    have below : pageOf sz - 2 < pageOf sz := by
      unfold pageOf pgSize at *
      omega
    apply fact_rule fun s t env count mark at_t inv => fun v w => beside₂.apart (v := v) (w := w) at_t inv
    intro apart
    apply Outline.andThen (clearpteu_outline beside₂.at_d beside₂.noclaim fun _ => ?_)
    · rintro _ lo₃ gh₃ ⟨rfl, x₃, own, entries, grows⟩
      have beside₃ := beside₂.next (c := (lo₃, gh₃)) own rfl beside₂.noclaim grows.seesAs
      rw [guard] at entries
      have loaded := flat₂.loaded whole (by omega) (by omega) entries
      have ready := loaded.ready entries apart
      apply Outline.andThen (pushArgs_outline beside₃ ready loaded lax (by decide) (Nat.sub_le ..) (Nat.le_refl _))
      rintro (_ | ⟨sp, pointers⟩) lo₄ gh₄ ⟨beside₄, pushed⟩
      · exact bad beside₄
      · obtain ⟨few, places, whole', placed, -⟩ := pushed sp pointers rfl
        rw [List.nil_append] at whole'
        subst whole'
        have length := ustack_length sp pointers
        have bottom' := placed.low (Nat.sub_le ..)
        have top := placed.le
        have stack := loaded.stack
        have bound := loaded.bound
        have esp : (sp + 2 ^ 32 - (ustack sp pointers).length) % 2 ^ 32 + 16 + 4 * pointers.length = sp := by
          rw [length]
          unfold maxArg at few
          unfold kernBase at bound
          unfold pgSize at *
          omega
        dsimp only
        generalize (sp + 2 ^ 32 - (ustack sp pointers).length) % 2 ^ 32 = esp at *
        apply Outline.andThen (copyout_outline beside₄ ready lax (by unfold kernBase at bound; omega) (.inr ?_))
        · rintro copied lo₅ gh₅ ⟨beside₅, delivered⟩
          cases copied
          · exact bad beside₅
          · refine pure_rule ⟨x₃, beside₅, fun size esp' same => ?_⟩
            cases same
            obtain ⟨reached, stored⟩ := delivered rfl
            have holds := stored.holds reached
            have frame := fun i => stored.frame (b := i) reached ready.toPlain
            rw [length] at reached frame
            have low := loaded.in_stack reached (by omega) bottom' (by omega) (by omega) top
            rw [← esp] at placed holds
            refine ⟨loaded, pointers, low, placed.congr fun i above upto => frame i fun j inside => ?_, holds⟩
            unfold kernBase at bound
            omega
        · rw [length]
          unfold maxArg at few
          unfold pgSize
          omega
    · apply PgDir.has_of_present
      rw [guard]
      exact (flat₂.mapped _ below).1

end Xv6
