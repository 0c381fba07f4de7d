import Mathlib.Data.Finset.Card
import RuleScript.Proofs.Scope.Chain

/-! A capture as a walk.

A capture marks a scope, then the one above it, and stops at the first that is marked. It needs no chain that ends: a
walk that comes back to where it has been finds its own mark there.
-/

set_option autoImplicit false

namespace RuleScript.Arena

variable {arena later other : Arena} {scope first last parent : ScopeId}

/-- The walk from a scope, or from none, until there is no scope above or the scope is marked already. -/
inductive Marks : Arena → Option ScopeId → Arena → Prop where
  | top {arena : Arena} : Marks arena none arena
  | met {arena : Arena} {scope : ScopeId} (captured : (arena.frame scope).captured = true) :
    Marks arena (some scope) arena
  | mark {arena later : Arena} {scope : ScopeId} (inside : scope.index < arena.frames.size)
      (open_ : (arena.frame scope).captured = false)
      (rest : Marks (arena.modifyFrame scope Frame.capture) (arena.frame scope).parent later) :
    Marks arena (some scope) later

def ParentsInside (arena : Arena) : Prop :=
  ∀ scope parent, (arena.frame scope).parent = some parent → parent.index < arena.frames.size

/-- A way up from one scope to another on which no scope is captured. -/
inductive OpenWay (arena : Arena) : ScopeId → ScopeId → Prop where
  | here {scope : ScopeId} (open_ : (arena.frame scope).captured = false) : OpenWay arena scope scope
  | up {scope parent last : ScopeId} (open_ : (arena.frame scope).captured = false)
      (has : (arena.frame scope).parent = some parent) (rest : OpenWay arena parent last) : OpenWay arena scope last

theorem OpenWay.first_open (way : arena.OpenWay first last) : (arena.frame first).captured = false := by
  cases way <;> assumption

theorem parent_mark : ((arena.modifyFrame scope Frame.capture).frame first).parent = (arena.frame first).parent :=
  part_modifyFrame Frame.parent fun _ => rfl

theorem ParentsInside.mark (inside : arena.ParentsInside) : (arena.modifyFrame scope Frame.capture).ParentsInside := by
  intro first parent has
  rw [modifyFrame_size]
  exact inside first parent (parent_mark.symm.trans has)

theorem open_of_mark (open_ : ((arena.modifyFrame scope Frame.capture).frame first).captured = false) :
    (arena.frame first).captured = false := by
  by_contra marked
  have keeps : (arena.frame first).Keeps ((arena.modifyFrame scope Frame.capture).frame first) :=
    frame_modifyFrame_keeps Frame.capture_keeps
  exact absurd ((keeps.captured (Bool.eq_true_of_not_eq_false marked)).symm.trans open_) nofun

theorem open_mark_of_ne (different : first ≠ scope) (open_ : (arena.frame first).captured = false) :
    ((arena.modifyFrame scope Frame.capture).frame first).captured = false := by
  rwa [frame_modifyFrame_of_ne Frame.capture different]

theorem OpenWay.of_mark (way : (arena.modifyFrame scope Frame.capture).OpenWay first last) :
    arena.OpenWay first last := by
  induction way with
  | here open_ => exact .here (open_of_mark open_)
  | up open_ has _ ih => exact .up (open_of_mark open_) (parent_mark.symm.trans has) ih

/-- With a scope marked, a way up is still open, or it went through that scope and begins anew above it. -/
theorem OpenWay.mark (way : arena.OpenWay first last) (scope : ScopeId) :
    (arena.modifyFrame scope Frame.capture).OpenWay first last ∨ last = scope ∨
      ∃ parent, (arena.frame scope).parent = some parent ∧
        (arena.modifyFrame scope Frame.capture).OpenWay parent last := by
  induction way with
  | @here first open_ =>
    by_cases same : first = scope
    · exact .inr (.inl same)
    · exact .inl (.here (open_mark_of_ne same open_))
  | @up first parent last open_ has _ ih =>
    rcases ih with way | through
    · by_cases same : first = scope
      · exact .inr (.inr ⟨parent, same ▸ has, way⟩)
      · exact .inl (.up (open_mark_of_ne same open_) (parent_mark.trans has) way)
    · exact .inr through

/-- The ways up from an open scope end there or go on above it, and do not come back to it. -/
theorem openWay_iff (inside : scope.index < arena.frames.size) (open_ : (arena.frame scope).captured = false) :
    arena.OpenWay scope last ↔ last = scope ∨
      ∃ parent, (arena.frame scope).parent = some parent ∧
        (arena.modifyFrame scope Frame.capture).OpenWay parent last := by
  constructor
  · intro way
    refine (way.mark scope).resolve_left fun marked => ?_
    have begins := marked.first_open
    rw [frame_modifyFrame_self Frame.capture inside] at begins
    cases begins
  · rintro (rfl | ⟨parent, has, way⟩)
    · exact .here open_
    · exact .up open_ has way.of_mark

theorem not_openWay_of_captured (captured : (arena.frame scope).captured = true) : ¬ arena.OpenWay scope last :=
  fun way => absurd (captured.symm.trans way.first_open) nofun

/-! ## Walks end -/

def openFrames (arena : Arena) : Finset Nat :=
  (Finset.range arena.frames.size).filter fun index => (arena.frame ⟨index⟩).captured = false

theorem mem_openFrames : scope.index ∈ arena.openFrames ↔
    scope.index < arena.frames.size ∧ (arena.frame scope).captured = false := by
  simp [openFrames]

/-- Each mark leaves fewer frames to be marked. -/
theorem card_openFrames_mark (inside : scope.index < arena.frames.size)
    (open_ : (arena.frame scope).captured = false) :
    (arena.modifyFrame scope Frame.capture).openFrames.card < arena.openFrames.card := by
  refine Finset.card_lt_card (Finset.ssubset_iff_subset_ne.mpr ⟨fun index member => ?_, fun same => ?_⟩)
  · obtain ⟨bound, left⟩ := mem_openFrames.mp (show (ScopeId.mk index).index ∈ _ from member)
    exact mem_openFrames.mpr ⟨by rwa [modifyFrame_size] at bound, open_of_mark left⟩
  · have member : scope.index ∈ (arena.modifyFrame scope Frame.capture).openFrames :=
      same ▸ mem_openFrames.mpr ⟨inside, open_⟩
    have left := (mem_openFrames.mp member).2
    rw [frame_modifyFrame_self Frame.capture inside] at left
    cases left

/-- A walk ends, also where parents go round in a circle. -/
theorem exists_marks (parents : arena.ParentsInside) (start : Option ScopeId)
    (inside : ∀ scope ∈ start, scope.index < arena.frames.size) : ∃ later, Marks arena start later := by
  induction size : arena.openFrames.card using Nat.strong_induction_on generalizing arena start with
  | _ size ih =>
    subst size
    cases start with
    | none => exact ⟨arena, .top⟩
    | some scope =>
      have bound := inside scope rfl
      cases flag : (arena.frame scope).captured with
      | true => exact ⟨arena, .met flag⟩
      | false =>
        -- The walk goes on from the parent, in an arena with one frame less to mark.
        have above : ∀ parent ∈ (arena.frame scope).parent,
            parent.index < (arena.modifyFrame scope Frame.capture).frames.size :=
          fun parent has => by simpa using parents scope parent has
        obtain ⟨later, rest⟩ := ih _ (card_openFrames_mark bound flag) parents.mark _ above rfl
        exact ⟨later, .mark bound flag rest⟩

theorem Marks.frames {start : Option ScopeId} (marks : Marks arena start later) :
    later.frames.size = arena.frames.size ∧ later.free = arena.free ∧
      ∀ id, ((∃ scope ∈ start, arena.OpenWay scope id) → later.frame id = (arena.frame id).capture) ∧
        ((¬ ∃ scope ∈ start, arena.OpenWay scope id) → later.frame id = arena.frame id) := by
  induction marks with
  | top => exact ⟨rfl, rfl, fun id => ⟨fun ⟨_, member, _⟩ => (nomatch member), fun _ => rfl⟩⟩
  | met captured =>
    refine ⟨rfl, rfl, fun id => ⟨fun ⟨_, member, way⟩ => ?_, fun _ => rfl⟩⟩
    cases member
    exact absurd way (not_openWay_of_captured captured)
  | @mark arena later scope inside open_ rest ih =>
    obtain ⟨size, free, frames⟩ := ih
    refine ⟨size.trans (modifyFrame_size Frame.capture), free, fun id => ?_⟩
    obtain ⟨marked, unmarked⟩ := frames id
    have ways : (∃ first ∈ some scope, arena.OpenWay first id) ↔ id = scope ∨
        ∃ parent ∈ (arena.frame scope).parent, (arena.modifyFrame scope Frame.capture).OpenWay parent id := by
      simpa using openWay_iff inside open_
    rw [ways]
    -- The scope itself is marked by now, whether or not the rest of the walk could come to it.
    by_cases same : id = scope
    · subst same
      have own := frame_modifyFrame_self Frame.capture inside
      refine ⟨fun _ => ?_, fun none => absurd (.inl rfl) none⟩
      by_cases way : ∃ parent ∈ (arena.frame id).parent, (arena.modifyFrame id Frame.capture).OpenWay parent id
      · rw [marked way, own]
        rfl
      · rw [unmarked way, own]
    · have other : (arena.modifyFrame scope Frame.capture).frame id = arena.frame id :=
        frame_modifyFrame_of_ne Frame.capture same
      rw [other] at marked unmarked
      simpa [same] using ⟨fun parent has way => marked ⟨parent, has, way⟩, fun none => unmarked (by simpa using none)⟩

/-- The scopes from a scope on, as long as they are not captured. -/
def openChain (arena : Arena) (limit : Nat) (scope : ScopeId) : List ScopeId :=
  (arena.chainWithin limit scope).takeWhile fun id => !(arena.frame id).captured

theorem capture_eq_openChain (arena : Arena) (scope : ScopeId) :
    arena.capture scope = arena.captureAll (arena.openChain arena.frames.size scope) := rfl

theorem openChain_succ (limit : Nat) (open_ : (arena.frame scope).captured = false) :
    arena.openChain (limit + 1) scope = scope :: (match (arena.frame scope).parent with
      | some parent => arena.openChain limit parent
      | none => []) := by
  unfold openChain
  rw [chainWithin, List.takeWhile_cons, open_]
  cases (arena.frame scope).parent <;> rfl

theorem openChain_of_captured (limit : Nat) (captured : (arena.frame scope).captured = true) :
    arena.openChain limit scope = [] := by
  cases limit <;> simp [openChain, chainWithin, captured]

theorem openChain_mark_subset (scope : ScopeId) (limit : Nat) :
    (arena.modifyFrame scope Frame.capture).openChain limit first ⊆ arena.openChain limit first := by
  intro id member
  induction limit generalizing first with
  | zero => exact member
  | succ limit ih =>
    cases flag : ((arena.modifyFrame scope Frame.capture).frame first).captured with
    | true => simp [openChain_of_captured _ flag] at member
    | false =>
      rw [openChain_succ limit flag, parent_mark] at member
      rw [openChain_succ limit (open_of_mark flag)]
      cases has : (arena.frame first).parent with
      | none => simpa [has] using member
      | some parent =>
        simp only [has, List.mem_cons] at member ⊢
        exact member.imp_right ih

theorem openWay_of_mem_openChain {limit : Nat} (member : last ∈ arena.openChain limit scope) :
    arena.OpenWay scope last := by
  induction limit generalizing scope with
  | zero => cases member
  | succ limit ih =>
    cases flag : (arena.frame scope).captured with
    | true => simp [openChain_of_captured _ flag] at member
    | false =>
      rw [openChain_succ limit flag] at member
      cases has : (arena.frame scope).parent with
      | none =>
        obtain rfl : last = scope := by simpa [has] using member
        exact .here flag
      | some parent =>
        simp only [has, List.mem_cons] at member
        rcases member with rfl | above
        · exact .here flag
        · exact .up flag has (ih above)

/-- A chain that may be as long as there are open frames has all that open ways lead to. -/
theorem OpenWay.mem_openChain (way : arena.OpenWay scope last) (parents : arena.ParentsInside)
    (inside : scope.index < arena.frames.size) {limit : Nat} (enough : arena.openFrames.card ≤ limit) :
    last ∈ arena.openChain limit scope := by
  induction limit generalizing arena scope with
  | zero => exact absurd (card_openFrames_mark inside way.first_open) (by omega)
  | succ limit ih =>
    have less := card_openFrames_mark inside way.first_open
    rw [openChain_succ limit way.first_open]
    rcases (openWay_iff inside way.first_open).mp way with rfl | ⟨parent, has, above⟩
    · exact List.mem_cons_self
    · -- What lies above was reached without this scope, so there is one open frame less on the way.
      rw [has]
      refine List.mem_cons_of_mem _ (openChain_mark_subset scope limit ?_)
      exact ih above parents.mark (by simpa using parents scope parent has) (by omega)

theorem mem_openChain_iff (parents : arena.ParentsInside) (inside : scope.index < arena.frames.size) :
    last ∈ arena.openChain arena.frames.size scope ↔ arena.OpenWay scope last := by
  have enough : arena.openFrames.card ≤ arena.frames.size :=
    (Finset.card_filter_le _ _).trans_eq (Finset.card_range _)
  exact ⟨openWay_of_mem_openChain, fun way => way.mem_openChain parents inside enough⟩

theorem OpenWay.inside (way : arena.OpenWay scope last) (parents : arena.ParentsInside)
    (inside : scope.index < arena.frames.size) : last.index < arena.frames.size := by
  induction way with
  | here => exact inside
  | up _ has _ ih => exact ih (parents _ _ has)

theorem eq_of_frames (size : arena.frames.size = other.frames.size) (free : arena.free = other.free)
    (frames : ∀ id, arena.frame id = other.frame id) : arena = other := by
  obtain ⟨left, freeLeft⟩ := arena
  obtain ⟨right, freeRight⟩ := other
  obtain rfl : freeLeft = freeRight := free
  have same : left = right := by
    refine Array.ext size fun index before after => ?_
    have there := frames ⟨index⟩
    simpa [Arena.frame, Array.getD, before, after] using there
  rw [same]

/-- A capture is the walk from its scope. -/
theorem marks_iff (parents : arena.ParentsInside) (inside : scope.index < arena.frames.size) :
    Marks arena (some scope) later ↔ later = arena.capture scope := by
  have walks : ∀ {later : Arena}, Marks arena (some scope) later → later = arena.capture scope := by
    intro later marks
    obtain ⟨size, free, frames⟩ := marks.frames
    rw [capture_eq_openChain]
    refine eq_of_frames (size.trans (captureAll_size ..).symm) (free.trans (captureAll_free ..).symm) fun id => ?_
    obtain ⟨marked, unmarked⟩ := frames id
    simp only [Option.mem_def, Option.some.injEq, exists_eq_left'] at marked unmarked
    by_cases way : arena.OpenWay scope id
    · rw [marked way, frame_captureAll_of_mem (way.inside parents inside) ((mem_openChain_iff parents inside).mpr way)]
    · rw [unmarked way, frame_captureAll_of_not_mem (mt (mem_openChain_iff parents inside).mp way)]
  refine ⟨walks, fun same => ?_⟩
  obtain ⟨last, marks⟩ := exists_marks parents (some scope) (by simpa using inside)
  rw [same, ← walks marks]
  exact marks

end RuleScript.Arena
