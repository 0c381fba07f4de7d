import RuleScript.Proofs.Scope.Marking

/-! Arenas that are used against the rules.

A host may name any scope that it was ever given: one that it has released, and one whose frame is someone else's by
now. A scope may so become its own parent. Whatever it does, the free list can be trusted, a frame in use is not given
out again, and a frame without a parent or a captured one stays in use with all that is in it.
-/

set_option autoImplicit false

namespace RuleScript

open Arena (ParentsInside Marks)

structure Frame.Extends (before after : Frame) : Prop where
  parent : after.parent = before.parent
  view : after.view = before.view
  captured : before.captured = true → after.captured = true
  libraries : before.libraries <+: after.libraries
  locals : ∀ name value, Fields.get? before.locals name = some value → Fields.get? after.locals name = some value

theorem Frame.Extends.refl (frame : Frame) : frame.Extends frame :=
  ⟨rfl, rfl, id, List.prefix_rfl, fun _ _ => id⟩

theorem Frame.Extends.trans {first second third : Frame} (left : first.Extends second) (right : second.Extends third) :
    first.Extends third where
  parent := right.parent.trans left.parent
  view := right.view.trans left.view
  captured := right.captured ∘ left.captured
  libraries := left.libraries.trans right.libraries
  locals name value holds := right.locals name value (left.locals name value holds)

def Frame.Stays (frame : Frame) : Prop :=
  frame.parent = none ∨ frame.captured = true

theorem Frame.Extends.stays {before after : Frame} (extends_ : before.Extends after) (stays : before.Stays) :
    after.Stays :=
  stays.imp extends_.parent.trans extends_.captured

structure Arena.GivesOut (arena : Arena) (made : ScopeId × Arena) : Prop where
  unused : ¬ arena.Live made.1
  used : made.2.Live made.1
  others : ∀ other, arena.Live other → made.2.Live other ∧ made.2.frame other = arena.frame other

theorem Arena.Sound.givesOut {arena : Arena} (sound : arena.Sound) (frame : Frame) :
    arena.GivesOut (arena.add frame) where
  unused := not_live_add arena frame
  used := (live_add_iff frame sound).mpr (.inl rfl)
  others _ live := ⟨live_add_of_live frame sound live, frame_add_of_live frame live⟩

theorem Arena.Sound.length_free_le {arena : Arena} (sound : arena.Sound) : arena.free.length ≤ arena.frames.size := by
  have indices : (arena.free.map ScopeId.index).Nodup := sound.nodup.map index_injective
  have below : arena.free.map ScopeId.index ⊆ List.range arena.frames.size := fun index member => by
    obtain ⟨id, free, rfl⟩ := List.mem_map.mp member
    exact List.mem_range.mpr (sound.bound id free)
  simpa using (indices.subperm below).length_le

/-- An arena and the scopes that it has given out so far, released ones included. -/
structure Lending where
  arena : Arena
  given : List ScopeId

namespace Lending

def start : Lending :=
  ⟨.empty, []⟩

/-- One call of a host, about scopes that it was ever given. A declaration that is refused changes nothing. -/
inductive Step (lending : Lending) : Lending → Prop where
  | root (view : Option View) :
    Step lending ⟨(lending.arena.root view).2, (lending.arena.root view).1 :: lending.given⟩
  | child {parent : ScopeId} (given : parent ∈ lending.given) (view : Option View) :
    Step lending ⟨(lending.arena.child parent view).2, (lending.arena.child parent view).1 :: lending.given⟩
  | capture {scope : ScopeId} (given : scope ∈ lending.given) :
    Step lending ⟨lending.arena.capture scope, lending.given⟩
  | release {scope : ScopeId} (given : scope ∈ lending.given) :
    Step lending ⟨lending.arena.release scope, lending.given⟩
  | declare {scope : ScopeId} {name : String} {value : Value} {later : Arena} (given : scope ∈ lending.given)
      (declared : lending.arena.declare scope name value = .ok later) : Step lending ⟨later, lending.given⟩
  | importLibrary {scope : ScopeId} (given : scope ∈ lending.given) (library : Library) :
    Step lending ⟨lending.arena.importLibrary scope library, lending.given⟩

abbrev Steps : Lending → Lending → Prop :=
  Relation.ReflTransGen Step

structure Valid (lending : Lending) : Prop where
  sound : lending.arena.Sound
  given : ∀ scope ∈ lending.given, scope.index < lending.arena.frames.size
  parents : lending.arena.ParentsInside

variable {lending later : Lending} {scope : ScopeId}

theorem valid_start : start.Valid where
  sound := Arena.empty_sound
  given _ member := nomatch member
  parents _ _ has := nomatch has

theorem Valid.add (valid : lending.Valid) {frame : Frame}
    (above : ∀ parent, frame.parent = some parent → parent ∈ lending.given) :
    Valid ⟨(lending.arena.add frame).2, (lending.arena.add frame).1 :: lending.given⟩ := by
  have grows : lending.arena.frames.size ≤ (lending.arena.add frame).2.frames.size := by
    unfold Arena.add
    split <;> simp
  have made := ((Arena.live_add_iff frame valid.sound).mpr (.inl rfl)).1
  refine ⟨valid.sound.add frame, ?given, fun id parent has => ?parents⟩
  case given =>
    exact List.forall_mem_cons.mpr ⟨made, fun id member => (valid.given id member).trans_le grows⟩
  case parents =>
    by_cases new : id = (lending.arena.add frame).1
    · rw [new, Arena.frame_add_self frame valid.sound] at has
      exact (valid.given parent (above parent has)).trans_le grows
    · rw [Arena.frame_add_of_ne frame new] at has
      exact (valid.parents id parent has).trans_le grows

theorem Valid.change (valid : lending.Valid) {arena : Arena} (sound : arena.Sound)
    (size : arena.frames.size = lending.arena.frames.size)
    (parents : ∀ id parent, (arena.frame id).parent = some parent → (lending.arena.frame id).parent = some parent) :
    Valid ⟨arena, lending.given⟩ where
  sound := sound
  given id member := (valid.given id member).trans_eq size.symm
  parents id parent has := (valid.parents id parent (parents id parent has)).trans_eq size.symm

theorem declare_ok {arena later : Arena} {name : String} {value : Value}
    (declared : arena.declare scope name value = .ok later) :
    Fields.contains (arena.frame scope).locals name = false ∧
      later = arena.modifyFrame scope (Frame.write name value) := by
  unfold Arena.declare at declared
  split at declared
  · cases declared
  · next absent => exact ⟨Bool.eq_false_of_not_eq_true absent, (Except.ok.inj declared).symm⟩

theorem Valid.release (valid : lending.Valid) (scope : ScopeId) :
    Valid ⟨lending.arena.release scope, lending.given⟩ := by
  by_cases ends : lending.arena.Releasable scope
  · refine valid.change (valid.sound.release scope) ?size fun id parent has => ?parents
    case size => simp [Arena.release_of_releasable ends]
    case parents =>
      by_cases same : id = scope
      · -- A frame that was given back has no parent.
        have free : scope ∈ (lending.arena.release scope).free := by simp [Arena.release_of_releasable ends]
        rw [same, (valid.sound.release scope).parentless scope free] at has
        cases has
      · rwa [Arena.frame_release_of_ne same] at has
  · rwa [Arena.release_of_not_releasable ends]

theorem Valid.modifyFrame (valid : lending.Valid) {f : Frame → Frame}
    (parents : ∀ frame : Frame, (f frame).parent = frame.parent) :
    Valid ⟨lending.arena.modifyFrame scope f, lending.given⟩ :=
  valid.change (valid.sound.modifyFrame parents) (Arena.modifyFrame_size f) fun _ _ has =>
    (Arena.part_modifyFrame Frame.parent parents).symm.trans has

theorem Valid.step (valid : lending.Valid) (step : lending.Step later) : later.Valid := by
  cases step with
  | root => exact valid.add nofun
  | child given => exact valid.add fun parent has => Option.some.inj has ▸ given
  | capture =>
    refine valid.change (valid.sound.captureAll _) (Arena.captureAll_size ..) fun id parent has => ?_
    exact (Arena.frame_captureAll_keeps ..).parent.symm.trans has
  | @release scope => exact valid.release scope
  | declare _ declared =>
    obtain ⟨-, rfl⟩ := declare_ok declared
    exact valid.modifyFrame fun _ => rfl
  | importLibrary => exact valid.modifyFrame fun _ => rfl

theorem extends_modifyFrame {arena : Arena} {other : ScopeId} {f : Frame → Frame}
    (grows : (arena.frame other).Extends (f (arena.frame other))) :
    (arena.frame scope).Extends ((arena.modifyFrame other f).frame scope) := by
  by_cases same : scope = other
  · subst same
    by_cases inside : scope.index < arena.frames.size
    · rwa [Arena.frame_modifyFrame_self f inside]
    · have outside := Nat.not_lt.mp inside
      rw [Arena.frame_of_size_le outside, Arena.frame_of_size_le (by simpa using outside)]
      exact .refl _
  · rw [Arena.frame_modifyFrame_of_ne f same]
    exact .refl _

/-- A new variable hides none that there was. -/
theorem extends_write {frame : Frame} {name : String} (absent : Fields.contains frame.locals name = false)
    (value : Value) : frame.Extends (frame.write name value) where
  parent := rfl
  view := rfl
  captured := id
  libraries := List.prefix_rfl
  locals other held holds := by
    have different : other ≠ name := by
      rintro rfl
      simp [Fields.contains_eq_isSome, holds] at absent
    exact (Fields.get?_put_of_ne frame.locals value different).trans holds

/-- No call takes a frame away that stays, and none clears it. -/
theorem Step.keeps (step : lending.Step later) (sound : lending.arena.Sound) (live : lending.arena.Live scope)
    (stays : (lending.arena.frame scope).Stays) :
    later.arena.Live scope ∧ (lending.arena.frame scope).Extends (later.arena.frame scope) := by
  have given : ∀ frame, (lending.arena.add frame).2.Live scope ∧
      (lending.arena.frame scope).Extends ((lending.arena.add frame).2.frame scope) := fun frame => by
    obtain ⟨still, same⟩ := (sound.givesOut frame).others scope live
    exact ⟨still, same ▸ .refl _⟩
  cases step with
  | root => exact given _
  | child => exact given _
  | @capture other =>
    rw [Arena.capture_eq_openChain]
    have keeps := Arena.frame_captureAll_keeps lending.arena
      (lending.arena.openChain lending.arena.frames.size other) scope
    exact ⟨(Arena.live_captureAll ..).mpr live, keeps.parent, keeps.view, keeps.captured,
      keeps.libraries ▸ List.prefix_rfl, fun name value holds => (Arena.locals_captureAll ..).symm ▸ holds⟩
  | @release other =>
    by_cases ends : lending.arena.Releasable other
    · -- What a release takes away has a parent and is not captured.
      have different : scope ≠ other := by
        rintro rfl
        rcases stays with top | captured
        · simp [Arena.Releasable, top] at ends
        · simp [Arena.Releasable, captured] at ends
      exact ⟨Arena.live_release_of_ne live different, Arena.frame_release_of_ne different ▸ .refl _⟩
    · simp only [Arena.release_of_not_releasable ends]
      exact ⟨live, .refl _⟩
  | declare _ declared =>
    obtain ⟨absent, rfl⟩ := declare_ok declared
    exact ⟨(Arena.live_modifyFrame _).mpr live, extends_modifyFrame (extends_write absent _)⟩
  | importLibrary _ library =>
    refine ⟨(Arena.live_modifyFrame _).mpr live, extends_modifyFrame ?_⟩
    exact ⟨rfl, rfl, id, List.prefix_append .., fun _ _ => id⟩

theorem Steps.valid (steps : Steps start lending) : lending.Valid := by
  induction steps with
  | refl => exact valid_start
  | tail _ step ih => exact ih.step step

theorem Steps.keeps (steps : lending.Steps later) (valid : lending.Valid) (live : lending.arena.Live scope)
    (stays : (lending.arena.frame scope).Stays) :
    later.Valid ∧ later.arena.Live scope ∧ (lending.arena.frame scope).Extends (later.arena.frame scope) := by
  induction steps with
  | refl => exact ⟨valid, live, .refl _⟩
  | tail _ step ih =>
    obtain ⟨valid, live, kept⟩ := ih
    obtain ⟨still, more⟩ := step.keeps valid.sound live (kept.stays stays)
    exact ⟨valid.step step, still, kept.trans more⟩

/-- Whatever scopes a host names, in whatever order: the free list names existing frames, each once, and none with a
parent; a new scope was not in use; frames without a parent and captured ones stay in use and keep what they have; a
capture ends, with what its walk marks; and the frames in use are those that are not on the free list. -/
theorem sound_under_misuse (steps : Steps start lending) :
    lending.arena.Sound ∧
    (∀ view, lending.arena.GivesOut (lending.arena.root view)) ∧
    (∀ parent view, lending.arena.GivesOut (lending.arena.child parent view)) ∧
    (∀ scope, lending.arena.Live scope → (lending.arena.frame scope).Stays → ∀ later, lending.Steps later →
      later.arena.Live scope ∧ (lending.arena.frame scope).Extends (later.arena.frame scope)) ∧
    (∀ scope ∈ lending.given, ∀ later, Marks lending.arena (some scope) later ↔ later = lending.arena.capture scope) ∧
    lending.arena.free.length ≤ lending.arena.frames.size ∧ lending.arena.live = lending.arena.liveScopes.length := by
  have valid := steps.valid
  refine ⟨valid.sound, fun view => valid.sound.givesOut _, fun parent view => valid.sound.givesOut _, ?_, ?_,
    valid.sound.length_free_le, Arena.live_eq_length_liveScopes valid.sound⟩
  · exact fun scope live stays later more => (more.keeps valid live stays).2
  · exact fun scope given later => Arena.marks_iff valid.parents (valid.given scope given)

/-- A scope that was released is made the parent of a new one, which gets its frame and so is its own parent. -/
theorem sound_under_misuse_own_parent :
    ∃ lending, Steps start lending ∧ (lending.arena.frame ⟨1⟩).parent = some ⟨1⟩ ∧
      Marks lending.arena (some ⟨1⟩) (lending.arena.capture ⟨1⟩) ∧
      ((lending.arena.capture ⟨1⟩).frame ⟨1⟩).captured = true ∧ lending.arena.live = 2 := by
  let made : Lending := ⟨((Arena.empty.root none).2.child ⟨0⟩ none).2, [⟨1⟩, ⟨0⟩]⟩
  let released : Lending := ⟨made.arena.release ⟨1⟩, made.given⟩
  let again : Lending := ⟨(released.arena.child ⟨1⟩ none).2, ⟨1⟩ :: released.given⟩
  have steps : Steps start again :=
    .tail (.tail (.tail (.tail .refl (.root none)) (.child (by decide) none)) (.release (by decide)))
      (.child (by decide) none)
  obtain ⟨-, -, -, -, walks, -, -⟩ := sound_under_misuse steps
  exact ⟨again, steps, rfl, (walks ⟨1⟩ (by decide) _).mpr rfl, by decide +kernel, by decide +kernel⟩

end Lending

end RuleScript
