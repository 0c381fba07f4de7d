import Mathlib.Data.Finset.Dedup
import RuleScript.Scope.Arena

/-! What the operations of an arena do to its frames.

A scope is live while its frame is in use. Every operation is described by the scopes that are live after it
and by the frames that it changes; nothing here depends on how released frames are used again.
-/

set_option autoImplicit false

namespace RuleScript

/-- What a frame keeps while it is in use: all but its variables, and a capture is for good. -/
structure Frame.Keeps (before after : Frame) : Prop where
  parent : after.parent = before.parent
  libraries : after.libraries = before.libraries
  view : after.view = before.view
  captured : before.captured = true → after.captured = true

theorem Frame.Keeps.refl (frame : Frame) : frame.Keeps frame :=
  ⟨rfl, rfl, rfl, id⟩

theorem Frame.Keeps.trans {first second third : Frame} (left : first.Keeps second)
    (right : second.Keeps third) : first.Keeps third :=
  ⟨right.parent.trans left.parent, right.libraries.trans left.libraries, right.view.trans left.view,
    right.captured ∘ left.captured⟩

def Frame.capture (frame : Frame) : Frame :=
  { frame with captured := true }

theorem Frame.capture_keeps (frame : Frame) : frame.Keeps frame.capture :=
  ⟨rfl, rfl, rfl, fun _ => rfl⟩

def Frame.write (name : String) (value : Value) (frame : Frame) : Frame :=
  { frame with locals := Fields.put frame.locals name value }

theorem Frame.write_keeps (name : String) (value : Value) (frame : Frame) :
    frame.Keeps (frame.write name value) :=
  ⟨rfl, rfl, rfl, id⟩

namespace Arena

variable {arena : Arena} {scope other : ScopeId}

def Live (arena : Arena) (scope : ScopeId) : Prop :=
  scope.index < arena.frames.size ∧ scope ∉ arena.free

instance (arena : Arena) (scope : ScopeId) : Decidable (arena.Live scope) :=
  inferInstanceAs (Decidable (_ ∧ _))

/-- A free list that can be trusted: it names existing frames, each once, and none of them has a parent. -/
structure Sound (arena : Arena) : Prop where
  nodup : arena.free.Nodup
  bound : ∀ scope ∈ arena.free, scope.index < arena.frames.size
  parentless : ∀ scope ∈ arena.free, (arena.frame scope).parent = none

theorem empty_sound : Arena.empty.Sound :=
  ⟨.nil, by simp [Arena.empty], by simp [Arena.empty]⟩

theorem index_injective : Function.Injective ScopeId.index := by
  rintro ⟨first⟩ ⟨second⟩ same
  exact congrArg ScopeId.mk same

theorem frame_of_size_le (outside : arena.frames.size ≤ scope.index) : arena.frame scope = .blank := by
  simp [frame, Array.getD, Nat.not_lt.mpr outside]

theorem bound_of_parent {parent : ScopeId} (has : (arena.frame scope).parent = some parent) :
    scope.index < arena.frames.size := by
  by_contra outside
  rw [frame_of_size_le (Nat.not_lt.mp outside)] at has
  cases has

@[simp] theorem modifyFrame_size (f : Frame → Frame) :
    (arena.modifyFrame scope f).frames.size = arena.frames.size := by
  simp [modifyFrame]

@[simp] theorem modifyFrame_free (f : Frame → Frame) :
    (arena.modifyFrame scope f).free = arena.free := rfl

theorem frame_modifyFrame_of_ne (f : Frame → Frame) (different : other ≠ scope) :
    (arena.modifyFrame scope f).frame other = arena.frame other := by
  have apart : scope.index ≠ other.index := fun same => different (index_injective same.symm)
  simp [modifyFrame, frame, Array.getD_eq_getD_getElem?, Array.getElem?_modify, apart]

theorem frame_modifyFrame_self (f : Frame → Frame) (inside : scope.index < arena.frames.size) :
    (arena.modifyFrame scope f).frame scope = f (arena.frame scope) := by
  simp only [modifyFrame, frame, Array.getD_eq_getD_getElem?, Array.getElem?_modify, ↓reduceIte,
    Array.getElem?_eq_getElem inside, Option.map_some, Option.getD_some]

@[simp] theorem live_modifyFrame (f : Frame → Frame) :
    (arena.modifyFrame scope f).Live other ↔ arena.Live other := by
  simp [Live]

theorem frame_modifyFrame_cases (f : Frame → Frame) :
    (arena.modifyFrame scope f).frame other = arena.frame other ∨
      (arena.modifyFrame scope f).frame other = f (arena.frame other) := by
  by_cases same : other = scope
  · subst same
    by_cases inside : other.index < arena.frames.size
    · exact .inr (frame_modifyFrame_self f inside)
    · have outside := Nat.not_lt.mp inside
      exact .inl ((frame_of_size_le (by simpa using outside)).trans (frame_of_size_le outside).symm)
  · exact .inl (frame_modifyFrame_of_ne f same)

/-- A change that keeps each frame it is applied to keeps all frames. -/
theorem frame_modifyFrame_keeps {f : Frame → Frame} (keeps : ∀ frame : Frame, frame.Keeps (f frame)) :
    (arena.frame other).Keeps ((arena.modifyFrame scope f).frame other) := by
  rcases @frame_modifyFrame_cases arena scope other f with same | changed
  · rw [same]
    exact .refl _
  · rw [changed]
    exact keeps _

theorem part_modifyFrame {α : Type} {f : Frame → Frame} (part : Frame → α)
    (same : ∀ frame : Frame, part (f frame) = part frame) :
    part ((arena.modifyFrame scope f).frame other) = part (arena.frame other) := by
  rcases @frame_modifyFrame_cases arena scope other f with unchanged | changed
  · rw [unchanged]
  · rw [changed, same]

theorem Sound.modifyFrame {f : Frame → Frame} (sound : arena.Sound)
    (parents : ∀ frame : Frame, (f frame).parent = frame.parent) : (arena.modifyFrame scope f).Sound where
  nodup := sound.nodup
  bound id member := by simpa using sound.bound id member
  parentless id member := (part_modifyFrame Frame.parent parents).trans (sound.parentless id member)

theorem not_live_add (arena : Arena) (frame : Frame) : ¬ arena.Live (arena.add frame).1 := by
  unfold add
  split
  case h_1 scope rest free => exact fun live => live.2 (by simp [free])
  case h_2 => exact fun live => Nat.lt_irrefl _ live.1

theorem live_add_iff (frame : Frame) (sound : arena.Sound) :
    (arena.add frame).2.Live scope ↔ scope = (arena.add frame).1 ∨ arena.Live scope := by
  unfold add
  split
  case h_1 top rest free =>
    -- The scope on top of the free list is on it once, so it is in use when it has been taken off.
    have nodup := sound.nodup
    have inside := sound.bound top (by simp [free])
    rw [free, List.nodup_cons] at nodup
    by_cases same : scope = top
    · subst same
      simp [Live, nodup.1, inside]
    · simp [Live, same, free]
  case h_2 free =>
    have split : scope.index < arena.frames.size + 1 ↔
        scope = ⟨arena.frames.size⟩ ∨ scope.index < arena.frames.size := by
      rw [Nat.lt_succ_iff_lt_or_eq, or_comm]
      exact or_congr_left ⟨fun same => index_injective same, fun same => congrArg ScopeId.index same⟩
    simp [Live, free, split]

theorem live_add_of_live (frame : Frame) (sound : arena.Sound) (live : arena.Live scope) :
    (arena.add frame).2.Live scope :=
  (live_add_iff frame sound).mpr (.inr live)

theorem frame_add_self (frame : Frame) (sound : arena.Sound) :
    (arena.add frame).2.frame (arena.add frame).1 = frame := by
  unfold add
  split
  case h_1 top rest free =>
    have inside := sound.bound top (by simp [free])
    simp [Arena.frame, Array.getD_eq_getD_getElem?, inside]
  case h_2 => simp [Arena.frame, Array.getD_eq_getD_getElem?]

theorem frame_add_of_ne (frame : Frame) (different : other ≠ (arena.add frame).1) :
    (arena.add frame).2.frame other = arena.frame other := by
  unfold add at different ⊢
  split at different
  case h_1 top rest free =>
    have apart : top.index ≠ other.index := fun same => different (index_injective same.symm)
    simp [Arena.frame, Array.getD_eq_getD_getElem?, apart]
  case h_2 =>
    have apart : other.index ≠ arena.frames.size := fun same => different (index_injective same)
    simp [Arena.frame, Array.getD_eq_getD_getElem?, Array.getElem?_push, apart]

theorem frame_add_of_live (frame : Frame) (live : arena.Live scope) :
    (arena.add frame).2.frame scope = arena.frame scope :=
  frame_add_of_ne frame fun same => not_live_add arena frame (same ▸ live)

theorem Sound.add (sound : arena.Sound) (frame : Frame) : (arena.add frame).2.Sound := by
  unfold Arena.add
  split
  case h_1 top rest free =>
    have nodup := sound.nodup
    rw [free, List.nodup_cons] at nodup
    refine ⟨nodup.2, fun id member => ?_, fun id member => ?_⟩
    · simpa using sound.bound id (by simp [free, member])
    · have apart : top.index ≠ id.index := fun same =>
        nodup.1 (by rw [index_injective same]; exact member)
      have before := sound.parentless id (by simp [free, member])
      simpa [Arena.frame, Array.getD_eq_getD_getElem?, Array.getElem?_setIfInBounds, apart] using before
  case h_2 => exact ⟨.nil, by simp, by simp⟩

/-! ## Capturing -/

def captureAll (arena : Arena) (scopes : List ScopeId) : Arena :=
  scopes.foldl (fun arena id => arena.modifyFrame id Frame.capture) arena

theorem capture_eq (arena : Arena) (scope : ScopeId) :
    arena.capture scope =
      arena.captureAll ((arena.chain scope).takeWhile fun id => !(arena.frame id).captured) := rfl

@[simp] theorem captureAll_size (arena : Arena) (scopes : List ScopeId) :
    (arena.captureAll scopes).frames.size = arena.frames.size := by
  induction scopes generalizing arena with
  | nil => rfl
  | cons first rest ih => exact (ih _).trans (modifyFrame_size Frame.capture)

@[simp] theorem captureAll_free (arena : Arena) (scopes : List ScopeId) :
    (arena.captureAll scopes).free = arena.free := by
  induction scopes generalizing arena with
  | nil => rfl
  | cons first rest ih => exact ih _

@[simp] theorem live_captureAll (arena : Arena) (scopes : List ScopeId) (scope : ScopeId) :
    (arena.captureAll scopes).Live scope ↔ arena.Live scope := by
  simp [Live]

theorem frame_captureAll_of_not_mem {scopes : List ScopeId} (absent : scope ∉ scopes) :
    (arena.captureAll scopes).frame scope = arena.frame scope := by
  induction scopes generalizing arena with
  | nil => rfl
  | cons first rest ih =>
    rw [List.mem_cons, not_or] at absent
    exact (ih absent.2).trans (frame_modifyFrame_of_ne Frame.capture absent.1)

theorem frame_captureAll_of_mem {scopes : List ScopeId} (inside : scope.index < arena.frames.size)
    (member : scope ∈ scopes) :
    (arena.captureAll scopes).frame scope = (arena.frame scope).capture := by
  induction scopes generalizing arena with
  | nil => cases member
  | cons first rest ih =>
    change ((arena.modifyFrame first Frame.capture).captureAll rest).frame scope = _
    -- A scope that stands in the list twice is captured twice, which is the same.
    by_cases later : scope ∈ rest
    · rw [ih (by simpa using inside) later]
      by_cases same : scope = first
      · rw [same, frame_modifyFrame_self Frame.capture (same ▸ inside)]
        rfl
      · rw [frame_modifyFrame_of_ne Frame.capture same]
    · have same : scope = first := (List.mem_cons.mp member).resolve_right later
      rw [frame_captureAll_of_not_mem later, same, frame_modifyFrame_self Frame.capture (same ▸ inside)]

theorem frame_captureAll_keeps (arena : Arena) (scopes : List ScopeId) (scope : ScopeId) :
    (arena.frame scope).Keeps ((arena.captureAll scopes).frame scope) := by
  induction scopes generalizing arena with
  | nil => exact .refl _
  | cons first rest ih => exact (frame_modifyFrame_keeps Frame.capture_keeps).trans (ih _)

theorem locals_captureAll (arena : Arena) (scopes : List ScopeId) (scope : ScopeId) :
    ((arena.captureAll scopes).frame scope).locals = (arena.frame scope).locals := by
  by_cases inside : scope.index < arena.frames.size
  · by_cases member : scope ∈ scopes
    · rw [frame_captureAll_of_mem inside member]
      rfl
    · rw [frame_captureAll_of_not_mem member]
  · rw [frame_of_size_le (Nat.not_lt.mp inside),
      frame_of_size_le (by simpa using Nat.not_lt.mp inside)]

theorem Sound.captureAll (sound : arena.Sound) (scopes : List ScopeId) :
    (arena.captureAll scopes).Sound where
  nodup := by simpa using sound.nodup
  bound id member := by simpa using sound.bound id (by simpa using member)
  parentless id member :=
    (frame_captureAll_keeps arena scopes id).parent.trans (sound.parentless id (by simpa using member))

/-! ## Releasing -/

def Releasable (arena : Arena) (scope : ScopeId) : Prop :=
  (arena.frame scope).captured = false ∧ (arena.frame scope).parent.isSome = true

instance (arena : Arena) (scope : ScopeId) : Decidable (arena.Releasable scope) :=
  inferInstanceAs (Decidable (_ ∧ _))

theorem release_of_not_releasable (kept : ¬ arena.Releasable scope) : arena.release scope = arena := by
  unfold release
  rw [if_pos]
  cases flag : (arena.frame scope).captured <;> cases parent : (arena.frame scope).parent <;>
    simp_all [Releasable]

theorem release_of_releasable (ends : arena.Releasable scope) :
    arena.release scope =
      ⟨arena.frames.setIfInBounds scope.index .blank, scope :: arena.free⟩ := by
  unfold release
  rw [if_neg]
  simpa [Releasable, Option.isSome_iff_ne_none] using ends

theorem Releasable.bound (ends : arena.Releasable scope) : scope.index < arena.frames.size := by
  obtain ⟨parent, has⟩ := Option.isSome_iff_exists.mp ends.2
  exact bound_of_parent has

theorem Releasable.live (sound : arena.Sound) (ends : arena.Releasable scope) : arena.Live scope :=
  ⟨ends.bound, fun free => by simpa [sound.parentless scope free] using ends.2⟩

theorem live_release_iff (ends : arena.Releasable scope) :
    (arena.release scope).Live other ↔ arena.Live other ∧ other ≠ scope := by
  rw [release_of_releasable ends]
  simp only [Live, Array.size_setIfInBounds, List.mem_cons, not_or]
  tauto

theorem live_release_of_ne (live : arena.Live other) (different : other ≠ scope) :
    (arena.release scope).Live other := by
  by_cases ends : arena.Releasable scope
  · exact (live_release_iff ends).mpr ⟨live, different⟩
  · rwa [release_of_not_releasable ends]

theorem live_of_live_release (live : (arena.release scope).Live other) : arena.Live other := by
  by_cases ends : arena.Releasable scope
  · exact ((live_release_iff ends).mp live).1
  · rwa [release_of_not_releasable ends] at live

theorem frame_release_of_ne (different : other ≠ scope) :
    (arena.release scope).frame other = arena.frame other := by
  by_cases ends : arena.Releasable scope
  · have apart : scope.index ≠ other.index := fun same => different (index_injective same.symm)
    simp [release_of_releasable ends, frame, Array.getD_eq_getD_getElem?, apart]
  · rw [release_of_not_releasable ends]

theorem Sound.release (sound : arena.Sound) (scope : ScopeId) : (arena.release scope).Sound := by
  by_cases ends : arena.Releasable scope
  · have fresh : scope ∉ arena.free := (ends.live sound).2
    have inside := ends.bound
    rw [release_of_releasable ends]
    -- The frame that is given back is blank, so it has no parent; all others are as before.
    refine ⟨List.nodup_cons.mpr ⟨fresh, sound.nodup⟩, fun id member => ?_, fun id member => ?_⟩
    · rcases List.mem_cons.mp member with rfl | old
      · simpa using inside
      · simpa using sound.bound id old
    · by_cases same : id = scope
      · simp [same, Arena.frame, Array.getD_eq_getD_getElem?, inside, Frame.blank]
      · have kept : (arena.release scope).frame id = arena.frame id := frame_release_of_ne same
        rw [release_of_releasable ends] at kept
        exact (congrArg Frame.parent kept).trans
          (sound.parentless id ((List.mem_cons.mp member).resolve_left same))
  · rwa [release_of_not_releasable ends]

def liveScopes (arena : Arena) : List ScopeId :=
  ((List.range arena.frames.size).map ScopeId.mk).filter (arena.Live ·)

theorem mem_liveScopes : scope ∈ arena.liveScopes ↔ arena.Live scope := by
  simp only [liveScopes, List.mem_filter, List.mem_map, List.mem_range, decide_eq_true_eq,
    and_iff_right_iff_imp]
  exact fun live => ⟨scope.index, live.1, rfl⟩

theorem nodup_liveScopes (arena : Arena) : arena.liveScopes.Nodup :=
  (List.nodup_range.map fun _ _ same => congrArg ScopeId.index same).filter _

theorem live_eq_length_liveScopes (sound : arena.Sound) : arena.live = arena.liveScopes.length := by
  -- The frames that are not in use are those on the free list, each of them once.
  let all := (List.range arena.frames.size).map ScopeId.mk
  have released : (all.filter fun id => !decide (arena.Live id)).length = arena.free.length := by
    refine (List.perm_of_nodup_nodup_toFinset_eq ?_ sound.nodup ?_).length_eq
    · exact (List.nodup_range.map fun _ _ same => congrArg ScopeId.index same).filter _
    · ext id
      simp only [List.mem_toFinset, List.mem_filter, all, List.mem_map, List.mem_range, Live]
      refine ⟨fun found => ?_, fun free => ⟨⟨id.index, sound.bound id free, rfl⟩, by simp [free]⟩⟩
      obtain ⟨⟨index, inside, rfl⟩, released⟩ := found
      simpa [inside] using released
  have total := List.length_eq_length_filter_add (l := all) (arena.Live ·)
  rw [released] at total
  have size : all.length = arena.frames.size := by simp [all]
  have count : arena.liveScopes.length = (all.filter (arena.Live ·)).length := rfl
  unfold live
  omega

end Arena

end RuleScript
