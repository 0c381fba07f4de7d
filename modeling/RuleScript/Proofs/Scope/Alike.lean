import RuleScript.Evaluation.Machine
import RuleScript.Proofs.Instruction.Reading
import RuleScript.Proofs.Library.Alike
import RuleScript.Proofs.Scope.Walks

/-! Scopes that hold alike variables.

Two runs have the same scopes, with alike variables and views of documents that stand for each other. They may differ
in which scopes are captured, while members of a literal run in different orders, and one of them imports libraries
that answer at once.
-/

set_option autoImplicit false

namespace RuleScript

inductive View.Alike (paired : Pairing) : View → View → Prop where
  | mk {document other : Nat} (path : Path) (pair : paired (.document document) (.document other)) :
    Alike paired ⟨document, path⟩ ⟨other, path⟩

section Alike

variable (declared : String → Prop) (paired : Pairing)

structure Frame.Alike (frame other : Frame) : Prop where
  locals : MembersAlike (Closure.Tame declared) paired frame.locals other.locals
  names : ∀ pair ∈ frame.locals, declared pair.1
  libraries : other.libraries = frame.libraries.map Library.prompt
  view : Option.Rel (View.Alike paired) frame.view other.view
  parent : frame.parent = other.parent

/-- Arenas of the same scopes. If they are `strict`, the same ones are captured. -/
structure Arena.Alike (strict : Prop) (arena other : Arena) : Prop where
  size : arena.frames.size = other.frames.size
  free : arena.free = other.free
  frames : ∀ scope, (arena.frame scope).Alike declared paired (other.frame scope)
  flags : strict → ∀ scope, (arena.frame scope).captured = (other.frame scope).captured

structure Machine.Alike (strict : Prop) (machine other : Machine) : Prop where
  arena : machine.arena.Alike declared paired strict other.arena
  memory : machine.memory.Alike (Closure.Tame declared) paired other.memory

end Alike

variable {declared : String → Prop} {paired wider : Pairing} {strict : Prop}

section Mono

variable (widens : ∀ left right, paired left right → wider left right)

include widens

theorem View.Alike.mono {view other : View} (alike : view.Alike paired other) : view.Alike wider other := by
  cases alike with
  | mk path pair => exact .mk path (widens _ _ pair)

theorem Frame.Alike.mono {frame other : Frame} (alike : frame.Alike declared paired other) :
    frame.Alike declared wider other where
  locals := alike.locals.mono widens
  names := alike.names
  libraries := alike.libraries
  view := by
    have views := alike.view
    generalize frame.view = left at views ⊢
    generalize other.view = right at views ⊢
    cases views with
    | some same => exact .some (same.mono widens)
    | none => exact .none
  parent := alike.parent

theorem Arena.Alike.mono {arena other : Arena} (alike : arena.Alike declared paired strict other) :
    arena.Alike declared wider strict other :=
  { alike with frames := fun scope => (alike.frames scope).mono widens }

end Mono

theorem View.Alike.right {view other : View} (alike : view.Alike paired other) : other.Alike paired.right other := by
  cases alike with
  | mk path pair => exact .mk path ⟨rfl, _, pair⟩

theorem Frame.Alike.right {frame other : Frame} (alike : frame.Alike declared paired other) :
    other.Alike declared paired.right other where
  locals := alike.locals.right
  names pair member := by
    have same : other.locals.map Prod.fst = frame.locals.map Prod.fst :=
      (map_eq_of_forall₂ (alike.locals.imp fun _ _ both => both.1)).symm
    obtain ⟨origin, bound, named⟩ := List.mem_map.mp (same ▸ List.mem_map_of_mem member)
    exact named ▸ alike.names origin bound
  libraries := by
    rw [alike.libraries, List.map_map]
    exact List.map_congr_left fun library _ => (library.prompt_prompt).symm
  view := by
    have views := alike.view
    generalize frame.view = left at views
    generalize other.view = right at views ⊢
    cases views with
    | some same => exact .some same.right
    | none => exact .none
  parent := rfl

theorem Arena.Alike.right {arena other : Arena} (alike : arena.Alike declared paired strict other) :
    other.Alike declared paired.right strict other :=
  ⟨rfl, rfl, fun scope => (alike.frames scope).right, fun _ _ => rfl⟩

theorem Machine.Alike.right {machine other : Machine} (alike : machine.Alike declared paired strict other) :
    other.Alike declared paired.right strict other :=
  ⟨alike.arena.right, alike.memory.right⟩

theorem Frame.Alike.blank : Frame.blank.Alike declared paired .blank :=
  ⟨.nil, List.forall_mem_nil _, rfl, .none, rfl⟩

namespace Arena.Alike

variable {arena other : Arena} {scope : ScopeId} {memory copy : Memory}

theorem loosen (alike : arena.Alike declared paired strict other) {weaker : Prop} (implies : weaker → strict) :
    arena.Alike declared paired weaker other :=
  { alike with flags := fun weak => alike.flags (implies weak) }

theorem chain (alike : arena.Alike declared paired strict other) (scope : ScopeId) :
    arena.chain scope = other.chain scope :=
  chain_congr alike.size (fun id => (alike.frames id).parent) scope

theorem ends (alike : arena.Alike declared paired strict other) (scope : ScopeId) :
    arena.ends scope = other.ends scope :=
  ends_congr alike.size (fun id => (alike.frames id).parent) scope

inductive BindingAlike (declared : String → Prop) (paired : Pairing) (name : String) : Binding → Binding → Prop where
  | inScope (scope : ScopeId) (known : declared name) :
    BindingAlike declared paired name (.inScope scope) (.inScope scope)
  | member {view twin : View} (same : view.Alike paired twin) :
    BindingAlike declared paired name (.member view) (.member twin)

theorem findSome?_alike {α β : Type} {R : α → β → Prop} {f : ScopeId → Option α} {g : ScopeId → Option β}
    (scopes : List ScopeId) (each : ∀ scope, Option.Rel R (f scope) (g scope)) :
    Option.Rel R (scopes.findSome? f) (scopes.findSome? g) := by
  induction scopes with
  | nil => exact .none
  | cons first rest ih =>
    have here := each first
    rw [List.findSome?_cons, List.findSome?_cons]
    generalize f first = left at here ⊢
    generalize g first = right at here ⊢
    cases here with
    | some same => exact .some same
    | none => exact ih

theorem binding? (alike : arena.Alike declared paired strict other)
    (memories : memory.Alike (Closure.Tame declared) paired copy) (scope : ScopeId) (name : String) :
    Option.Rel (BindingAlike declared paired name) (arena.binding? memory scope name)
      (other.binding? copy scope name) := by
  rw [Arena.binding?, Arena.binding?, alike.chain scope]
  refine findSome?_alike _ fun scope => ?_
  have frame := alike.frames scope
  have views := frame.view
  unfold Arena.bindingIn?
  dsimp only
  rw [frame.locals.contains]
  split
  · rename_i bound
    rw [← frame.locals.contains, Fields.contains_eq_isSome] at bound
    obtain ⟨value, found⟩ := Option.isSome_iff_exists.mp bound
    exact .some (.inScope scope (frame.names _ (Fields.mem_of_get? found)))
  · generalize (arena.frame scope).view = left at views ⊢
    generalize (other.frame scope).view = right at views ⊢
    cases views with
    | none => exact .none
    | some same =>
      cases same with
      | mk path pair =>
        dsimp only
        rw [View.has_alike path memories pair]
        split
        · exact .some (.member (.mk path pair))
        · exact .none

inductive CalleeAlike (declared : String → Prop) (paired : Pairing) (name : String) :
    Callee → Callee → Prop where
  | closure {closure : Closure} (tame : closure.Tame declared) (known : declared name) :
    CalleeAlike declared paired name (.closure closure) (.closure closure)
  | library {library : Library} (has : library.has name = true) :
    CalleeAlike declared paired name (.library library) (.library library.prompt)

theorem calleeIn? (alike : arena.Alike declared paired strict other) (name : String) (scope : ScopeId) :
    Option.Rel (CalleeAlike declared paired name) (arena.calleeIn? name scope)
      (other.calleeIn? name scope) := by
  have frame := alike.frames scope
  have bound := frame.locals.get? name
  have imports : Option.Rel (CalleeAlike declared paired name)
      (((arena.frame scope).libraries.find? (·.has name)).map .library)
      (((other.frame scope).libraries.find? (·.has name)).map .library) := by
    rw [frame.libraries, List.find?_map]
    have same : (Library.has · name) ∘ Library.prompt = (Library.has · name) :=
      funext fun library => Library.has_prompt library name
    rw [show ((fun library : Library => library.has name) ∘ Library.prompt) = _ from same]
    cases found : (arena.frame scope).libraries.find? (·.has name) with
    | none => exact .none
    | some library =>
      exact .some (.library (by simpa using List.find?_some found))
  have names : ∀ value, Fields.get? (arena.frame scope).locals name = some value → declared name :=
    fun value found => frame.names _ (Fields.mem_of_get? found)
  unfold Arena.calleeIn?
  dsimp only
  generalize Fields.get? (arena.frame scope).locals name = left at bound names ⊢
  generalize Fields.get? (other.frame scope).locals name = right at bound ⊢
  cases bound with
  | none => exact imports
  | some same =>
    cases same with
    | closure tame => exact .some (.closure tame (names _ rfl))
    | _ => exact imports

theorem resolveCall (alike : arena.Alike declared paired strict other) (scope : ScopeId) (name : String) :
    Results (CalleeAlike declared paired name) (arena.resolveCall scope name)
      (other.resolveCall scope name) := by
  have found := findSome?_alike (arena.chain scope) (alike.calleeIn? name)
  rw [resolveCall_eq, resolveCall_eq, ← alike.chain scope, ← alike.ends scope]
  generalize (arena.chain scope).findSome? (arena.calleeIn? name) = left at found ⊢
  generalize (arena.chain scope).findSome? (other.calleeIn? name) = right at found ⊢
  cases found with
  | none => exact .error _
  | some same => exact .ok same

theorem search (alike : arena.Alike declared paired strict other)
    (memories : memory.Alike (Closure.Tame declared) paired copy) (scope : ScopeId) (name : String) :
    List.Forall₂ (View.Alike paired) (arena.search memory scope name) (other.search copy scope name) := by
  have views := (alike.frames scope).view
  unfold Arena.search
  generalize (arena.frame scope).view = left at views ⊢
  generalize (other.frame scope).view = right at views ⊢
  cases views with
  | none => exact .nil
  | some same =>
    cases same with
    | mk path pair =>
      dsimp only
      rw [View.search, View.search, View.node?_alike path memories pair]
      split
      · exact List.forall₂_map_left_iff.mpr (List.forall₂_map_right_iff.mpr
          (List.forall₂_same.mpr fun _ _ => .mk _ pair))
      · exact .nil

theorem modifyFrame (alike : arena.Alike declared paired strict other) (scope : ScopeId) {f g : Frame → Frame}
    (frames : ∀ frame twin : Frame, frame.Alike declared paired twin →
      (f frame).Alike declared paired (g twin))
    (flags : ∀ frame twin : Frame, frame.captured = twin.captured → (f frame).captured = (g twin).captured) :
    (arena.modifyFrame scope f).Alike declared paired strict (other.modifyFrame scope g) := by
  have both : ∀ id, (arena.modifyFrame scope f).frame id = arena.frame id ∧
      (other.modifyFrame scope g).frame id = other.frame id ∨
      (arena.modifyFrame scope f).frame id = f (arena.frame id) ∧
        (other.modifyFrame scope g).frame id = g (other.frame id) := by
    intro id
    by_cases here : id = scope
    · subst here
      by_cases inside : id.index < arena.frames.size
      · exact .inr ⟨Arena.frame_modifyFrame_self f inside, Arena.frame_modifyFrame_self g (alike.size ▸ inside)⟩
      · refine .inl ⟨?_, ?_⟩
        · rw [Arena.frame_of_size_le (by simpa [Arena.modifyFrame] using inside),
            Arena.frame_of_size_le (by simpa using inside)]
        · have outside : ¬ id.index < other.frames.size := alike.size ▸ inside
          rw [Arena.frame_of_size_le (by simpa [Arena.modifyFrame] using outside),
            Arena.frame_of_size_le (by simpa using outside)]
    · exact .inl ⟨Arena.frame_modifyFrame_of_ne f here, Arena.frame_modifyFrame_of_ne g here⟩
  refine ⟨by simpa [Arena.modifyFrame] using alike.size, alike.free, fun id => ?_, fun strict id => ?_⟩
  · rcases both id with ⟨left, right⟩ | ⟨left, right⟩
    · rw [left, right]
      exact alike.frames id
    · rw [left, right]
      exact frames _ _ (alike.frames id)
  · rcases both id with ⟨left, right⟩ | ⟨left, right⟩
    · rw [left, right]
      exact alike.flags strict id
    · rw [left, right]
      exact flags _ _ (alike.flags strict id)

theorem write (alike : arena.Alike declared paired strict other) (scope : ScopeId) {name : String}
    (known : declared name) {value like : Value} (same : value.Alike (Closure.Tame declared) paired like) :
    (arena.modifyFrame scope (Frame.write name value)).Alike declared paired strict
      (other.modifyFrame scope (Frame.write name like)) := by
  refine alike.modifyFrame scope (fun frame twin alike => ?_) fun _ _ same => same
  refine { alike with locals := alike.locals.put name same, names := fun pair member => ?_ }
  rcases Fields.mem_put member with rfl | old
  · exact known
  · exact alike.names pair old

theorem add (alike : arena.Alike declared paired strict other) {frame twin : Frame}
    (same : frame.Alike declared paired twin) (flag : frame.captured = twin.captured) :
    (arena.add frame).1 = (other.add twin).1 ∧
      (arena.add frame).2.Alike declared paired strict (other.add twin).2 := by
  have both : (arena.add frame).1 = (other.add twin).1 ∧
      (arena.add frame).2.frames.size = (other.add twin).2.frames.size ∧
      (arena.add frame).2.free = (other.add twin).2.free ∧
      ∀ id, (arena.add frame).2.frame id = arena.frame id ∧ (other.add twin).2.frame id = other.frame id ∨
        (arena.add frame).2.frame id = frame ∧ (other.add twin).2.frame id = twin := by
    have free := alike.free
    have size := alike.size
    -- The free lists are the same, so both sides use one slot again, or both get a new one.
    unfold Arena.add
    rw [← free]
    split
    case h_1 top rest _ =>
      refine ⟨rfl, by simpa using size, rfl, fun id => ?_⟩
      by_cases here : top.index = id.index ∧ top.index < arena.frames.size
      · have there : top.index < other.frames.size := size ▸ here.2
        exact .inr (by simp [Arena.frame, Array.getD_eq_getD_getElem?, ← here.1, here.2, there])
      · refine .inl ?_
        by_cases same : top.index = id.index
        · have outside : ¬ top.index < arena.frames.size := fun inside => here ⟨same, inside⟩
          have outsideOther : ¬ top.index < other.frames.size := size ▸ outside
          simp only [Arena.frame, ← same, Array.getD_eq_getD_getElem?, Array.setIfInBounds_eq_of_size_le,
            Nat.not_lt.mp outside, Nat.not_lt.mp outsideOther, and_self]
        · simp [Arena.frame, Array.getD_eq_getD_getElem?, same]
    case h_2 =>
      refine ⟨congrArg ScopeId.mk size, by simpa using size, rfl, fun id => ?_⟩
      by_cases here : id.index = arena.frames.size
      · have there := here.trans size
        refine .inr ⟨?_, ?_⟩
        · simp only [Arena.frame, Array.getD_eq_getD_getElem?, here, Array.getElem?_push_size, Option.getD_some]
        · simp only [Arena.frame, Array.getD_eq_getD_getElem?, there, Array.getElem?_push_size, Option.getD_some]
      · have there : ¬ id.index = other.frames.size := size ▸ here
        exact .inl (by simp [Arena.frame, Array.getD_eq_getD_getElem?, Array.getElem?_push, here, there])
  obtain ⟨name, size, free, frames⟩ := both
  refine ⟨name, size, free, fun id => ?_, fun strict id => ?_⟩
  · rcases frames id with ⟨left, right⟩ | ⟨left, right⟩
    · rw [left, right]
      exact alike.frames id
    · rw [left, right]
      exact same
  · rcases frames id with ⟨left, right⟩ | ⟨left, right⟩
    · rw [left, right]
      exact alike.flags strict id
    · rw [left, right]
      exact flag

theorem child (alike : arena.Alike declared paired strict other) (parent : ScopeId) {view twin : Option View}
    (views : Option.Rel (View.Alike paired) view twin) :
    (arena.child parent view).1 = (other.child parent twin).1 ∧
      (arena.child parent view).2.Alike declared paired strict (other.child parent twin).2 :=
  alike.add { Frame.Alike.blank with view := views, parent := rfl } rfl

theorem importLibrary (alike : arena.Alike declared paired strict other) (scope : ScopeId) (library : Library) :
    (arena.importLibrary scope library).Alike declared paired strict (other.importLibrary scope library.prompt) := by
  refine alike.modifyFrame scope (fun frame twin same => ?_) fun _ _ same => same
  refine { same with libraries := ?_ }
  rw [same.libraries, List.map_append, List.map_singleton]

theorem release (alike : arena.Alike declared paired strict other) (exact : strict) (scope : ScopeId) :
    (arena.release scope).Alike declared paired strict (other.release scope) := by
  unfold Arena.release
  dsimp only
  rw [(alike.frames scope).parent, alike.flags exact scope]
  split
  · exact alike
  · have blank : ∀ {arena : Arena} (id : ScopeId),
        Arena.frame ⟨arena.frames.setIfInBounds scope.index .blank, scope :: arena.free⟩ id =
          if id.index = scope.index then .blank else arena.frame id := by
      intro arena id
      by_cases same : id.index = scope.index
      · rw [if_pos same]
        by_cases inside : scope.index < arena.frames.size <;>
          simp [Arena.frame, Array.getD_eq_getD_getElem?, same, inside]
      · simp [Arena.frame, Array.getD_eq_getD_getElem?, same, Ne.symm same]
    refine ⟨by simpa using alike.size, congrArg (scope :: ·) alike.free, fun id => ?_, fun exact id => ?_⟩
    · rw [blank, blank]
      split
      · exact .blank
      · exact alike.frames id
    · rw [blank, blank]
      split
      · rfl
      · exact alike.flags exact id

theorem frame_captureAll_cases (arena : Arena) (scopes : List ScopeId) (scope : ScopeId) :
    (arena.captureAll scopes).frame scope = arena.frame scope ∨
      (arena.captureAll scopes).frame scope = (arena.frame scope).capture := by
  by_cases here : scope.index < arena.frames.size ∧ scope ∈ scopes
  · exact .inr (Arena.frame_captureAll_of_mem here.1 here.2)
  · refine .inl ?_
    by_cases member : scope ∈ scopes
    · have outside := Nat.not_lt.mp fun inside => here ⟨inside, member⟩
      rw [Arena.frame_of_size_le outside, Arena.frame_of_size_le (by simpa using outside)]
    · exact Arena.frame_captureAll_of_not_mem member

/-- Arenas stay alike, but for what is captured, whichever side captures. -/
theorem capture_left (alike : arena.Alike declared paired strict other) (scope : ScopeId) :
    (arena.capture scope).Alike declared paired False other := by
  rw [Arena.capture_eq]
  refine ⟨by simpa using alike.size, by simpa using alike.free, fun id => ?_, False.elim⟩
  rcases frame_captureAll_cases arena _ id with same | captured
  · rw [same]
    exact alike.frames id
  · rw [captured]
    exact { alike.frames id with }

theorem capture_right (alike : arena.Alike declared paired strict other) (scope : ScopeId) :
    arena.Alike declared paired False (other.capture scope) := by
  rw [Arena.capture_eq]
  refine ⟨by simpa using alike.size, by simpa using alike.free, fun id => ?_, False.elim⟩
  rcases frame_captureAll_cases other _ id with same | captured
  · rw [same]
    exact alike.frames id
  · rw [captured]
    exact { alike.frames id with }

theorem capture (alike : arena.Alike declared paired strict other) (scope : ScopeId) :
    (arena.capture scope).Alike declared paired strict (other.capture scope) := by
  refine { (alike.capture_left scope).capture_right scope with flags := fun exact id => ?_ }
  have walks : ((arena.chain scope).takeWhile fun id => !(arena.frame id).captured) =
      (other.chain scope).takeWhile fun id => !(other.frame id).captured := by
    rw [alike.chain scope]
    congr 1
    exact funext fun id => congrArg Bool.not (alike.flags exact id)
  rw [Arena.capture_eq, Arena.capture_eq, walks]
  generalize (other.chain scope).takeWhile (fun id => !(other.frame id).captured) = scopes
  by_cases here : id.index < arena.frames.size ∧ id ∈ scopes
  · rw [Arena.frame_captureAll_of_mem here.1 here.2, Arena.frame_captureAll_of_mem (alike.size ▸ here.1) here.2]
    rfl
  · by_cases member : id ∈ scopes
    · have outside := Nat.not_lt.mp fun inside => here ⟨inside, member⟩
      have outsideOther := alike.size ▸ outside
      rw [Arena.frame_of_size_le (by simpa using outside), Arena.frame_of_size_le (by simpa using outsideOther)]
    · rw [Arena.frame_captureAll_of_not_mem member, Arena.frame_captureAll_of_not_mem member]
      exact alike.flags exact id

end Arena.Alike

namespace Arena

variable {arena later last other onward : Arena} {scope : ScopeId} {captured again : Prop}

theorem capture_of_captured (held : (arena.frame scope).captured = true) : arena.capture scope = arena := by
  have none : ((arena.chain scope).takeWhile fun id => !(arena.frame id).captured) = [] := by
    unfold chain
    cases arena.frames.size with
    | zero => rfl
    | succ limit => simp [chainWithin, held]
  rw [capture_eq, none]
  rfl

theorem capture_of_size_le (outside : arena.frames.size ≤ scope.index) : arena.capture scope = arena := by
  have blank := frame_of_size_le outside
  -- A scope out of the arena has a blank frame, so the walk ends where it starts.
  have walk : ((arena.chain scope).takeWhile fun id => !(arena.frame id).captured) = [] ∨
      ((arena.chain scope).takeWhile fun id => !(arena.frame id).captured) = [scope] := by
    unfold chain
    cases arena.frames.size with
    | zero => exact .inl rfl
    | succ limit => exact .inr (by simp [chainWithin, blank, Frame.blank])
  rw [capture_eq]
  rcases walk with none | here
  · rw [none]
    rfl
  · rw [here]
    change arena.modifyFrame scope Frame.capture = arena
    have same : arena.frames.modify scope.index Frame.capture = arena.frames := by
      apply Array.ext_getElem?
      intro index
      rw [Array.getElem?_modify]
      split
      · rename_i here
        rw [← here, Array.getElem?_eq_none outside]
        rfl
      · rfl
    rw [modifyFrame, same]

theorem capture_capture (arena : Arena) (scope : ScopeId) :
    (arena.capture scope).capture scope = arena.capture scope := by
  by_cases inside : scope.index < arena.frames.size
  · by_cases held : (arena.frame scope).captured = true
    · rw [capture_of_captured held, capture_of_captured held]
    · apply capture_of_captured
      have first : scope ∈ (arena.chain scope).takeWhile fun id => !(arena.frame id).captured := by
        unfold chain
        obtain ⟨limit, size⟩ := Nat.exists_eq_succ_of_ne_zero (Nat.ne_of_gt (Nat.zero_lt_of_lt inside))
        rw [size]
        simp [chainWithin, held]
      rw [capture_eq, frame_captureAll_of_mem inside first]
      rfl
  · rw [capture_of_size_le (Nat.not_lt.mp inside), capture_of_size_le (Nat.not_lt.mp inside)]

def Captures (captured : Prop) (scope : ScopeId) (arena later : Arena) : Prop :=
  (captured → later = arena.capture scope) ∧ (¬ captured → later = arena)

namespace Captures

theorem refl (scope : ScopeId) (arena : Arena) : Captures False scope arena arena :=
  ⟨False.elim, fun _ => rfl⟩

theorem trans (first : Captures captured scope arena later) (second : Captures again scope later last) :
    Captures (captured ∨ again) scope arena last := by
  by_cases early : captured
  · refine ⟨fun _ => ?_, fun not => absurd (.inl early) not⟩
    by_cases late : again
    · rw [second.1 late, first.1 early, capture_capture]
    · rw [second.2 late, first.1 early]
  · by_cases late : again
    · refine ⟨fun _ => ?_, fun not => absurd (.inr late) not⟩
      rw [second.1 late, first.2 early]
    · refine ⟨fun either => absurd either (not_or.mpr ⟨early, late⟩), fun _ => ?_⟩
      rw [second.2 late, first.2 early]

theorem congr (captures : Captures captured scope arena later) (same : captured ↔ again) :
    Captures again scope arena later :=
  ⟨fun yes => captures.1 (same.mpr yes), fun no => captures.2 fun yes => no (same.mp yes)⟩

theorem alike_left (captures : Captures captured scope arena later)
    (alike : arena.Alike declared paired strict other) : later.Alike declared paired False other := by
  by_cases yes : captured
  · rw [captures.1 yes]
    exact alike.capture_left scope
  · rw [captures.2 yes]
    exact alike.loosen False.elim

theorem alike_right (captures : Captures captured scope other onward)
    (alike : arena.Alike declared paired strict other) : arena.Alike declared paired False onward := by
  by_cases yes : captured
  · rw [captures.1 yes]
    exact alike.capture_right scope
  · rw [captures.2 yes]
    exact alike.loosen False.elim

theorem alike (left : Captures captured scope arena later) (right : Captures captured scope other onward)
    (alike : arena.Alike declared paired strict other) : later.Alike declared paired strict onward := by
  by_cases yes : captured
  · rw [left.1 yes, right.1 yes]
    exact alike.capture scope
  · rw [left.2 yes, right.2 yes]
    exact alike

end Captures

end Arena

end RuleScript
