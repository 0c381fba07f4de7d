import RuleScript.Proofs.Run.Fits

/-! Machines whose stored values name kept scopes only. -/

set_option autoImplicit false

namespace RuleScript

namespace Arena

variable {arena later : Arena} {around : List ScopeId} {scope : ScopeId}

/-- A scope with a chain that ends, all of it live. -/
def Grounded (arena : Arena) (scope : ScopeId) : Prop :=
  ∃ path, arena.Path scope path ∧ ∀ above ∈ path, arena.Live above

theorem Grounded.up {parent : ScopeId} (above : arena.Grounded parent) (live : arena.Live scope)
    (has : (arena.frame scope).parent = some parent) : arena.Grounded scope := by
  obtain ⟨path, walk, all⟩ := above
  exact ⟨scope :: path, .up has walk, by simpa using ⟨live, all⟩⟩

end Arena

theorem Turn.kept {owned after : List ScopeId} {arena later : Arena} (turn : Turn owned arena after later)
    (sound : arena.Sound) {scope : ScopeId} (kept : arena.Kept scope) : later.Kept scope := by
  obtain ⟨live, why⟩ := kept
  cases turn with
  | stay same sound alive keeps =>
    exact ⟨(alive scope).mpr live, why.imp (keeps scope).captured (keeps scope).parent.trans⟩
  | enter parent view same =>
    exact ⟨Arena.live_add_of_live _ sound live, (Arena.frame_add_of_live _ live).symm ▸ why⟩
  | leave released same =>
    by_cases ends : arena.Releasable released
    · have apart : scope ≠ released := by
        rintro rfl
        rcases why with captured | top
        · exact Bool.noConfusion (captured.symm.trans ends.1)
        · simpa [top] using ends.2
      exact ⟨Arena.live_release_of_ne live apart, (Arena.frame_release_of_ne apart).symm ▸ why⟩
    · rw [Arena.release_of_not_releasable ends]
      exact ⟨live, why⟩

/-- A turn leaves a live scope alone that the process does not own. -/
theorem Turn.outside {owned after : List ScopeId} {arena later : Arena} (turn : Turn owned arena after later)
    (sound : arena.Sound) {scope : ScopeId} (live : arena.Live scope) (other : scope ∉ owned) :
    later.Live scope ∧ (later.frame scope).parent = (arena.frame scope).parent := by
  cases turn with
  | stay same sound alive keeps => exact ⟨(alive scope).mpr live, (keeps scope).parent⟩
  | enter parent view same =>
    exact ⟨Arena.live_add_of_live _ sound live, congrArg Frame.parent (Arena.frame_add_of_live _ live)⟩
  | leave released same =>
    have apart : scope ≠ released := fun equal => other (same.mem_iff.mpr (equal ▸ .head _))
    exact ⟨Arena.live_release_of_ne live apart, congrArg Frame.parent (Arena.frame_release_of_ne apart)⟩

/-- A machine that stores kept scopes only. Above a captured scope all is captured. -/
structure Machine.Tidy (machine : Machine) : Prop where
  sound : machine.arena.Sound
  paths : ∀ scope, machine.arena.Live scope → (machine.arena.frame scope).captured = true →
    ∃ path, machine.arena.Path scope path ∧
      ∀ above ∈ path, machine.arena.Live above ∧ (machine.arena.frame above).captured = true
  locals : ∀ scope, machine.arena.Live scope → ∀ pair ∈ (machine.arena.frame scope).locals,
    pair.2.Within machine.arena.Kept
  memory : machine.memory.All (·.Within machine.arena.Kept)

namespace Machine.Tidy

variable {machine : Machine} {around : List ScopeId} {scope : ScopeId}

theorem memory_mono (tidy : machine.Tidy) {later : Arena}
    (keeps : ∀ scope, machine.arena.Kept scope → later.Kept scope) :
    machine.memory.All (·.Within later.Kept) :=
  tidy.memory.imp fun _ within => within.imp keeps

theorem grounded_of_kept (tidy : machine.Tidy) (kept : machine.arena.Kept scope) :
    machine.arena.Grounded scope := by
  obtain ⟨live, captured | top⟩ := kept
  · obtain ⟨path, walk, all⟩ := tidy.paths scope live captured
    exact ⟨path, walk, fun above member => (all above member).1⟩
  · exact ⟨[scope], .top live.1 top, by simpa using live⟩

theorem grounded_of_anchored (tidy : machine.Tidy)
    (bodies : ∀ scope ∈ around, machine.arena.Grounded scope)
    (anchored : machine.arena.Anchored around scope) : machine.arena.Grounded scope :=
  anchored.elim tidy.grounded_of_kept (bodies scope)

theorem withMemory (tidy : machine.Tidy) {memory : Memory}
    (all : memory.All (·.Within machine.arena.Kept)) : Tidy ⟨machine.arena, memory⟩ :=
  { tidy with memory := all }

theorem write (tidy : machine.Tidy) (name : String) {value : Value}
    (within : value.Within machine.arena.Kept) :
    Tidy ⟨machine.arena.modifyFrame scope (Frame.write name value), machine.memory⟩ := by
  have live : ∀ {other}, (machine.arena.modifyFrame scope (Frame.write name value)).Live other →
      machine.arena.Live other := (Arena.live_modifyFrame _).mp
  have part : ∀ {α : Type} (part : Frame → α) (other : ScopeId),
      (∀ frame : Frame, part (frame.write name value) = part frame) →
      part ((machine.arena.modifyFrame scope (Frame.write name value)).frame other) =
        part (machine.arena.frame other) := fun part other same => Arena.part_modifyFrame part same
  have keeps : ∀ other, machine.arena.Kept other →
      (machine.arena.modifyFrame scope (Frame.write name value)).Kept other := fun other =>
    (Turn.ofModify machine.arena [] scope (Frame.write_keeps name value)).kept tidy.sound
  exact {
    sound := tidy.sound.modifyFrame fun _ => rfl
    paths := fun other alive flag => by
      obtain ⟨path, walk, all⟩ := tidy.paths other (live alive)
        ((part Frame.captured other fun _ => rfl).symm.trans flag)
      refine ⟨path, walk.congr fun above member => ?_, fun above member => ?_⟩
      · exact ⟨by simpa using (all above member).1.1, part Frame.parent above fun _ => rfl⟩
      · exact ⟨(Arena.live_modifyFrame _).mpr (all above member).1,
          (part Frame.captured above fun _ => rfl).trans (all above member).2⟩
    locals := fun other alive pair member => by
      change pair ∈ ((machine.arena.modifyFrame scope _).frame other).locals at member
      refine Value.Within.imp ?_ keeps
      by_cases same : other = scope
      · subst same
        rw [Arena.frame_modifyFrame_self _ (live alive).1] at member
        exact Fields.put_all (Q := fun value => value.Within machine.arena.Kept)
          (tidy.locals other (live alive)) within pair member
      · rw [Arena.frame_modifyFrame_of_ne _ same] at member
        exact tidy.locals other (live alive) pair member
    memory := tidy.memory_mono keeps }

theorem capture (tidy : machine.Tidy) (grounded : machine.arena.Grounded scope) :
    Tidy ⟨machine.arena.capture scope, machine.memory⟩ ∧ (machine.arena.capture scope).Kept scope := by
  obtain ⟨path, walk, alive⟩ := grounded
  have keeps : ∀ other, machine.arena.Kept other → (machine.arena.capture scope).Kept other := fun other =>
    (Turn.ofCapture machine.arena [] scope).kept tidy.sound
  have closed : ∀ id ∈ path, ∀ parent, (machine.arena.frame id).captured = true →
      (machine.arena.frame id).parent = some parent → (machine.arena.frame parent).captured = true := by
    intro id member parent flag has
    obtain ⟨above, up, all⟩ := tidy.paths id (alive id member) flag
    exact (all parent (up.parent_mem up.self_mem has)).2
  have captured := walk.captured_capture closed
  -- What a capture does to a frame, whether it reaches the frame or not.
  have live : ∀ other, (machine.arena.capture scope).Live other ↔ machine.arena.Live other := fun other =>
    Arena.live_captureAll ..
  have frames : ∀ other, (machine.arena.frame other).Keeps ((machine.arena.capture scope).frame other) :=
    fun other => Arena.frame_captureAll_keeps ..
  have locals : ∀ other, ((machine.arena.capture scope).frame other).locals =
      (machine.arena.frame other).locals := fun other => Arena.locals_captureAll ..
  have still : ∀ {start : ScopeId} {other : List ScopeId}, machine.arena.Path start other →
      (machine.arena.capture scope).Path start other := fun up =>
    up.congr fun id member => ⟨(Arena.captureAll_size ..).symm ▸ up.bound id member, (frames id).parent⟩
  have onPath : ∀ id ∈ path, ∃ above, (machine.arena.capture scope).Path id above ∧
      ∀ other ∈ above, (machine.arena.capture scope).Live other ∧
        ((machine.arena.capture scope).frame other).captured = true := by
    intro id member
    obtain ⟨above, up, suffix⟩ := walk.drop member
    exact ⟨above, still up, fun other inside =>
      ⟨(live other).mpr (alive other (suffix.subset inside)), captured other (suffix.subset inside)⟩⟩
  refine ⟨?_, (live scope).mpr (alive scope walk.self_mem), .inl (captured scope walk.self_mem)⟩
  refine {
    sound := tidy.sound.captureAll _
    paths := fun other alive flag => ?paths
    locals := fun other alive pair member => ?locals
    memory := tidy.memory_mono keeps }
  case paths =>
    -- A captured scope off the path was captured before, so its own path was captured before as well.
    by_cases member : other ∈ path
    · exact onPath other member
    · have marked : other ∉ path.takeWhile fun id => !(machine.arena.frame id).captured := fun inside =>
        member (List.takeWhile_subset _ inside)
      have before : (machine.arena.frame other).captured = true := by
        change ((machine.arena.capture scope).frame other).captured = true at flag
        rwa [Arena.capture_eq, walk.chain, Arena.frame_captureAll_of_not_mem marked] at flag
      obtain ⟨above, up, all⟩ := tidy.paths other ((live other).mp alive) before
      exact ⟨above, still up, fun id inside =>
        ⟨(live id).mpr (all id inside).1, (frames id).captured (all id inside).2⟩⟩
  case locals =>
    rw [locals other] at member
    exact (tidy.locals other ((live other).mp alive) pair member).imp keeps

theorem enter (tidy : machine.Tidy) (parent : ScopeId) (view : Option View) :
    Tidy ⟨(machine.arena.child parent view).2, machine.memory⟩ := by
  let frame : Frame := { Frame.blank with view, parent := some parent }
  let later := (machine.arena.add frame).2
  have turn : Turn [] machine.arena [(machine.arena.add frame).1] later := .enter parent view (.refl _)
  have keeps : ∀ other, machine.arena.Kept other → later.Kept other := fun other => turn.kept tidy.sound
  have new : later.frame (machine.arena.add frame).1 = frame := Arena.frame_add_self frame tidy.sound
  have old : ∀ {other}, machine.arena.Live other → later.frame other = machine.arena.frame other := fun live =>
    Arena.frame_add_of_live frame live
  have cases : ∀ {other}, later.Live other → other = (machine.arena.add frame).1 ∨ machine.arena.Live other :=
    (Arena.live_add_iff frame tidy.sound).mp
  change Tidy ⟨later, machine.memory⟩
  refine {
    sound := tidy.sound.add frame
    paths := fun other alive flag => ?paths
    locals := fun other alive pair member => ?locals
    memory := tidy.memory_mono keeps }
  -- The new scope has no variables and is not captured; each other one is as before.
  all_goals rcases cases alive with rfl | before
  case paths.inl =>
    rw [new] at flag
    cases flag
  case paths.inr =>
    rw [old before] at flag
    obtain ⟨path, walk, all⟩ := tidy.paths other before flag
    refine ⟨path, walk.congr fun id member => ?_, fun id member => ?_⟩
    · exact ⟨(Arena.live_add_of_live frame tidy.sound (all id member).1).1,
        congrArg Frame.parent (old (all id member).1)⟩
    · exact ⟨Arena.live_add_of_live frame tidy.sound (all id member).1,
        (congrArg Frame.captured (old (all id member).1)).trans (all id member).2⟩
  case locals.inl =>
    rw [new] at member
    cases member
  case locals.inr =>
    rw [old before] at member
    exact (tidy.locals other before pair member).imp keeps

theorem leave (tidy : machine.Tidy) (scope : ScopeId) :
    Tidy ⟨machine.arena.release scope, machine.memory⟩ := by
  by_cases ends : machine.arena.Releasable scope
  case neg =>
    rw [Arena.release_of_not_releasable ends]
    exact tidy
  have keeps : ∀ other, machine.arena.Kept other → (machine.arena.release scope).Kept other := fun other =>
    (Turn.leave scope (.refl [scope])).kept tidy.sound
  have before : ∀ {other}, (machine.arena.release scope).Live other →
      machine.arena.Live other ∧ (machine.arena.release scope).frame other = machine.arena.frame other :=
    fun alive =>
      have left := (Arena.live_release_iff ends).mp alive
      ⟨left.1, Arena.frame_release_of_ne left.2⟩
  refine {
    sound := tidy.sound.release scope
    paths := fun other alive flag => ?paths
    locals := fun other alive pair member => ?locals
    memory := tidy.memory_mono keeps }
  case paths =>
    change ((machine.arena.release scope).frame other).captured = true at flag
    rw [(before alive).2] at flag
    obtain ⟨path, walk, all⟩ := tidy.paths other (before alive).1 flag
    -- The path is captured as a whole, and the released scope was not.
    have apart : ∀ id ∈ path, id ≠ scope := by
      rintro id member rfl
      exact Bool.noConfusion ((all id member).2.symm.trans ends.1)
    refine ⟨path, walk.congr fun id member => ?_, fun id member => ?_⟩
    · exact ⟨(Arena.live_release_of_ne (all id member).1 (apart id member)).1,
        congrArg Frame.parent (Arena.frame_release_of_ne (apart id member))⟩
    · exact ⟨Arena.live_release_of_ne (all id member).1 (apart id member),
        (congrArg Frame.captured (Arena.frame_release_of_ne (apart id member))).trans (all id member).2⟩
  case locals =>
    rw [(before alive).2] at member
    exact (tidy.locals other (before alive).1 pair member).imp keeps

end Machine.Tidy

end RuleScript
