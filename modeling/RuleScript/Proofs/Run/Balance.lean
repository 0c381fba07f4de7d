import RuleScript.Program
import RuleScript.Proofs.Run.Adequacy
import RuleScript.Proofs.Run.Turns

/-! No scope leaks.

However an evaluation ends, the scopes that it made are released again, all but those that were captured, and no
other scope is touched by that.
-/

set_option autoImplicit false

namespace RuleScript

/-- The scopes in the course of a run that started with `base` and owns some by now. -/
structure Balanced (base : Arena) (owned : List ScopeId) (arena : Arena) : Prop where
  sound : arena.Sound
  nodup : owned.Nodup
  live : ∀ scope ∈ owned, arena.Live scope
  parent : ∀ scope ∈ owned, (arena.frame scope).parent.isSome = true
  new : ∀ scope ∈ owned, ¬ base.Live scope
  kept : ∀ scope, base.Live scope → arena.Live scope ∧ (base.frame scope).Keeps (arena.frame scope)
  captured : ∀ scope, arena.Live scope → ¬ base.Live scope → scope ∉ owned →
    (arena.frame scope).captured = true

namespace Balanced

variable {base arena later : Arena} {owned after : List ScopeId}

theorem start (sound : base.Sound) : Balanced base [] base where
  sound := sound
  nodup := .nil
  live _ member := nomatch member
  parent _ member := nomatch member
  new _ member := nomatch member
  kept _ live := ⟨live, .refl _⟩
  captured _ live none := absurd live none

theorem enter (balanced : Balanced base owned arena) (parent : ScopeId) (view : Option View) :
    Balanced base ((arena.child parent view).1 :: owned) (arena.child parent view).2 := by
  let frame : Frame := { Frame.blank with view, parent := some parent }
  have new : ¬ arena.Live (arena.add frame).1 := arena.not_live_add frame
  have same : (arena.add frame).2.frame (arena.add frame).1 = frame := Arena.frame_add_self frame balanced.sound
  have old : ∀ {scope}, arena.Live scope → (arena.add frame).2.Live scope ∧
      (arena.add frame).2.frame scope = arena.frame scope := fun live =>
    ⟨Arena.live_add_of_live frame balanced.sound live, Arena.frame_add_of_live frame live⟩
  change Balanced base ((arena.add frame).1 :: owned) (arena.add frame).2
  refine {
    sound := balanced.sound.add frame
    nodup := List.nodup_cons.mpr ⟨fun member => new (balanced.live _ member), balanced.nodup⟩
    live := ?live, parent := ?parent, new := ?new, kept := ?kept, captured := ?captured }
  case live =>
    rintro scope member
    rcases List.mem_cons.mp member with rfl | before
    · exact (Arena.live_add_iff frame balanced.sound).mpr (.inl rfl)
    · exact (old (balanced.live scope before)).1
  case parent =>
    rintro scope member
    rcases List.mem_cons.mp member with rfl | before
    · rw [same]
      rfl
    · rw [(old (balanced.live scope before)).2]
      exact balanced.parent scope before
  case new =>
    rintro scope member
    rcases List.mem_cons.mp member with rfl | before
    · exact fun live => new (balanced.kept _ live).1
    · exact balanced.new scope before
  case kept =>
    intro scope live
    obtain ⟨still, keeps⟩ := balanced.kept scope live
    exact ⟨(old still).1, (old still).2 ▸ keeps⟩
  case captured =>
    intro scope live unknown absent
    rw [List.mem_cons, not_or] at absent
    have before := ((Arena.live_add_iff frame balanced.sound).mp live).resolve_left absent.1
    rw [(old before).2]
    exact balanced.captured scope before unknown absent.2

theorem leave {scope : ScopeId} (balanced : Balanced base (scope :: after) arena) :
    Balanced base after (arena.release scope) := by
  have nodup := List.nodup_cons.mp balanced.nodup
  have old : ∀ {other}, arena.Live other → other ≠ scope →
      (arena.release scope).Live other ∧ (arena.release scope).frame other = arena.frame other := fun live apart =>
    ⟨Arena.live_release_of_ne live apart, Arena.frame_release_of_ne apart⟩
  have apart : ∀ other ∈ after, other ≠ scope := fun other member same => nodup.1 (same ▸ member)
  refine {
    sound := balanced.sound.release scope
    nodup := nodup.2
    live := fun other member => (old (balanced.live other (.tail _ member)) (apart other member)).1
    parent := fun other member => ?parent
    new := fun other member => balanced.new other (.tail _ member)
    kept := fun other live => ?kept
    captured := fun other live unknown absent => ?captured }
  case parent =>
    rw [(old (balanced.live other (.tail _ member)) (apart other member)).2]
    exact balanced.parent other (.tail _ member)
  case kept =>
    have different : other ≠ scope := fun same => balanced.new scope (.head _) (same ▸ live)
    obtain ⟨still, keeps⟩ := balanced.kept other live
    exact ⟨(old still different).1, (old still different).2 ▸ keeps⟩
  case captured =>
    by_cases same : other = scope
    · -- A scope with a parent that is live after its release was captured.
      subst same
      by_cases ends : arena.Releasable other
      · exact absurd rfl ((Arena.live_release_iff ends).mp live).2
      · rw [Arena.release_of_not_releasable ends]
        cases flag : (arena.frame other).captured with
        | true => rfl
        | false => exact absurd ⟨flag, balanced.parent other (.head _)⟩ ends
    · have before : arena.Live other := Arena.live_of_live_release live
      rw [(old before same).2]
      refine balanced.captured other before unknown fun member => ?_
      exact (List.mem_cons.mp member).elim same absent

theorem perm (balanced : Balanced base owned arena) (same : after.Perm owned) : Balanced base after arena where
  sound := balanced.sound
  nodup := same.nodup_iff.mpr balanced.nodup
  live scope member := balanced.live scope (same.mem_iff.mp member)
  parent scope member := balanced.parent scope (same.mem_iff.mp member)
  new scope member := balanced.new scope (same.mem_iff.mp member)
  kept := balanced.kept
  captured scope live unknown absent :=
    balanced.captured scope live unknown fun member => absent (same.mem_iff.mpr member)

theorem turn (balanced : Balanced base owned arena) (turn : Turn owned arena after later) :
    Balanced base after later := by
  cases turn with
  | enter parent view same => exact (balanced.enter parent view).perm same
  | leave scope same => exact (balanced.perm same.symm).leave
  | stay same sound live keeps =>
    refine perm ?_ same
    exact {
      sound := sound balanced.sound
      nodup := balanced.nodup
      live := fun scope member => (live scope).mpr (balanced.live scope member)
      parent := fun scope member => (keeps scope).parent ▸ balanced.parent scope member
      new := balanced.new
      kept := fun scope before =>
        ⟨(live scope).mpr (balanced.kept scope before).1, (balanced.kept scope before).2.trans (keeps scope)⟩
      captured := fun scope now unknown absent =>
        (keeps scope).captured (balanced.captured scope ((live scope).mp now) unknown absent) }

theorem steps {clock : Clock} {admits : Process → Machine → Prop} {first last : Process × Machine}
    (balanced : Balanced base first.1.owned first.2.arena) (steps : Process.Steps clock admits first last) :
    Balanced base last.1.owned last.2.arena := by
  induction steps with
  | refl => exact balanced
  | tail before step ih => exact ih.turn step.turn

end Balanced

/-- The machines that runs lead to, in the middle of them or at their ends. -/
inductive Machine.Reachable : Machine → Prop where
  | start (program : Program) (memory : Memory) : Reachable (program.start memory).2
  | step {clock : Clock} {process next : Process} {machine later : Machine} (before : Reachable machine)
      (step : Process.Step clock anyMove process machine next later) : Reachable later

theorem Turn.sound {owned after : List ScopeId} {arena later : Arena} (turn : Turn owned arena after later)
    (sound : arena.Sound) : later.Sound := by
  cases turn with
  | stay same keeps => exact keeps sound
  | enter parent view => exact sound.add _
  | leave scope => exact sound.release scope

theorem Arena.Sound.importAll {arena : Arena} (sound : arena.Sound) (scope : ScopeId) (libraries : List Library) :
    (arena.importAll scope libraries).Sound := by
  induction libraries generalizing arena with
  | nil => exact sound
  | cons library rest ih => exact ih (sound.modifyFrame fun _ => rfl)

theorem Machine.Reachable.sound {machine : Machine} (reachable : machine.Reachable) : machine.arena.Sound := by
  induction reachable with
  | start program memory => exact (Arena.empty_sound.add _).importAll _ _
  | step before step ih => exact step.turn.sound ih

/-- However an evaluation ends, the scopes that were live still are, as they were but for variables and captures.
Those that are live since then are captured, and there are as many more as of them. -/
theorem evaluate_balanced {clock : Clock} {depth : Nat} {instruction : Instruction} {scope : ScopeId}
    {machine later : Machine} {outcome : Except Failure Flow} (reachable : machine.Reachable)
    (ends : (evaluate clock depth instruction scope).perform machine = some (outcome, later)) :
    (∀ id, machine.arena.Live id →
      later.arena.Live id ∧ (machine.arena.frame id).Keeps (later.arena.frame id)) ∧
    (∀ id, later.arena.Live id → ¬ machine.arena.Live id → (later.arena.frame id).captured = true) ∧
    later.arena.live = machine.arena.live +
      (later.arena.liveScopes.filter fun id => !decide (machine.arena.Live id)).length := by
  have balanced : Balanced machine.arena [] later.arena :=
    (Balanced.start reachable.sound).steps (evaluate_steps ends)
  refine ⟨balanced.kept, fun id live new => balanced.captured id live new List.not_mem_nil, ?_⟩
  -- Of the scopes that are live now, those that were live before are all that were live before.
  have still : (later.arena.liveScopes.filter fun id => decide (machine.arena.Live id)).Perm
      machine.arena.liveScopes := by
    refine List.perm_of_nodup_nodup_toFinset_eq ((Arena.nodup_liveScopes _).filter _)
      (Arena.nodup_liveScopes _) ?_
    ext id
    simp only [List.mem_toFinset, List.mem_filter, Arena.mem_liveScopes, decide_eq_true_eq]
    exact ⟨And.right, fun live => ⟨(balanced.kept id live).1, live⟩⟩
  rw [Arena.live_eq_length_liveScopes balanced.sound, Arena.live_eq_length_liveScopes reachable.sound,
    ← still.length_eq]
  exact List.length_eq_length_filter_add _

/-- A loop with two rounds. The first one keeps its scope, that of the second is free again. -/
theorem evaluate_balanced_rounds :
    let body : Instruction := .branch (.access .get [.scope, .text "i"]) .scope none
    let program : Program := ⟨.loop "i" (.array [.truth true, .truth false]) body, ⟨"2024-01-01", none⟩, []⟩
    let machine := (program.start (.ofDocument .null)).2
    ∃ outcome later, (evaluate program.clock 9 program.root ⟨0⟩).perform machine = some (outcome, later) ∧
      machine.arena.frames.size = 1 ∧ later.arena.frames.size = 3 ∧
      (later.arena.liveScopes.filter fun id => !decide (machine.arena.Live id)).length = 1 := by
  intro body program machine
  have ran : ((evaluate program.clock 9 program.root ⟨0⟩).perform machine).map
      (fun result => (result.2.arena.frames.size, result.2.arena.live)) = some (3, 2) := by
    decide +kernel
  obtain ⟨⟨outcome, later⟩, ends, sizes⟩ := Option.map_eq_some_iff.mp ran
  obtain ⟨size, live⟩ : later.arena.frames.size = 3 ∧ later.arena.live = 2 := Prod.mk.inj sizes
  have before : machine.arena.live = 1 := by decide +kernel
  have grown := (evaluate_balanced (.start program (.ofDocument .null)) ends).2.2
  rw [live, before] at grown
  exact ⟨outcome, later, ends, by decide +kernel, size,
    (Nat.add_left_cancel (show 1 + 1 = 1 + _ from grown)).symm⟩

end RuleScript
