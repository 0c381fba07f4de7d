import RuleScript.Proofs.Run.Balance
import RuleScript.Proofs.Run.WriteFree
import RuleScript.Proofs.Scope.Resolving

/-! Which function a call by name reaches in a run.

Programs import libraries into their root only, and all chains that have a root end there. So a closure anywhere on the
way up is nearer than every library, and among the libraries the order of their import decides.
-/

set_option autoImplicit false

namespace RuleScript

namespace Arena

variable {arena later : Arena} {root scope : ScopeId} {name : String} {imported : List Library}

theorem frame_importAll_of_ne (libraries : List Library) {other : ScopeId} (apart : other ≠ scope) :
    (arena.importAll scope libraries).frame other = arena.frame other := by
  induction libraries generalizing arena with
  | nil => rfl
  | cons library rest ih => exact ih.trans (frame_modifyFrame_of_ne _ apart)

theorem libraries_importAll_self (libraries : List Library) (inside : scope.index < arena.frames.size) :
    ((arena.importAll scope libraries).frame scope).libraries = (arena.frame scope).libraries ++ libraries := by
  induction libraries generalizing arena with
  | nil => exact (List.append_nil _).symm
  | cons library rest ih =>
    have still : scope.index < (arena.importLibrary scope library).frames.size := by
      simpa [importLibrary] using inside
    change (((arena.importLibrary scope library).importAll scope rest).frame scope).libraries = _
    rw [ih still, importLibrary, frame_modifyFrame_self _ inside]
    simp

/-- An arena whose libraries are all imported into its root, which is in use and has no parent. -/
structure Rooted (arena : Arena) (root : ScopeId) (imported : List Library) : Prop where
  sound : arena.Sound
  live : arena.Live root
  top : (arena.frame root).parent = none
  only : ∀ scope, arena.Live scope → (arena.frame scope).parent = none → scope = root
  own : (arena.frame root).libraries = imported
  others : ∀ scope, scope ≠ root → (arena.frame scope).libraries = []

namespace Rooted

/-- Whatever a step does to the scopes, it imports nothing and does not release the root. -/
theorem turn {owned after : List ScopeId} (rooted : arena.Rooted root imported)
    (turn : Turn owned arena after later) : later.Rooted root imported := by
  cases turn with
  | stay same sound alive keeps =>
    exact {
      sound := sound rooted.sound
      live := (alive root).mpr rooted.live
      top := (keeps root).parent.trans rooted.top
      only := fun scope live top => rooted.only scope ((alive scope).mp live) ((keeps scope).parent.symm.trans top)
      own := (keeps root).libraries.trans rooted.own
      others := fun scope apart => (keeps scope).libraries.trans (rooted.others scope apart) }
  | enter parent view same =>
    let frame : Frame := { Frame.blank with view, parent := some parent }
    have old : (arena.add frame).2.frame root = arena.frame root := frame_add_of_live frame rooted.live
    refine {
      sound := rooted.sound.add frame
      live := live_add_of_live frame rooted.sound rooted.live
      top := (congrArg Frame.parent old).trans rooted.top
      only := fun scope live (top : ((arena.add frame).2.frame scope).parent = none) => ?_
      own := (congrArg Frame.libraries old).trans rooted.own
      others := fun scope apart => ?_ }
    · rcases (live_add_iff frame rooted.sound).mp live with rfl | before
      · rw [frame_add_self frame rooted.sound] at top
        cases top
      · rw [frame_add_of_live frame before] at top
        exact rooted.only scope before top
    · rcases @frame_add_cases arena scope frame with new | kept
      · exact congrArg Frame.libraries new
      · exact (congrArg Frame.libraries kept).trans (rooted.others scope apart)
  | leave released same =>
    by_cases ends : arena.Releasable released
    · -- The root has no parent, so another scope is released.
      have apart : root ≠ released := by
        rintro rfl
        simpa [rooted.top] using ends.2
      have old : (arena.release released).frame root = arena.frame root := frame_release_of_ne apart
      refine {
        sound := rooted.sound.release released
        live := live_release_of_ne rooted.live apart
        top := (congrArg Frame.parent old).trans rooted.top
        only := fun scope live top => ?_
        own := (congrArg Frame.libraries old).trans rooted.own
        others := fun scope other => ?_ }
      · obtain ⟨before, different⟩ := (live_release_iff ends).mp live
        rw [frame_release_of_ne different] at top
        exact rooted.only scope before top
      · rcases @frame_release_cases arena released scope with blank | kept
        · exact congrArg Frame.libraries blank
        · exact (congrArg Frame.libraries kept).trans (rooted.others scope other)
    · rw [release_of_not_releasable ends]
      exact rooted

theorem steps {clock : Clock} {admits : Process → Machine → Prop} {first last : Process × Machine}
    (rooted : first.2.arena.Rooted root imported) (steps : Process.Steps clock admits first last) :
    last.2.arena.Rooted root imported := by
  induction steps with
  | refl => exact rooted
  | tail before step ih => exact ih.turn step.turn

theorem mem_path (rooted : arena.Rooted root imported) {path : List ScopeId} (walk : arena.Path scope path)
    (alive : ∀ id ∈ path, arena.Live id) : root ∈ path := by
  induction walk with
  | top inside last =>
    rw [rooted.only _ (alive _ List.mem_cons_self) last]
    exact List.mem_cons_self
  | up has rest ih => exact List.mem_cons_of_mem _ (ih fun id member => alive id (List.mem_cons_of_mem _ member))

variable {below above : List ScopeId} {owner : ScopeId}

theorem resolveCall_closure (rooted : arena.Rooted root imported) {closure : Closure}
    (split : arena.chain scope = below ++ owner :: above)
    (bound : Fields.get? (arena.frame owner).locals name = some (.closure closure))
    (nearer : ∀ id ∈ below, (arena.frame id).NoClosure name) :
    arena.resolveCall scope name = .ok (.closure closure) := by
  -- Only the root imports libraries, and no chain goes on after it: those before the owner have none.
  have atop := not_top_of_chain rooted.top split
  refine resolveCall_ok_iff.mpr ⟨below, owner, above, split, fun id member => ?_, .closure bound⟩
  have bare : (arena.frame id).libraries = [] := rooted.others id fun same => atop (same ▸ member)
  exact ⟨nearer id member, by simp [bare]⟩

theorem resolveCall_library (rooted : arena.Rooted root imported) {before after : List Library} {library : Library}
    (unbound : ∀ id ∈ arena.chain scope, (arena.frame id).NoClosure name) (reaches : root ∈ arena.chain scope)
    (split : imported = before ++ library :: after) (has : library.has name = true)
    (first : ∀ earlier ∈ before, earlier.has name = false) :
    arena.resolveCall scope name = .ok (.library library) := by
  obtain ⟨below, whole, absent⟩ := chain_eq_append_of_top rooted.top reaches
  refine resolveCall_ok_iff.mpr ⟨below, root, [], whole, fun id member => ?_, ?_⟩
  · have bare : (arena.frame id).libraries = [] := rooted.others id fun same => absent (same ▸ member)
    exact ⟨unbound id (whole ▸ List.mem_append_left _ member), by simp [bare]⟩
  · exact .library (unbound root reaches) (rooted.own.trans split) has first

theorem resolveCall_none (rooted : arena.Rooted root imported)
    (unbound : ∀ id ∈ arena.chain scope, (arena.frame id).NoClosure name)
    (unknown : root ∈ arena.chain scope → ∀ library ∈ imported, library.has name = false) :
    arena.resolveCall scope name =
      .error (if arena.ends scope then .methodNotFound name else .crash .endlessSearch) := by
  refine resolveCall_error_iff.mpr ⟨rfl, fun id member => ⟨unbound id member, ?_⟩⟩
  by_cases same : id = root
  · subst same
    rw [rooted.own]
    exact unknown member
  · simp [rooted.others id same]

end Rooted

end Arena

theorem Program.start_rooted (program : Program) (memory : Memory) :
    (program.start memory).2.arena.Rooted (program.start memory).1 (program.libraries ++ [.standard]) := by
  let frame : Frame := { Frame.blank with view := some ⟨0, []⟩ }
  let arena := (Arena.empty.add frame).2
  let root := (Arena.empty.add frame).1
  have live : arena.Live root := (Arena.live_add_iff frame Arena.empty_sound).mpr (.inl rfl)
  have blank : arena.frame root = frame := Arena.frame_add_self frame Arena.empty_sound
  refine {
    sound := (Arena.empty_sound.add frame).importAll _ _
    live := (Arena.live_importAll _).mpr live
    top := ?_
    only := fun scope alive _ => ?_
    own := ?_
    others := fun scope apart => ?_ }
  · exact (Arena.part_importAll Frame.parent (fun _ _ => rfl) _).trans (congrArg Frame.parent blank)
  · -- Before the root there was no scope at all.
    have one := (Arena.live_add_iff frame Arena.empty_sound).mp ((Arena.live_importAll _).mp alive)
    exact one.resolve_right fun none => Nat.not_lt_zero _ none.1
  · exact (Arena.libraries_importAll_self _ live.1).trans (by rw [blank]; rfl)
  · have kept : (arena.importAll root (program.libraries ++ [.standard])).frame scope = arena.frame scope :=
      Arena.frame_importAll_of_ne _ apart
    refine (congrArg Frame.libraries kept).trans ?_
    exact congrArg Frame.libraries (Arena.frame_add_of_ne frame apart)

namespace Evaluator

variable {clock : Clock} {eval : Evaluator} {scope : ScopeId} {name : String} {arguments : List Value}
  {machine : Machine}

theorem callName_closure {closure : Closure} (reaches : machine.arena.resolveCall scope name = .ok (.closure closure)) :
    callName clock eval scope name arguments machine = invoke eval closure arguments machine := by
  rw [callName_apply, reaches]

theorem callName_library {library : Library} (reaches : machine.arena.resolveCall scope name = .ok (.library library)) :
    callName clock eval scope name arguments machine = ask clock library name arguments machine := by
  rw [callName_apply, reaches]

theorem callName_error {failure : Failure} (reaches : machine.arena.resolveCall scope name = .error failure) :
    callName clock eval scope name arguments machine = .done machine (.error failure) := by
  rw [callName_apply, reaches]
  rfl

end Evaluator

namespace Program

variable {program : Program} {document : Json}

/-- A call by name reaches the nearest callable. Up from a scope, the first frame decides that has a closure under the
name or a library that knows it, its closure before its libraries, and these in import order; there is no method only
where no frame has either. What else is bound to the name, and whatever views there are, makes no difference.

In a run of a program all libraries are at the root, the host's in import order before the standard one. So a function
of the script is called before any library, wherever it stands on the way up, and a library before those after it.
Where nothing is found, the way up has to end for the call to fail. -/
theorem calls_reach_nearest :
    (∀ (arena : Arena) scope name, arena.Acyclic → scope.index < arena.frames.size →
      arena.Path scope (arena.chain scope) ∧
      (∀ callee, arena.resolveCall scope name = .ok callee ↔ ∃ below owner above,
        arena.chain scope = below ++ owner :: above ∧ (∀ id ∈ below, (arena.frame id).Silent name) ∧
          (arena.frame owner).Offers name callee) ∧
      (∀ failure, arena.resolveCall scope name = .error failure ↔
        failure = .methodNotFound name ∧ ∀ id ∈ arena.chain scope, (arena.frame id).Silent name) ∧
      ∀ other, Arena.CallsAlike name arena other → other.resolveCall scope name = arena.resolveCall scope name) ∧
    ∀ process machine, program.Visits document (process, machine) →
      let root := (program.start (.ofDocument document)).1
      let imported := program.libraries ++ [.standard]
      (∀ scope path, machine.arena.Path scope path → machine.arena.ends scope = true ∧
        ((∀ id ∈ path, machine.arena.Live id) → root ∈ path)) ∧
      ∀ eval scope name arguments,
        (∀ below owner above closure, machine.arena.chain scope = below ++ owner :: above →
          Fields.get? (machine.arena.frame owner).locals name = some (.closure closure) →
          (∀ id ∈ below, (machine.arena.frame id).NoClosure name) →
          Evaluator.callName program.clock eval scope name arguments machine =
            Evaluator.invoke eval closure arguments machine) ∧
        ((∀ id ∈ machine.arena.chain scope, (machine.arena.frame id).NoClosure name) →
          (∀ before library after, root ∈ machine.arena.chain scope → imported = before ++ library :: after →
            library.has name = true → (∀ earlier ∈ before, earlier.has name = false) →
            Evaluator.callName program.clock eval scope name arguments machine =
              Evaluator.ask program.clock library name arguments machine) ∧
          ((root ∈ machine.arena.chain scope → ∀ library ∈ imported, library.has name = false) →
            Evaluator.callName program.clock eval scope name arguments machine =
              .done machine (.error
                (if machine.arena.ends scope then .methodNotFound name else .crash .endlessSearch)))) := by
  constructor
  · intro arena scope name acyclic inside
    obtain ⟨path, walk⟩ := acyclic.exists_path inside
    rw [walk.chain]
    refine ⟨walk, fun callee => ?_, fun failure => ?_, fun other alike => alike.resolveCall scope⟩
    · rw [Arena.resolveCall_ok_iff, walk.chain]
    · rw [Arena.resolveCall_error_iff, walk.chain, if_pos walk.ends]
  · intro process machine visits root imported
    have rooted : machine.arena.Rooted root imported := (program.start_rooted _).steps visits
    refine ⟨fun scope path walk => ⟨walk.ends, rooted.mem_path walk⟩, fun eval scope name arguments => ⟨?_, fun unbound => ⟨?_, ?_⟩⟩⟩
    · intro below owner above closure split bound nearer
      exact Evaluator.callName_closure (rooted.resolveCall_closure split bound nearer)
    · intro before library after reaches split has first
      exact Evaluator.callName_library (rooted.resolveCall_library unbound reaches split has first)
    · intro unknown
      exact Evaluator.callName_error (rooted.resolveCall_none unbound unknown)

/-- From a scope with a variable `f` and a view, a call of `f` reaches the library above, not the function at the top.
In a run, a library is asked before the next one, and a function `MAX` is called before the standard one. -/
theorem calls_reach_nearest_mixed :
    let first : Library := .table "first" [("f", .answer (.text "first"))]
    let second : Library := .table "second" [("f", .answer (.text "second"))]
    let closure : Closure := ⟨[], .text "script", ⟨0⟩⟩
    let arena : Arena := ⟨#[⟨[("f", .closure closure)], [], none, none, true⟩, ⟨[], [first], none, some ⟨0⟩, false⟩,
      ⟨[("f", .bool true)], [], some ⟨0, []⟩, some ⟨1⟩, false⟩], []⟩
    let asking : Program := ⟨.access .call [.scope, .text "f"], ⟨"2024-01-01", none⟩, [first, second]⟩
    let declaring : Program := ⟨.function "MAX" [] (.text "script"), ⟨"2024-01-01", none⟩, []⟩
    arena.resolveCall ⟨2⟩ "f" = .ok (.library first) ∧
    (∀ eval, Evaluator.callName asking.clock eval ⟨0⟩ "f" [] (asking.start (.ofDocument .null)).2 =
      Evaluator.ask asking.clock first "f" [] (asking.start (.ofDocument .null)).2) ∧
    Library.has .standard "MAX" = true ∧
    ∃ machine, declaring.Visits .null (.answer (.closure closure), machine) ∧
      ∀ eval, Evaluator.callName declaring.clock eval ⟨0⟩ "MAX" [] machine =
        Evaluator.invoke eval closure [] machine := by
  intro first second closure arena asking declaring
  refine ⟨?_, ?_, by decide, ?_⟩
  · have acyclic : arena.Acyclic := .of_lt fun scope parent has => by
      obtain ⟨index⟩ := scope
      match index with
      | 0 => cases has
      | 1 | 2 =>
        cases has
        exact Nat.lt_succ_self _
      | index + 3 => cases has
    have silent : (arena.frame ⟨2⟩).Silent "f" := {
      unbound := fun _ bound => by cases bound
      unknown := List.forall_mem_nil _ }
    have imported : (arena.frame ⟨1⟩).libraries = [] ++ first :: [] := rfl
    have offers : (arena.frame ⟨1⟩).Offers "f" (.library first) :=
      .library (fun _ bound => by cases bound) imported (by decide) (List.forall_mem_nil _)
    have arenas := (@calls_reach_nearest asking .null).1 arena ⟨2⟩ "f" acyclic (by decide)
    exact (arenas.2.1 _).mpr ⟨[⟨2⟩], ⟨1⟩, [⟨0⟩], rfl, by simpa using silent, offers⟩
  · intro eval
    let start := (asking.start (.ofDocument .null)).2
    have unbound : ∀ id ∈ start.arena.chain ⟨0⟩, (start.arena.frame id).NoClosure "f" := by
      intro id member closure bound
      obtain rfl : id = ⟨0⟩ := List.mem_singleton.mp member
      cases bound
    have runs := ((@calls_reach_nearest asking .null).2 _ _ .refl).2 eval ⟨0⟩ "f" []
    exact (runs.2 unbound).1 [] first [second, .standard] (.head _) rfl (by decide) (List.forall_mem_nil _)
  · let start := (declaring.start (.ofDocument .null)).2
    let captured : Machine := ⟨start.arena.capture ⟨0⟩, start.memory⟩
    let declared : Machine := ⟨captured.arena.modifyFrame ⟨0⟩ (Frame.write "MAX" (.closure closure)), captured.memory⟩
    have made : declaring.Visits .null
        (.waiting (.withValue (.declare ⟨0⟩ "MAX")) (.answer (.closure closure)), captured) :=
      .single (.move trivial rfl)
    have visits : declaring.Visits .null (.answer (.closure closure), declared) := .tail made (.move trivial rfl)
    have chain : declared.arena.chain ⟨0⟩ = [] ++ ⟨0⟩ :: [] := by decide
    have bound : Fields.get? (declared.arena.frame ⟨0⟩).locals "MAX" = some (.closure closure) := rfl
    refine ⟨declared, visits, fun eval => ?_⟩
    have runs := ((@calls_reach_nearest declaring .null).2 _ _ visits).2 eval ⟨0⟩ "MAX" []
    exact runs.1 [] ⟨0⟩ [] closure chain bound (List.forall_mem_nil _)

end Program

end RuleScript
