import RuleScript.Proofs.Run.Balance
import RuleScript.Proofs.Run.Moves
import RuleScript.Proofs.Run.Start

/-! No handle dangles, as long as no call by name is given a scope that nobody keeps.

A loop makes a closure of its body without keeping the scope around it. An array calls the closure at once. A scope
value looks `iterate` up as the name of a function instead, and that function may store what it is given.
-/

set_option autoImplicit false

namespace RuleScript

open Process

section Apply

variable {machine later : Machine} {around : List ScopeId}

theorem Primitive.tidy {primitive : Primitive} {result : Except Failure Value}
    (fits : primitive.Fits machine.arena around) (tidy : machine.Tidy)
    (bodies : ∀ scope ∈ around, machine.arena.Grounded scope)
    (ran : primitive.run.perform machine = some (result, later)) :
    later.Tidy ∧ ∀ value, result = .ok value → value.Within later.arena.Kept := by
  have plain : ∀ value : Value, value.handle? = none → value.Within machine.arena.Kept := Value.within_of_plain
  have keeps : ∀ scope, machine.arena.Kept scope → later.arena.Kept scope := fun _ =>
    (Primitive.turn [] ran).kept tidy.sound
  have reaches : ∀ {scope owner : ScopeId}, machine.arena.Anchored around scope →
      owner ∈ machine.arena.chain scope → machine.arena.Live owner := by
    intro scope owner anchored member
    obtain ⟨path, walk, alive⟩ := tidy.grounded_of_anchored bodies anchored
    exact alive owner (walk.chain ▸ member)
  cases primitive with
  | lookUp scope name =>
    have step := Machine.lookUp_apply scope name machine
    split at step <;> cases (Run.perform_done step).symm.trans ran
    case h_1 owner bound =>
      -- The variable is one of a scope on the chain, which is live, so its value was stored by the rules.
      refine ⟨tidy, fun value same => Except.ok.inj same ▸ ?_⟩
      have live := reaches fits (Arena.mem_chain_of_binding? bound).1
      cases found : Fields.get? (machine.arena.frame owner).locals name with
      | none => exact plain _ rfl
      | some value => exact tidy.locals owner live _ (Fields.mem_of_get? found)
    case h_2 view bound =>
      obtain ⟨all, good⟩ := View.get_all plain view name tidy.memory
      exact ⟨tidy.withMemory all, fun value same => Except.ok.inj same ▸ good⟩
    case h_3 => exact ⟨tidy, fun value same => Machine.eq_empty_of_unbound same ▸ plain _ rfl⟩
  | assign scope name value =>
    have step := Machine.assign_apply scope name value machine
    split at step <;> cases (Run.perform_done step).symm.trans ran
    case h_1 owner bound =>
      exact ⟨tidy.write name fits.2, fun value same => Except.ok.inj same ▸ fits.2.imp keeps⟩
    case h_2 view bound =>
      obtain ⟨all, good⟩ := View.set_all plain view name tidy.memory fits.2
      exact ⟨tidy.withMemory all, fun value same => Except.ok.inj same ▸ good⟩
    case h_3 => exact ⟨tidy, by simp⟩
  | declare scope name value =>
    have step := Machine.declare_apply scope name value machine
    split at step <;> cases (Run.perform_done step).symm.trans ran
    · exact ⟨tidy, by simp⟩
    · exact ⟨tidy.write name fits.2, fun value same => Except.ok.inj same ▸ fits.2.imp keeps⟩
  | act action =>
    cases (Run.perform_done (Run.action_apply action machine)).symm.trans ran
    obtain ⟨all, good⟩ := fits machine.memory tidy.memory
    exact ⟨tidy.withMemory all, good⟩

theorem Move.Fits.apply {move : Move} {next : Process} (fits : move.Fits machine.arena around)
    (tidy : machine.Tidy) (bodies : ∀ scope ∈ around, machine.arena.Grounded scope)
    (applied : move.apply machine = some (next, later)) : later.Tidy ∧ next.Fits later.arena around := by
  cases move with
  | become =>
    cases applied
    exact ⟨tidy, fits⟩
  | capture scope =>
    cases applied
    obtain ⟨anchored, next⟩ := fits
    obtain ⟨clean, kept⟩ := tidy.capture (tidy.grounded_of_anchored bodies anchored)
    exact ⟨clean, next _ (fun _ => (Turn.ofCapture machine.arena [] scope).kept tidy.sound) kept⟩
  | perform primitive after =>
    obtain ⟨⟨result, final⟩, ran, same⟩ := Option.map_eq_some_iff.mp applied
    obtain ⟨clean, good⟩ := Primitive.tidy fits.1 tidy bodies ran
    cases result with
    | ok value =>
      cases same
      exact ⟨clean, fits.2 _ value (fun _ => (Primitive.turn [] ran).kept tidy.sound) (good value rfl)⟩
    | error failure =>
      cases same
      exact ⟨clean, fits_failed failure⟩
  | enter parent view body =>
    cases applied
    obtain ⟨anchored, inner⟩ := fits
    -- The body that is entered owns a scope in use below an anchored one.
    have turn : Turn [] machine.arena _ (machine.arena.child parent view).2 := .enter parent view (.refl _)
    have keeps : ∀ scope, machine.arena.Kept scope → (machine.arena.child parent view).2.Kept scope := fun _ =>
      turn.kept tidy.sound
    refine ⟨tidy.enter parent view, .inside ?_ ?_ (anchored.imp_left (keeps parent)) (inner _ _ keeps)⟩
    · exact (Arena.live_add_iff _ tidy.sound).mpr (.inl rfl)
    · exact congrArg Frame.parent (Arena.frame_add_self _ tidy.sound)
  | leave scope outcome =>
    cases applied
    refine ⟨tidy.leave scope, Process.Fits.mono fits (fun _ => (Turn.leave scope (.refl [scope])).kept tidy.sound) ?_⟩
    exact List.forall_mem_nil _

end Apply

namespace Process

variable {arena : Arena} {around : List ScopeId} {process : Process}

theorem Fits.owned_live (fits : process.Fits arena around) : ∀ scope ∈ process.owned, arena.Live scope := by
  induction fits with
  | waiting _ _ ih => exact ih
  | inside live _ _ _ ih => exact List.forall_mem_cons.mpr ⟨live, ih⟩
  | together _ ih =>
    intro scope member
    obtain ⟨part, inside, has⟩ := mem_ownedAll.mp member
    exact ih part inside scope has
  | _ => exact List.forall_mem_nil _

theorem Fits.owned_grounded {machine : Machine} (tidy : machine.Tidy) (fits : process.Fits machine.arena around)
    (bodies : ∀ scope ∈ around, machine.arena.Grounded scope) :
    ∀ scope ∈ process.owned, machine.arena.Grounded scope := by
  induction fits with
  | waiting _ _ ih => exact ih bodies
  | inside live has anchored _ ih =>
    have here := (tidy.grounded_of_anchored bodies anchored).up live has
    exact List.forall_mem_cons.mpr ⟨here, ih (List.forall_mem_cons.mpr ⟨here, bodies⟩)⟩
  | together _ ih =>
    intro scope member
    obtain ⟨part, inside, has⟩ := mem_ownedAll.mp member
    exact ih part inside bodies scope has
  | _ => exact List.forall_mem_nil _

theorem Fits.held_live (fits : process.Fits arena around) (bodies : ∀ scope ∈ around, arena.Live scope) :
    ∀ value ∈ process.held, value.Within arena.Live := by
  -- What is used at once may name the scope of a body around; what may be stored names kept scopes only.
  have used : ∀ {around : List ScopeId} {value : Value}, (∀ scope ∈ around, arena.Live scope) →
      value.Within (arena.Anchored around) → value.Within arena.Live := fun bodies within =>
    within.imp fun scope anchored => anchored.elim And.left (bodies scope)
  have stored : ∀ {value : Value}, value.Within arena.Kept → value.Within arena.Live := fun within =>
    within.imp fun _ => And.left
  have flows : ∀ {flow : Flow}, flow.Within arena.Kept → ∀ value ∈ flow.held, value.Within arena.Live := by
    intro flow within
    cases flow with
    | value v => simpa [Flow.held] using stored (within v rfl)
    | _ => exact List.forall_mem_nil _
  have operands : ∀ {around : List ScopeId} {values : List Value}, (∀ scope ∈ around, arena.Live scope) →
      Operands arena.Kept (arena.Anchored around) values → ∀ value ∈ values, value.Within arena.Live := by
    intro around values bodies good
    cases values with
    | nil => exact List.forall_mem_nil _
    | cons target rest =>
      exact List.forall_mem_cons.mpr ⟨used bodies good.1, fun value member => stored (good.2 value member)⟩
  induction fits with
  | evaluating | visiting => exact List.forall_mem_nil _
  | @finished _ outcome within =>
    cases outcome with
    | error failure => exact List.forall_mem_nil _
    | ok flow => exact flows (within flow rfl)
  | @waiting _ pending part fits _ ih =>
    refine List.forall_mem_append.mpr ⟨?_, ih bodies⟩
    cases pending with
    | lines => exact List.forall_mem_nil _
    | iterate body last rest =>
      obtain ⟨calls, within, all⟩ := fits
      exact List.forall_mem_append.mpr ⟨List.forall_mem_cons.mpr ⟨used bodies calls, flows within⟩,
        fun value member => stored (all value member)⟩
    | withValue after =>
      cases after with
      | operand => simpa [Pending.held, After.held] using stored fits.2
      | compareRight | rangeLast => simpa [Pending.held, After.held] using stored fits
      | argument => exact operands bodies fits.2
      | _ => exact List.forall_mem_nil _
  | inside live _ _ _ ih => exact ih (List.forall_mem_cons.mpr ⟨live, bodies⟩)
  | together _ ih =>
    intro value member
    obtain ⟨part, inside, has⟩ := mem_heldAll.mp member
    exact ih part inside bodies value has
  | collecting _ good => exact operands bodies good
  | sending receives delivery =>
    refine List.forall_mem_cons.mpr ⟨used bodies receives, fun value member => ?_⟩
    exact delivery.elim (fun all => stored (all value member)) fun all => used bodies (all.2 value member)
  | naming _ delivery =>
    intro value member
    exact delivery.elim (fun all => stored (all value member)) fun all => used bodies (all.2 value member)
  | calling receives all =>
    exact List.forall_mem_cons.mpr ⟨used bodies receives, fun value member => stored (all value member)⟩
  | binding _ all | asking all => exact fun value member => stored (all value member)
  | matching _ within | folding _ within => simpa [held] using stored within
  | iterating calls within all =>
    exact List.forall_mem_append.mpr ⟨List.forall_mem_cons.mpr ⟨used bodies calls, flows within⟩,
      fun value member => stored (all value member)⟩

/-- Every step that hands no scope over keeps the machine tidy and leads to a process that fits. -/
theorem Step.fits {clock : Clock} {next : Process} {machine later : Machine}
    (step : Step clock (fun process machine => ¬ process.HandsOver machine) process machine next later)
    (tidy : machine.Tidy) (bodies : ∀ scope ∈ around, machine.arena.Grounded scope)
    (nodup : process.owned.Nodup) (fits : process.Fits machine.arena around) :
    later.Tidy ∧ next.Fits later.arena around := by
  have keeps : ∀ scope, machine.arena.Kept scope → later.arena.Kept scope := fun _ => step.turn.kept tidy.sound
  induction step generalizing around with
  | move admitted moves =>
    obtain ⟨move, made, applied⟩ := Option.bind_eq_some_iff.mp moves
    exact (fits_move tidy bodies fits admitted made).apply tidy bodies applied
  | waiting step ih =>
    cases fits with
    | waiting pending rest =>
      obtain ⟨clean, part⟩ := ih tidy bodies nodup rest keeps
      exact ⟨clean, .waiting (pending.mono keeps fun scope => Or.imp_left (keeps scope)) part⟩
  | @inside scope body next machine later step ih =>
    obtain ⟨other, rest⟩ := List.nodup_cons.mp nodup
    cases fits with
    | inside live has anchored body =>
      have here := (tidy.grounded_of_anchored bodies anchored).up live has
      obtain ⟨clean, part⟩ := ih tidy (List.forall_mem_cons.mpr ⟨here, bodies⟩) rest body keeps
      -- The body does not own this scope, so no step of the body gives it back.
      obtain ⟨still, same⟩ := step.turn.outside tidy.sound live other
      exact ⟨clean, .inside still (same.trans has) (anchored.imp_left (keeps _)) part⟩
  | @member literal before after member next machine later step ih =>
    cases fits with
    | together each =>
      simp only [owned, ownedAll_append, ownedAll, List.nodup_append] at nodup
      obtain ⟨-, ⟨own, -, apartAfter⟩, apartBefore⟩ := nodup
      obtain ⟨clean, part⟩ := ih tidy bodies own (each member (by simp)) keeps
      -- The other members own other scopes, so the step of this one leaves theirs alone.
      have others : ∀ other ∈ before ++ after, other.Fits later.arena around := by
        intro other inside
        have fits := each other (by simp at inside ⊢; tauto)
        refine fits.mono keeps fun scope has => ?_
        refine step.turn.outside tidy.sound (fits.owned_live scope has) fun shared => ?_
        rcases List.mem_append.mp inside with early | late
        · exact apartBefore scope (mem_ownedAll.mpr ⟨other, early, has⟩) scope
            (List.mem_append_left _ shared) rfl
        · exact apartAfter scope shared scope (mem_ownedAll.mpr ⟨other, late, has⟩) rfl
      refine ⟨clean, .together fun other inside => ?_⟩
      rcases List.mem_append.mp inside with early | here
      · exact others other (List.mem_append_left _ early)
      · rcases List.mem_cons.mp here with rfl | late
        · exact part
        · exact others other (List.mem_append_right _ late)

end Process

namespace Program

variable {program : Program} {document : Json}

theorem start_root (scope : ScopeId) (live : (program.start (.ofDocument document)).2.arena.Live scope) :
    ((program.start (.ofDocument document)).2.arena.frame scope).parent = none ∧
      ((program.start (.ofDocument document)).2.arena.frame scope).captured = false ∧
      ((program.start (.ofDocument document)).2.arena.frame scope).locals = [] ∧
      ∀ library ∈ ((program.start (.ofDocument document)).2.arena.frame scope).libraries,
        library ∈ program.libraries ∨ library = .standard := by
  let frame : Frame := { Frame.blank with view := some ⟨0, []⟩ }
  have one : scope = (Arena.empty.add frame).1 :=
    ((Arena.live_add_iff frame Arena.empty_sound).mp ((Arena.live_importAll _).mp live)).resolve_right fun none =>
      Nat.not_lt_zero _ none.1
  have root : (Arena.empty.add frame).2.frame scope = frame :=
    one ▸ Arena.frame_add_self frame Arena.empty_sound
  have part : ∀ {α : Type} (part : Frame → α),
      (∀ (frame : Frame) (libraries : List Library), part { frame with libraries } = part frame) →
      part ((program.start (.ofDocument document)).2.arena.frame scope) = part frame := fun part same =>
    (Arena.part_importAll part same _).trans (congrArg part root)
  refine ⟨part Frame.parent fun _ _ => rfl, part Frame.captured fun _ _ => rfl,
    part Frame.locals fun _ _ => rfl, fun library member => ?_⟩
  rcases Arena.mem_libraries_importAll member with before | imported
  · change library ∈ ((Arena.empty.add frame).2.frame scope).libraries at before
    rw [root] at before
    cases before
  · simpa using imported

theorem start_tidy (program : Program) (document : Json) : (program.start (.ofDocument document)).2.Tidy where
  sound := (Arena.empty_sound.add _).importAll _ _
  paths scope live flag := by
    rw [(start_root scope live).2.1] at flag
    cases flag
  locals scope live pair member := by
    rw [(start_root scope live).2.2.1] at member
    cases member
  memory := .ofDocument document

theorem start_kept (program : Program) (document : Json) :
    (program.start (.ofDocument document)).2.arena.Kept (program.start (.ofDocument document)).1 := by
  have live : (program.start (.ofDocument document)).2.arena.Live (program.start (.ofDocument document)).1 :=
    (Arena.live_importAll _).mpr ((Arena.live_add_iff _ Arena.empty_sound).mpr (.inl rfl))
  exact ⟨live, .inr (start_root _ live).1⟩

/-- The states of a run of a program in which no call by name was given a scope that nobody keeps. -/
def Reaches (program : Program) (document : Json) (process : Process) (machine : Machine) : Prop :=
  Process.Steps program.clock (fun process machine => ¬ process.HandsOver machine)
    (.evaluating program.root (program.start (.ofDocument document)).1, (program.start (.ofDocument document)).2)
    (process, machine)

theorem Reaches.fits {process : Process} {machine : Machine}
    (reaches : program.Reaches document process machine) :
    machine.Tidy ∧ process.Fits machine.arena [] ∧
      Balanced (program.start (.ofDocument document)).2.arena process.owned machine.arena := by
  have start : Balanced (program.start (.ofDocument document)).2.arena [] _ := .start (start_tidy program document).sound
  suffices ∀ last : Process × Machine, Process.Steps program.clock _ _ last →
      last.2.Tidy ∧ last.1.Fits last.2.arena [] ∧ Balanced _ last.1.owned last.2.arena from this _ reaches
  intro last steps
  induction steps with
  | refl => exact ⟨start_tidy program document, .evaluating (.inl (start_kept program document)), start⟩
  | tail before step ih =>
    obtain ⟨tidy, fits, balanced⟩ := ih
    obtain ⟨clean, next⟩ := step.fits tidy (by simp) balanced.nodup fits
    exact ⟨clean, next, balanced.turn step.turn⟩

theorem Reaches.chain_live {process : Process} {machine : Machine} {scope : ScopeId}
    (reaches : program.Reaches document process machine) (live : machine.arena.Live scope) :
    machine.arena.Path scope (machine.arena.chain scope) ∧
      ∀ above ∈ machine.arena.chain scope, machine.arena.Live above := by
  obtain ⟨tidy, fits, balanced⟩ := reaches.fits
  -- A live scope was there at the start, or a body of the process runs in it, or it has been captured.
  have grounded : machine.arena.Grounded scope := by
    by_cases old : (program.start (.ofDocument document)).2.arena.Live scope
    · have top := (balanced.kept scope old).2.parent.trans (start_root scope old).1
      exact tidy.grounded_of_kept ⟨live, .inr top⟩
    · by_cases own : scope ∈ process.owned
      · exact fits.owned_grounded tidy (List.forall_mem_nil _) scope own
      · exact tidy.grounded_of_kept ⟨live, .inl (balanced.captured scope live old own)⟩
  obtain ⟨path, walk, alive⟩ := grounded
  rw [walk.chain]
  exact ⟨walk, alive⟩

/-- No search up the scopes goes round. -/
theorem Reaches.ends {process : Process} {machine : Machine} (reaches : program.Reaches document process machine)
    (scope : ScopeId) : machine.arena.ends scope = true := by
  by_cases live : machine.arena.Live scope
  · exact (reaches.chain_live live).1.ends
  obtain ⟨tidy, -, balanced⟩ := reaches.fits
  have top : (machine.arena.frame scope).parent = none := by
    by_cases inside : scope.index < machine.arena.frames.size
    · exact tidy.sound.parentless scope (not_not.mp fun used => live ⟨inside, used⟩)
    · rw [Arena.frame_of_size_le (Nat.not_lt.mp inside)]
      rfl
  -- The root is there, so there is at least one scope to pass.
  have root := (balanced.kept _ (start_kept program document).1).1.1
  obtain ⟨rest, size⟩ := Nat.exists_eq_add_of_lt root
  rw [Arena.ends, size, Arena.endsWithin, top]

/-- In every state of a run that hands no scope over, all scopes that are named are live: by the values that the run
holds, by the variables of live scopes, and in arrays and objects. So no scope is released while a value names it.
The chain of a live scope is live and ends at a scope without a parent. -/
theorem handles_live {process : Process} {machine : Machine}
    (reaches : program.Reaches document process machine) :
    (∀ value ∈ process.held, value.Within machine.arena.Live) ∧
    (∀ scope, machine.arena.Live scope → ∀ pair ∈ (machine.arena.frame scope).locals,
      pair.2.Within machine.arena.Live) ∧
    machine.memory.All (·.Within machine.arena.Live) ∧
    ∀ scope, machine.arena.Live scope →
      machine.arena.Path scope (machine.arena.chain scope) ∧
        ∀ above ∈ machine.arena.chain scope, machine.arena.Live above := by
  obtain ⟨tidy, fits, -⟩ := reaches.fits
  have stored : ∀ {value : Value}, value.Within machine.arena.Kept → value.Within machine.arena.Live :=
    fun within => within.imp fun _ => And.left
  exact ⟨fits.held_live (List.forall_mem_nil _),
    fun scope live pair member => stored (tidy.locals scope live pair member),
    tidy.memory.imp fun _ => stored, fun _ live => reaches.chain_live live⟩

/-- A function keeps the scope that it was made in, and so does the variable that holds it. -/
theorem handles_live_function :
    let program : Program := ⟨.function "f" [] .scope, ⟨"2024-01-01", none⟩, []⟩
    let closure : Closure := ⟨[], .scope, ⟨0⟩⟩
    ∃ machine, program.Reaches .null (.answer (.closure closure)) machine ∧
      Fields.get? (machine.arena.frame ⟨0⟩).locals "f" = some (.closure closure) ∧
      machine.arena.Live closure.scope := by
  intro program closure
  let start := (program.start (.ofDocument .null)).2
  let captured : Machine := ⟨start.arena.capture ⟨0⟩, start.memory⟩
  let declared : Machine :=
    ⟨captured.arena.modifyFrame ⟨0⟩ (Frame.write "f" (.closure closure)), captured.memory⟩
  have quiet : ∀ (process : Process) (machine : Machine),
      (∀ scope name arguments, process ≠ .naming scope name arguments) → ¬ process.HandsOver machine :=
    fun process machine other ⟨scope, arguments, _, same, _⟩ => other scope _ arguments same
  have first : program.Reaches .null (.waiting (.withValue (.declare ⟨0⟩ "f")) (.answer (.closure closure)))
      captured :=
    .single (.move (quiet _ _ (by simp)) rfl)
  have second : Process.Step program.clock (fun process machine => ¬ process.HandsOver machine)
      (.waiting (.withValue (.declare ⟨0⟩ "f")) (.answer (.closure closure))) captured
      (.answer (.closure closure)) declared :=
    .move (quiet _ _ (by simp)) rfl
  have reaches : program.Reaches .null (.answer (.closure closure)) declared := .tail first second
  exact ⟨declared, reaches, rfl, (handles_live reaches).1 _ (.head _) ⟨0⟩ rfl⟩

/-- A program with a function named `iterate` that keeps what it is given. It loops over a scope inside of a call. -/
def keepingLoopBody : Program :=
  let read (name : String) : Instruction := .access .get [.scope, .text name]
  ⟨.block [
      .function "iterate" ["body"] (.assignment "kept" (read "body")),
      .declaration "kept" (.text ""),
      .declaration "world" .scope,
      .function "first" [] (.block [
        .declaration "x" (.text "first"),
        .loop "i" (read "world") (read "x")]),
      .access .call [.scope, .text "first"]],
    ⟨"2024-01-01", none⟩, []⟩

/-- Without the condition a handle dangles: the loop body that was kept names a scope that has been given back. -/
theorem handed_over_dangles :
    ∃ process machine,
      Process.Steps keepingLoopBody.clock anyMove
        (.evaluating keepingLoopBody.root ⟨0⟩, (keepingLoopBody.start (.ofDocument .null)).2) (process, machine) ∧
      machine.arena.Live ⟨0⟩ ∧
      ∃ value, Fields.get? (machine.arena.frame ⟨0⟩).locals "kept" = some value ∧
        ¬ value.Within machine.arena.Live := by
  have ran : ((evaluate keepingLoopBody.clock 20 keepingLoopBody.root ⟨0⟩).perform
      (keepingLoopBody.start (.ofDocument .null)).2).map
      (fun result => ((Fields.get? (result.2.arena.frame ⟨0⟩).locals "kept").bind Value.handle?,
        decide (result.2.arena.Live ⟨0⟩), decide (result.2.arena.Live ⟨1⟩))) = some (some ⟨1⟩, true, false) := by
    decide +kernel
  obtain ⟨⟨outcome, machine⟩, ends, state⟩ := Option.map_eq_some_iff.mp ran
  obtain ⟨kept, live, given⟩ : (Fields.get? (machine.arena.frame ⟨0⟩).locals "kept").bind Value.handle? = some ⟨1⟩ ∧
      decide (machine.arena.Live ⟨0⟩) = true ∧ decide (machine.arena.Live ⟨1⟩) = false := by
    simpa using state
  obtain ⟨value, bound, names⟩ := Option.bind_eq_some_iff.mp kept
  exact ⟨.finished outcome, machine, evaluate_steps ends, of_decide_eq_true live, value, bound, fun within =>
    of_decide_eq_false given (within ⟨1⟩ names)⟩

end Program

end RuleScript
