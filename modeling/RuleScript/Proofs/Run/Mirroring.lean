import RuleScript.Proofs.Run.Alongside

/-! Processes that keep to runs, built up from steps.

What a run does in a sequence a process does in its moves. Each way of putting a run together has a lemma here: a process
keeps to the whole if its parts keep to the parts.
-/

set_option autoImplicit false

namespace RuleScript

open Process

theorem Poll.done_of_bind {σ α β : Type} {poll : Poll σ α} {next : α → Task σ β} {state : σ} {result : β}
    (ended : poll.bind next = .done state result) :
    ∃ middle first, poll = .done middle first ∧ next first middle = .done state result := by
  cases poll with
  | done middle first => exact ⟨middle, first, rfl, ended⟩
  | waiting | exhausted => cases ended

theorem Run.done_of_bind {α β : Type} {run : Run α} {next : α → Run β} {machine final : Machine}
    {outcome : Except Failure β} (ended : (run >>= next) machine = .done final outcome) :
    ∃ later result, run machine = .done later result ∧
      match result with
      | .ok value => next value later = .done final outcome
      | .error failure => final = later ∧ outcome = .error failure := by
  rw [Run.bind_apply] at ended
  obtain ⟨later, result, ran, rest⟩ := Poll.done_of_bind ended
  refine ⟨later, result, ran, ?_⟩
  cases result with
  | ok value => exact rest
  | error failure =>
    cases rest
    exact ⟨rfl, rfl⟩

variable {around : Surroundings} {paired wider : Pairing} {history : History} {machine later other final : Machine}
  {process next part : Process} {run : Run Flow} {outcome like : Except Failure Flow}

theorem Process.Attains.widen {steps : Nat}
    (attains : process.Attains around.clock around.together (Mirrored around wider final outcome) steps history machine)
    (widens : ∀ left right, paired left right → wider left right) :
    process.Attains around.clock around.together (Mirrored around paired final outcome) steps history machine := by
  apply attains.mono
  rintro history machine reached ⟨widest, more, abreast, results⟩
  exact ⟨widest, fun left right pair => more left right (widens left right pair), abreast, results⟩

namespace Process.Mirrors

theorem finished {reached : Except Failure Flow} (ran : run other = .done other like)
    (results : Results (Flow.Alike around.fits paired) reached like) :
    (Process.finished reached).Mirrors around paired other run := by
  intro history machine abreast final outcome ended steps
  rw [ran] at ended
  cases ended
  apply Attains.finished
  exact fun resumed passes => ⟨paired, fun _ _ => id, abreast.meanwhile passes, results⟩

theorem pure {flow twin : Flow} (alike : flow.Alike around.fits paired twin) :
    (Process.finished (.ok flow)).Mirrors around paired other (Pure.pure twin) :=
  .finished rfl (.ok alike)

theorem throw (failure : Failure) :
    (Process.finished (.error failure)).Mirrors around paired other (MonadExcept.throw failure) :=
  .finished rfl (.error failure)

theorem answer {value twin : Value} (alike : value.Alike around.fits paired twin) :
    (Process.answer value).Mirrors around paired other (Pure.pure (.value twin)) :=
  .pure (.value alike)

theorem ofMove (unended : process.outcome? = none)
    (moves : ∀ history machine, Abreast around paired history machine other →
      ∃ move, process.move around.clock machine = some move ∧ move.Mirrors around paired history machine other run) :
    process.Mirrors around paired other run := by
  intro history machine abreast final outcome ran steps
  cases steps with
  | zero => trivial
  | succ steps =>
    intro resumed passes
    obtain ⟨move, moved, mirrors⟩ := moves history resumed (abreast.meanwhile passes)
    refine ⟨fun outcome same => ?_, fun next later step => ?_⟩
    · rw [same] at unended
      cases unended
    · obtain ⟨captured, allowed, rest⟩ := mirrors final outcome ran next later (step.of_move moved)
      exact ⟨captured, allowed, rest steps⟩

theorem waiting {pending : Pending} {rest : Flow → Run Flow} (first : part.Mirrors around paired other run)
    (onward : ∀ wider : Pairing, (∀ left right, paired left right → wider left right) → ∀ final flow twin,
      flow.Alike around.fits wider twin → ∀ history machine, Abreast around wider history machine final →
        (pending.resume flow machine).Mirrors around wider history machine final (rest twin)) :
    (Process.waiting pending part).Mirrors around paired other (run >>= rest) := by
  intro history machine abreast final outcome ran steps
  obtain ⟨middle, result, early, late⟩ := Run.done_of_bind ran
  refine (first history machine abreast middle result early steps).waiting ?_
  rintro history machine reached ⟨wider, widens, abreast, results⟩ steps
  cases results with
  | error failure =>
    obtain ⟨rfl, rfl⟩ := late
    -- A failure of the part is one of the whole, by one move.
    have failed : (Process.waiting pending (.finished (.error failure))).Mirrors around wider final
        (MonadExcept.throw failure) := by
      refine .ofMove rfl fun history machine abreast => ⟨_, rfl, ?_⟩
      rintro final outcome ⟨⟩ next later ⟨⟩
      exact ⟨False, Allowed.refl _ _, Process.Mirrors.throw failure _ _ abreast.still _ _ rfl⟩
    exact (failed history machine abreast final _ rfl steps).widen widens
  | @ok flow twin same =>
    have resumed : (Process.waiting pending (.finished (.ok flow))).Mirrors around wider middle (rest twin) :=
      .ofMove rfl fun history machine abreast =>
        ⟨_, rfl, onward wider widens middle flow twin same history machine abreast⟩
    exact (resumed history machine abreast final outcome late steps).widen widens

end Process.Mirrors

namespace Run.Beside

theorem still {run twin : Run Value} {result like : Except Failure Value}
    (abreast : Abreast around paired history machine other) (ran : run machine = .done machine result)
    (twinRan : twin other = .done other like) (results : Results (Value.Alike around.fits paired) result like) :
    run.Beside around paired history machine other twin :=
  ⟨paired, machine, other, result, like, ran, twinRan, fun _ _ => id, Allowed.refl _ _, abreast.still, results⟩

theorem action {act twin : Action Value} (abreast : Abreast around paired history machine other)
    (alike : act.AnswersAlike around.fits (around.together = none) paired twin) :
    (Run.action act).Beside around paired history machine other (Run.action twin) := by
  obtain ⟨wider, onward, memories, results⟩ := alike _ _ abreast.alike.memory
  obtain ⟨allowed, later⟩ := abreast.onward onward memories
  exact ⟨wider, _, _, _, _, Run.action_apply act machine, Run.action_apply twin other, onward.widens, allowed, later,
    results⟩

theorem lookUp (abreast : Abreast around paired history machine other) (scope : ScopeId) (name : String) :
    (Machine.lookUp scope name).Beside around paired history machine other (Machine.lookUp scope name) := by
  have bound := abreast.alike.arena.binding? abreast.alike.memory scope name
  have left := Machine.lookUp_apply scope name machine
  have right := Machine.lookUp_apply scope name other
  generalize machine.arena.binding? machine.memory scope name = binding at bound left
  generalize other.arena.binding? other.memory scope name = twin at bound right
  rw [← abreast.alike.arena.ends scope] at right
  cases bound with
  | none =>
    dsimp only at left right
    split at left
    · rename_i up
      rw [if_pos up] at right
      exact still abreast left right (.ok .empty)
    · rename_i round
      rw [if_neg round] at right
      exact still abreast left right (.error _)
  | some same =>
    cases same with
    | inScope owner _ => exact still abreast left right (.ok ((abreast.alike.arena.frames owner).locals.getD name))
    | member same =>
      cases same with
      | mk path pair =>
        obtain ⟨wider, onward, memories, value⟩ := View.get_alike path name pair abreast.alike.memory
        obtain ⟨allowed, later⟩ := abreast.onward onward memories
        exact ⟨wider, _, _, _, _, left, right, onward.widens, allowed, later, .ok value⟩

section Alone

variable (alone : around.together = none)

include alone

theorem written (abreast : Abreast around paired history machine other) (scope : ScopeId) {name : String}
    (known : around.declared name) {value like : Value} (same : value.Alike around.fits paired like) :
    Abreast around paired (history.after False machine.memory machine.memory)
      ⟨machine.arena.modifyFrame scope (Frame.write name value), machine.memory⟩
      ⟨other.arena.modifyFrame scope (Frame.write name like), other.memory⟩ where
  alike := ⟨abreast.alike.arena.write scope known same, abreast.alike.memory⟩
  made among := absurd alone among
  quiet shared among := by
    rw [alone] at among
    cases among

theorem declare (abreast : Abreast around paired history machine other) (scope : ScopeId) {name : String}
    (known : around.declared name) {value like : Value} (same : value.Alike around.fits paired like) :
    (Machine.declare scope name value).Beside around paired history machine other
      (Machine.declare scope name like) := by
  have left := Machine.declare_apply scope name value machine
  have right := Machine.declare_apply scope name like other
  rw [(abreast.alike.arena.frames scope).locals.contains] at left
  split at left
  · rename_i taken
    rw [if_pos taken] at right
    exact still abreast left right (.error _)
  · rename_i free
    rw [if_neg free] at right
    refine ⟨paired, _, _, _, _, left, right, fun _ _ => id, ?_, written alone abreast scope known same, .ok same⟩
    intro shared among
    rw [alone] at among
    cases among

theorem assign (abreast : Abreast around paired history machine other) (scope : ScopeId) (name : String)
    {value like : Value} (same : value.Alike around.fits paired like) :
    (Machine.assign scope name value).Beside around paired history machine other (Machine.assign scope name like) := by
  have bound := abreast.alike.arena.binding? abreast.alike.memory scope name
  have left := Machine.assign_apply scope name value machine
  have right := Machine.assign_apply scope name like other
  generalize machine.arena.binding? machine.memory scope name = binding at bound left
  generalize other.arena.binding? other.memory scope name = twin at bound right
  rw [← abreast.alike.arena.ends scope] at right
  cases bound with
  | none => exact still abreast left right (.error _)
  | some bindings =>
    cases bindings with
    | inScope owner known =>
      -- A variable is overwritten on both sides, and nothing new is paired.
      refine ⟨paired, _, _, _, _, left, right, fun _ _ => id, ?_, written alone abreast owner known same, .ok same⟩
      intro shared among
      rw [alone] at among
      cases among
    | member views =>
      cases views with
      | mk path pair =>
        obtain ⟨wider, onward, memories, value⟩ := View.set_alike path alone name same pair abreast.alike.memory
        obtain ⟨allowed, later⟩ := abreast.onward onward memories
        exact ⟨wider, _, _, _, _, left, right, onward.widens, allowed, later, .ok value⟩

end Alone

end Run.Beside

namespace Move.Mirrors

theorem congr {move : Move} {twin : Run Flow} (mirrors : move.Mirrors around paired history machine other twin)
    (same : run other = twin other) : move.Mirrors around paired history machine other run :=
  fun final outcome ran => mirrors final outcome (same ▸ ran)

theorem inspect {α : Type} {move : Move} {read : Memory → α} {next : α → Run Flow}
    (rest : move.Mirrors around paired history machine other (next (read other.memory))) :
    move.Mirrors around paired history machine other (Run.inspect read >>= next) :=
  rest.congr rfl

theorem become (abreast : Abreast around paired history machine other)
    (rest : next.Mirrors around paired other run) :
    (Move.become next).Mirrors around paired history machine other run := by
  rintro final outcome ran next later ⟨⟩
  exact ⟨False, Allowed.refl _ _, rest _ _ abreast.still final outcome ran⟩

/-- A step of one member that captures the scope that all share, as the run does. -/
theorem capture {scope : ScopeId} (shares : around.Shares scope)
    (abreast : Abreast around paired history machine other)
    (rest : next.Mirrors around paired ⟨other.arena.capture scope, other.memory⟩ run) :
    (Move.capture scope next).Mirrors around paired history machine other
      (do Run.scopes (fun arena => ((), arena.capture scope)); run) := by
  rintro final outcome ran next later ⟨⟩
  have both : ∀ arena : Arena, Arena.Captures True scope arena (arena.capture scope) :=
    fun arena => ⟨fun _ => rfl, fun no => absurd trivial no⟩
  have allowed : ∀ machine : Machine,
      Allowed around.together True machine ⟨machine.arena.capture scope, machine.memory⟩ := by
    intro machine shared among
    rw [shares shared among]
    exact ⟨.refl _, both _⟩
  have onward : Abreast around paired (history.after True machine.memory machine.memory)
      ⟨machine.arena.capture scope, machine.memory⟩ ⟨other.arena.capture scope, other.memory⟩ := by
    refine ⟨⟨abreast.alike.arena.capture scope, abreast.alike.memory⟩, fun among left right pair => ?_,
      fun shared among => (abreast.quiet shared among).trans (allowed other shared among)⟩
    exact (abreast.made among left right pair).imp_right fun both => ⟨.inl both.1, both.2⟩
  exact ⟨True, allowed machine, rest _ _ onward final outcome ran⟩

theorem perform {primitive : Primitive} {twin : Run Value} {next : Value → Process} {rest : Value → Run Flow}
    (beside : primitive.run.Beside around paired history machine other twin)
    (onward : ∀ wider : Pairing, (∀ left right, paired left right → wider left right) → ∀ value like,
      value.Alike around.fits wider like → ∀ final, (next value).Mirrors around wider final (rest like)) :
    (Move.perform primitive next).Mirrors around paired history machine other (twin >>= rest) := by
  obtain ⟨wider, reached, middle, result, like, ran, twinRan, widens, allowed, abreast, results⟩ := beside
  intro final outcome ended next later applied
  rw [Move.apply, Run.perform_done ran] at applied
  rw [Run.bind_apply, twinRan] at ended
  cases results with
  | error failure =>
    cases applied
    cases ended
    refine ⟨False, allowed, fun steps => ?_⟩
    exact (Process.Mirrors.throw failure _ _ abreast _ _ rfl steps).widen widens
  | ok same =>
    cases applied
    refine ⟨False, allowed, fun steps => ?_⟩
    exact (onward wider widens _ _ same middle _ _ abreast final outcome ended steps).widen widens

theorem act {act twin : Action Value} (abreast : Abreast around paired history machine other)
    (alike : act.AnswersAlike around.fits (around.together = none) paired twin) :
    (Move.act act).Mirrors around paired history machine other (do return .value (← Run.action twin)) :=
  .perform (.action abreast alike) fun _ _ _ _ same _ => .answer same

theorem enter {parent : ScopeId} {view twin : Option View} {body : ScopeId → Process} {rest : ScopeId → Run Flow}
    (alone : around.together = none) (abreast : Abreast around paired history machine other)
    (views : Option.Rel (View.Alike paired) view twin)
    (inner : ∀ child later, (body child).Mirrors around paired later (rest child)) :
    (Move.enter parent view body).Mirrors around paired history machine other (Machine.inChild parent twin rest) := by
  have allowed : ∀ captured machine later, Allowed around.together captured machine later := by
    intro captured machine later scope among
    rw [alone] at among
    cases among
  intro final outcome ran next later applied
  rw [Machine.inChild_apply] at ran
  obtain ⟨name, arenas⟩ := abreast.alike.arena.child parent views
  rw [Move.apply] at applied
  generalize machine.arena.child parent view = made at applied name arenas
  generalize other.arena.child parent twin = twinMade at ran name arenas
  obtain ⟨child, arena⟩ := made
  obtain ⟨twinChild, twinArena⟩ := twinMade
  dsimp only at name arenas
  subst name
  cases applied
  -- The run goes through the body and gives the scope back; so does the process, in a step of its own.
  obtain ⟨middle, result, ran, left⟩ := Poll.done_of_bind ran
  cases left
  have entered : Abreast around paired (history.after False machine.memory machine.memory) ⟨arena, machine.memory⟩
      ⟨twinArena, other.memory⟩ :=
    ⟨⟨arenas, abreast.alike.memory⟩, fun among => absurd alone among, allowed _ _ _⟩
  refine ⟨False, allowed _ _ _, fun steps => ?_⟩
  refine (inner child _ _ _ entered middle outcome ran steps).inside ?_
  rintro history machine reached ⟨wider, widens, abreast, results⟩ steps
  cases steps with
  | zero => trivial
  | succ steps =>
    intro resumed passes
    refine ⟨by rintro _ ⟨⟩, fun next later step => ?_⟩
    cases step.of_move rfl
    have resumedAbreast := abreast.meanwhile passes
    have left : Abreast around wider (history.after False resumed.memory resumed.memory)
        ⟨resumed.arena.release child, resumed.memory⟩ ⟨middle.arena.release child, middle.memory⟩ :=
      ⟨⟨resumedAbreast.alike.arena.release alone child, resumedAbreast.alike.memory⟩,
        fun among => absurd alone among, allowed _ _ _⟩
    exact ⟨False, allowed _ _ _, Attains.finished fun again passes => ⟨wider, widens, left.meanwhile passes, results⟩⟩

end Move.Mirrors

namespace Process.Mirrors

/-- What keeps to one run keeps to another that ends only where the first does, and with the same outcome. -/
theorem ofDone {twin : Run Flow} (mirrors : process.Mirrors around paired other twin)
    (ends : ∀ final outcome, run other = .done final outcome → twin other = .done final outcome) :
    process.Mirrors around paired other run :=
  fun history machine abreast final outcome ran =>
    mirrors history machine abreast final outcome (ends final outcome ran)

theorem become (unended : process.outcome? = none)
    (moves : ∀ machine, process.move around.clock machine = some (.become next))
    (rest : next.Mirrors around paired other run) : process.Mirrors around paired other run :=
  .ofMove unended fun _ machine abreast => ⟨_, moves machine, .become abreast rest⟩

theorem atOnce {pending : Pending} {reached : Except Failure Flow} (unended : part.outcome? = none)
    (moves : ∀ machine, part.move around.clock machine = some (.become (.finished reached)))
    (rest : (Process.waiting pending (.finished reached)).Mirrors around paired other run) :
    (Process.waiting pending part).Mirrors around paired other run := by
  intro history machine abreast final outcome ran steps
  -- The part takes one step, during which nothing is made, captured or written.
  have first : part.Attains around.clock around.together
      (fun history machine outcome => outcome = reached ∧ Abreast around paired history machine other) steps history
      machine := by
    cases steps with
    | zero => trivial
    | succ steps =>
      intro resumed passes
      refine ⟨fun outcome same => ?_, fun next later step => ?_⟩
      · rw [same] at unended
        cases unended
      · cases step.of_move (moves resumed)
        exact ⟨False, Allowed.refl _ _,
          .finished fun last again => ⟨rfl, (abreast.meanwhile passes).still.meanwhile again⟩⟩
  refine first.waiting ?_
  rintro history machine _ ⟨rfl, abreast⟩ steps
  exact rest history machine abreast final outcome ran steps

theorem withValue {after : After} {rest : Value → Run Flow} (first : part.Mirrors around paired other run)
    (onward : ∀ wider : Pairing, (∀ left right, paired left right → wider left right) → ∀ final value twin,
      value.Alike around.fits wider twin → ∀ history machine, Abreast around wider history machine final →
        (after.resume value machine).Mirrors around wider history machine final (rest twin)) :
    (Process.waiting (.withValue after) part).Mirrors around paired other
      (run >>= fun flow => flow.withValue rest) := by
  refine first.waiting fun wider widens final flow twin alike history machine abreast => ?_
  cases alike with
  | stop => exact .become abreast (.pure .stop)
  | nothing => exact onward wider widens final .empty .empty .empty history machine abreast
  | value same => exact onward wider widens final _ _ same history machine abreast

end Process.Mirrors

end RuleScript
