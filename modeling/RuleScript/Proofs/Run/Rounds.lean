import RuleScript.Proofs.Run.Resuming
import RuleScript.Proofs.Run.Sequential

/-! The rounds of a loop over an array.

A loop takes the items out of its array before the first round. What the rounds do to the array or to anything else
changes neither how many there are nor what they are given. Every round has a scope of its own.
-/

set_option autoImplicit false

namespace RuleScript

/-- The scope of a round: below that of the loop, with the iterator as its only variable. -/
def Frame.ofRound (scope : ScopeId) (iterator : String) (item : Value) : Frame :=
  { Frame.blank with locals := [(iterator, item)], parent := some scope }

structure Round where
  item : Value
  start : Machine
  /-- The machines that the body was resumed on. -/
  resumed : List Machine
  outcome : Except Failure Flow
  later : Machine

namespace Round

def value? (round : Round) : Option Value :=
  match round.outcome with
  | .ok (.value v) => some v
  | _ => none

def failure? (round : Round) : Option Failure :=
  match round.outcome with
  | .error failure => some failure
  | _ => none

def carried (last : Flow) : Flow → Flow
  | .value v => .value v
  | _ => last

/-- What rounds answer: a failure, or the last value that any of them gave, and without one what was there before. -/
def answer (last : Flow) (rounds : List Round) : Except Failure Flow :=
  match rounds.findSome? failure? with
  | some failure => .error failure
  | none => .ok (((rounds.filterMap value?).getLast?.map .value).getD last)

def entered (round : Round) (scope : ScopeId) (iterator : String) : ScopeId × Arena :=
  round.start.arena.add (.ofRound scope iterator round.item)

/-- The body is run in a scope that was not in use, below that of the loop and with the iterator as its only variable,
and the scope is released when the body has ended. -/
structure Runs (eval : Evaluator) (scope : ScopeId) (iterator : String) (body : Instruction) (round : Round) :
    Prop where
  fresh : ¬ round.start.arena.Live (round.entered scope iterator).1
  body : ∃ inner : Machine,
    (eval body (round.entered scope iterator).1 ⟨(round.entered scope iterator).2, round.start.memory⟩).EndsIn
      round.resumed inner round.outcome ∧
    round.later = ⟨inner.arena.release (round.entered scope iterator).1, inner.memory⟩

inductive InTurn (eval : Evaluator) (scope : ScopeId) (iterator : String) (body : Instruction) :
    Machine → List Round → List Machine → Machine → Prop where
  | none (machine : Machine) : InTurn eval scope iterator body machine [] [] machine
  | cons {round : Round} {rounds : List Round} {resumed : List Machine} {later : Machine}
    (runs : round.Runs eval scope iterator body)
    (rest : InTurn eval scope iterator body round.later rounds resumed later) :
    InTurn eval scope iterator body round.start (round :: rounds) (round.resumed ++ resumed) later

/-- A round for each item in order, up to and including the first one that fails or breaks. -/
structure Covers (items : List Value) (rounds : List Round) : Prop where
  order : rounds.map item <+: items
  onward : ∀ round ∈ rounds.dropLast, Evaluator.interrupts round.outcome = false
  whole : rounds.map item = items ∨ ∃ round ∈ rounds.getLast?, Evaluator.interrupts round.outcome = true

section Lists

variable {value : Value} {items : List Value} {round : Round} {rounds : List Round} {last : Flow}

theorem covers_nil_iff : Covers [] rounds ↔ rounds = [] := by
  constructor
  · intro covers
    simpa using covers.order
  · rintro rfl
    exact ⟨List.prefix_rfl, by simp, .inl rfl⟩

theorem covers_cons_nil : ¬ Covers (value :: items) [] := by
  intro covers
  simpa using covers.whole

theorem covers_interrupted_iff (ends : Evaluator.interrupts round.outcome = true) :
    Covers (value :: items) (round :: rounds) ↔ round.item = value ∧ rounds = [] := by
  constructor
  · intro covers
    refine ⟨(List.cons_prefix_cons.mp covers.order).1, ?_⟩
    cases rounds with
    | nil => rfl
    | cons second rest =>
      have goes := covers.onward round (by simp)
      rw [ends] at goes
      cases goes
  · rintro ⟨rfl, rfl⟩
    exact ⟨by simp, by simp, .inr ⟨round, rfl, ends⟩⟩

theorem covers_onward_iff (goes : Evaluator.interrupts round.outcome = false) :
    Covers (value :: items) (round :: rounds) ↔ round.item = value ∧ Covers items rounds := by
  cases rounds with
  | nil =>
    constructor
    · intro covers
      rcases covers.whole with whole | ⟨other, same, ends⟩
      · obtain ⟨rfl, rfl⟩ := List.cons_eq_cons.mp whole
        exact ⟨rfl, covers_nil_iff.mpr rfl⟩
      · obtain rfl : round = other := by simpa using same
        rw [goes] at ends
        cases ends
    · rintro ⟨rfl, rest⟩
      -- One round that goes on is a whole loop over one item only.
      cases items with
      | nil => exact ⟨List.prefix_rfl, by simp, .inl rfl⟩
      | cons => exact absurd rest covers_cons_nil
  | cons second rest =>
    have order : (round :: second :: rest).map item <+: value :: items ↔
        round.item = value ∧ (second :: rest).map item <+: items := List.cons_prefix_cons
    have whole : (round :: second :: rest).map item = value :: items ↔
        round.item = value ∧ (second :: rest).map item = items := List.cons_eq_cons
    constructor
    · intro covers
      obtain ⟨same, others⟩ := order.mp covers.order
      refine ⟨same, others, fun other member => ?_, covers.whole.imp (fun all => (whole.mp all).2) id⟩
      exact covers.onward other (List.mem_cons_of_mem _ member)
    · rintro ⟨same, covers⟩
      refine ⟨order.mpr ⟨same, covers.order⟩, ?_, covers.whole.imp (fun all => whole.mpr ⟨same, all⟩) id⟩
      exact List.forall_mem_cons.mpr ⟨goes, covers.onward⟩

theorem answer_cons_error {failure : Failure} (failed : round.outcome = .error failure) :
    answer last (round :: rounds) = .error failure := by
  simp [answer, failure?, failed]

theorem answer_cons_onward {flow : Flow} (gave : round.outcome = .ok flow) (goes : flow ≠ .stop) :
    answer last (round :: rounds) = answer (carried last flow) rounds := by
  cases flow with
  | stop => exact absurd rfl goes
  | nothing => simp [answer, failure?, value?, gave, carried]
  | value v =>
    have first : round.value? = some v := by simp [value?, gave]
    have later : (List.getLast? (v :: rounds.filterMap value?)).map Flow.value =
        some (((rounds.filterMap value?).getLast?.map .value).getD (.value v)) := by
      rw [List.getLast?_cons]
      cases (rounds.filterMap value?).getLast? <;> rfl
    simp [answer, failure?, gave, List.filterMap_cons_some first, later, carried]

theorem answer_stop (broke : round.outcome = .ok .stop) : answer last [round] = .ok last := by
  simp [answer, failure?, value?, broke]

theorem answer_ne_stop (goes : last ≠ .stop) : answer last rounds ≠ .ok .stop := by
  unfold answer
  cases rounds.findSome? failure? with
  | some failure => simp
  | none =>
    cases (rounds.filterMap value?).getLast? with
    | none => simpa using goes
    | some value => simp

end Lists

end Round

namespace Arena

variable {arena : Arena} {first second : Frame}

theorem add_fst : (arena.add first).1 = (arena.add second).1 := by
  unfold add
  split <;> rfl

theorem modifyFrame_add (f : Frame → Frame) (sound : arena.Sound) :
    (arena.add first).2.modifyFrame (arena.add first).1 f = (arena.add (f first)).2 := by
  unfold add
  split
  case h_1 top rest free =>
    have inside := sound.bound top (by simp [free])
    simp only [modifyFrame, Arena.mk.injEq, and_true]
    apply Array.ext_getElem?
    intro index
    by_cases same : top.index = index
    · subst same
      simp [Array.getElem_modify, inside]
    · simp [Array.getElem?_modify, same]
  case h_2 =>
    simp only [modifyFrame, Arena.mk.injEq, and_true]
    apply Array.ext_getElem?
    intro index
    by_cases same : index = arena.frames.size
    · subst same
      simp [Array.getElem_modify]
    · simp [Array.getElem?_modify, Array.getElem?_push, same, Ne.symm same]

end Arena

section Loop

variable {clock : Clock} {eval : Evaluator} {scope : ScopeId} {iterator : String} {body : Instruction}
  {machine later : Machine} {resumed : List Machine} {outcome : Except Failure Flow} {item : Value}

theorem Evaluator.bindParameters_single {name : String}
    (declared : Machine.declare scope name item machine = .done later (.ok item)) :
    bindParameters scope [name] [item] machine = .done later (.ok ()) := by
  unfold bindParameters
  rw [Run.bind_apply, List.headD_cons, declared]
  rfl

theorem Evaluator.invoke_ofRound (sound : machine.arena.Sound) :
    invoke eval ⟨[iterator], body, scope⟩ [item] machine =
      Poll.bind (eval body (machine.arena.add (.ofRound scope iterator item)).1
        ⟨(machine.arena.add (.ofRound scope iterator item)).2, machine.memory⟩) fun result inner =>
          .done ⟨inner.arena.release (machine.arena.add (.ofRound scope iterator item)).1, inner.memory⟩ result := by
  let bare : Frame := { Frame.blank with parent := some scope }
  let child := (machine.arena.add bare).1
  let opened : Machine := ⟨(machine.arena.add bare).2, machine.memory⟩
  have unbound : Fields.contains (opened.arena.frame child).locals iterator = false := by
    rw [Arena.frame_add_self bare sound]
    rfl
  -- The scope is made bare, and the iterator declared in it: together that is a scope which has it from the start.
  have declared : Machine.declare child iterator item opened =
      .done ⟨(machine.arena.add (.ofRound scope iterator item)).2, machine.memory⟩ (.ok item) := by
    rw [Machine.declare_apply, if_neg (by simp [unbound]), Arena.modifyFrame_add _ sound]
    rfl
  have same : child = (machine.arena.add (.ofRound scope iterator item)).1 := Arena.add_fst
  unfold invoke
  rw [Machine.inChild_apply]
  change Poll.bind ((bindParameters child [iterator] [item] >>= fun _ => eval body child) opened) (fun result inner =>
    .done ⟨inner.arena.release child, inner.memory⟩ result) = _
  rw [Run.bind_apply, bindParameters_single declared, ← same]
  rfl

namespace Round

theorem runs_iff (sound : machine.arena.Sound) :
    (Evaluator.invoke eval ⟨[iterator], body, scope⟩ [item] machine).EndsIn resumed later outcome ↔
      Runs eval scope iterator body ⟨item, machine, resumed, outcome, later⟩ := by
  rw [Evaluator.invoke_ofRound sound]
  refine Poll.endsIn_bind.trans ?_
  constructor
  · rintro ⟨before, after, inner, result, rfl, ends, released⟩
    obtain ⟨rfl, rfl, rfl⟩ := Poll.endsIn_done.mp released
    rw [List.append_nil]
    exact ⟨Arena.not_live_add _ _, inner, ends, rfl⟩
  · rintro ⟨-, inner, ends, released⟩
    exact ⟨resumed, [], inner, outcome, (List.append_nil _).symm, ends, Poll.endsIn_done.mpr ⟨rfl, released, rfl⟩⟩

theorem Runs.sound {depth : Nat} {round : Round} (runs : round.Runs (evaluate clock depth) scope iterator body)
    (sound : round.start.arena.Sound) (others : ∀ changed ∈ round.resumed, changed.arena.Sound) :
    round.later.arena.Sound := by
  obtain ⟨inner, ends, released⟩ := runs.body
  rw [released]
  exact (evaluate_sound (sound.add _) others ends).release _

theorem inTurn_nil : InTurn eval scope iterator body machine [] resumed later ↔ resumed = [] ∧ later = machine := by
  constructor
  · intro turns
    cases turns
    exact ⟨rfl, rfl⟩
  · rintro ⟨rfl, rfl⟩
    exact .none _

theorem inTurn_cons {round : Round} {rounds : List Round} :
    InTurn eval scope iterator body machine (round :: rounds) resumed later ↔
      ∃ more, machine = round.start ∧ resumed = round.resumed ++ more ∧ round.Runs eval scope iterator body ∧
        InTurn eval scope iterator body round.later rounds more later := by
  constructor
  · intro turns
    cases turns with
    | cons runs rest => exact ⟨_, rfl, rfl, runs, rest⟩
  · rintro ⟨more, rfl, rfl, runs, rest⟩
    exact .cons runs rest

/-- How a loop may go on from a machine, with the value so far and the items that are left. -/
def Loops (eval : Evaluator) (scope : ScopeId) (iterator : String) (body : Instruction) (last : Flow)
    (items : List Value) (machine : Machine) (resumed : List Machine) (later : Machine) (outcome : Except Failure Flow) :
    Prop :=
  ∃ rounds, InTurn eval scope iterator body machine rounds resumed later ∧ Covers items rounds ∧
    outcome = answer last rounds

section Steps

variable {items : List Value} {last : Flow}

theorem loops_nil : Loops eval scope iterator body last [] machine resumed later outcome ↔
    resumed = [] ∧ later = machine ∧ outcome = .ok last := by
  constructor
  · rintro ⟨rounds, turns, covers, rfl⟩
    obtain rfl := covers_nil_iff.mp covers
    obtain ⟨rfl, rfl⟩ := inTurn_nil.mp turns
    exact ⟨rfl, rfl, rfl⟩
  · rintro ⟨rfl, rfl, rfl⟩
    exact ⟨[], .none _, covers_nil_iff.mpr rfl, rfl⟩

theorem loops_cons : Loops eval scope iterator body last (item :: items) machine resumed later outcome ↔
    (∃ ended, Runs eval scope iterator body ⟨item, machine, resumed, ended, later⟩ ∧
      Evaluator.interrupts ended = true ∧ outcome = answer last [⟨item, machine, resumed, ended, later⟩]) ∨
    ∃ before after middle flow, resumed = before ++ after ∧
      Runs eval scope iterator body ⟨item, machine, before, .ok flow, middle⟩ ∧ flow ≠ .stop ∧
      Loops eval scope iterator body (carried last flow) items middle after later outcome := by
  constructor
  · rintro ⟨rounds, turns, covers, rfl⟩
    cases rounds with
    | nil => exact absurd covers covers_cons_nil
    | cons round rounds =>
      obtain ⟨more, rfl, rfl, runs, rest⟩ := inTurn_cons.mp turns
      obtain ⟨given, start, before, ended, middle⟩ := round
      -- The first round is the last one or covers its own item only.
      cases ends : Evaluator.interrupts ended with
      | true =>
        obtain ⟨rfl, rfl⟩ := (covers_interrupted_iff ends).mp covers
        obtain ⟨rfl, rfl⟩ := inTurn_nil.mp rest
        rw [List.append_nil]
        exact .inl ⟨ended, runs, ends, rfl⟩
      | false =>
        obtain ⟨rfl, remaining⟩ := (covers_onward_iff ends).mp covers
        cases ended with
        | error failure => cases ends
        | ok flow =>
          have goes : flow ≠ .stop := by
            rintro rfl
            cases ends
          exact .inr ⟨before, more, middle, flow, rfl, runs, goes, rounds, rest, remaining, answer_cons_onward rfl goes⟩
  · rintro (⟨ended, runs, ends, rfl⟩ | ⟨before, after, middle, flow, rfl, runs, goes, rounds, turns, covers, rfl⟩)
    · have turns := InTurn.cons runs (.none later)
      rw [List.append_nil] at turns
      exact ⟨_, turns, (covers_interrupted_iff ends).mpr ⟨rfl, rfl⟩, rfl⟩
    · have onward : Evaluator.interrupts (.ok flow) = false := by
        cases flow with
        | stop => exact absurd rfl goes
        | nothing | value v => rfl
      refine ⟨_, .cons runs turns, (covers_onward_iff onward).mpr ⟨rfl, covers⟩, ?_⟩
      exact (answer_cons_onward rfl goes).symm

theorem iterate_cons (sound : machine.arena.Sound) :
    (Evaluator.iterate clock eval (.closure ⟨[iterator], body, scope⟩) last (item :: items) machine).EndsIn
      resumed later outcome ↔
    (∃ ended, Runs eval scope iterator body ⟨item, machine, resumed, ended, later⟩ ∧
      Evaluator.interrupts ended = true ∧ outcome = answer last [⟨item, machine, resumed, ended, later⟩]) ∨
    ∃ before after middle flow, resumed = before ++ after ∧
      Runs eval scope iterator body ⟨item, machine, before, .ok flow, middle⟩ ∧ flow ≠ .stop ∧
      (Evaluator.iterate clock eval (.closure ⟨[iterator], body, scope⟩) (carried last flow) items middle).EndsIn
        after later outcome := by
  refine Run.endsIn_bind.trans ?_
  constructor
  · rintro (⟨failure, ends, rfl⟩ | ⟨before, after, middle, flow, rfl, ends, rest⟩)
    · exact .inl ⟨_, (runs_iff sound).mp ends, rfl, (answer_cons_error rfl).symm⟩
    · have runs := (runs_iff sound).mp ends
      cases flow with
      | stop =>
        -- A break ends the loop where the body has ended.
        obtain ⟨rfl, rfl, rfl⟩ : after = [] ∧ later = middle ∧ outcome = .ok last := Poll.endsIn_done.mp rest
        rw [List.append_nil]
        exact .inl ⟨_, runs, rfl, (answer_stop rfl).symm⟩
      | nothing | value v => exact .inr ⟨before, after, middle, _, rfl, runs, by simp, rest⟩
  · rintro (⟨ended, runs, ends, rfl⟩ | ⟨before, after, middle, flow, rfl, runs, goes, rest⟩)
    · have ran := (runs_iff sound).mpr runs
      rcases ended with failure | flow
      · exact .inl ⟨failure, ran, answer_cons_error rfl⟩
      · cases flow with
        | stop =>
          refine .inr ⟨resumed, [], later, .stop, (List.append_nil _).symm, ran, ?_⟩
          exact Poll.endsIn_done.mpr ⟨rfl, rfl, answer_stop rfl⟩
        | nothing | value v => cases ends
    · refine .inr ⟨before, after, middle, flow, rfl, (runs_iff sound).mpr runs, ?_⟩
      cases flow with
      | stop => exact absurd rfl goes
      | nothing | value v => exact rest

/-- The rounds of the evaluator are those of the loop. By induction on the items: the scopes are sound before every
round, so that each one gets a new scope. -/
theorem iterate_iff {depth : Nat} (sound : machine.arena.Sound) (others : ∀ changed ∈ resumed, changed.arena.Sound) :
    (Evaluator.iterate clock (evaluate clock depth) (.closure ⟨[iterator], body, scope⟩) last items machine).EndsIn
      resumed later outcome ↔
    Loops (evaluate clock depth) scope iterator body last items machine resumed later outcome := by
  induction items generalizing last machine resumed with
  | nil => exact Poll.endsIn_done.trans loops_nil.symm
  | cons item items ih =>
    rw [iterate_cons sound, loops_cons]
    refine or_congr_right ?_
    constructor
    · rintro ⟨before, after, middle, flow, rfl, runs, goes, rest⟩
      obtain ⟨first, second⟩ := List.forall_mem_append.mp others
      exact ⟨before, after, middle, flow, rfl, runs, goes, (ih (runs.sound sound first) second).mp rest⟩
    · rintro ⟨before, after, middle, flow, rfl, runs, goes, rest⟩
      obtain ⟨first, second⟩ := List.forall_mem_append.mp others
      exact ⟨before, after, middle, flow, rfl, runs, goes, (ih (runs.sound sound first) second).mpr rest⟩

end Steps

end Round

end Loop

/-- A loop over an array runs its body once for each item that the array had when the loop began, in order, up to and
including the first run that fails or breaks. Each run is in a new scope below that of the loop, with the iterator bound
to the item. The loop answers the last value that a run gave, or a failure, and never breaks.

The runs may write the array, the document and the scopes, and so may others while the loop is suspended. All machines
that a program leads to have sound scopes, see `Machine.Reachable.sound`. -/
theorem loop_rounds {clock : Clock} {depth : Nat} {iterator : String} {list body : Instruction} {scope : ScopeId}
    {machine ready : Machine} {resumed : List Machine} {place : Nat} (sound : machine.arena.Sound)
    (others : ∀ changed ∈ resumed, changed.arena.Sound)
    (array : (evaluate clock depth list scope machine).EndsIn resumed ready (.ok (.value (.array place))))
    {more : List Machine} (later : Machine) (outcome : Except Failure Flow)
    (meanwhile : ∀ changed ∈ more, changed.arena.Sound) :
    ((evaluate clock (depth + 1) (.loop iterator list body) scope machine).EndsIn (resumed ++ more) later outcome ↔
      ∃ rounds, Round.InTurn (evaluate clock depth) scope iterator body ready rounds more later ∧
        Round.Covers (ready.memory.items place).toList rounds ∧ outcome = Round.answer .nothing rounds) ∧
    ((evaluate clock (depth + 1) (.loop iterator list body) scope machine).EndsIn (resumed ++ more) later outcome →
      outcome ≠ .ok .stop) := by
  have rounds : (evaluate clock (depth + 1) (.loop iterator list body) scope machine).EndsIn (resumed ++ more) later
      outcome ↔ ∃ rounds, Round.InTurn (evaluate clock depth) scope iterator body ready rounds more later ∧
        Round.Covers (ready.memory.items place).toList rounds ∧ outcome = Round.answer .nothing rounds :=
    (Run.endsIn_bind_of_ok array).trans (Round.iterate_iff (evaluate_sound sound others array) meanwhile)
  refine ⟨rounds, fun ends => ?_⟩
  obtain ⟨_, _, _, rfl⟩ := rounds.mp ends
  exact Round.answer_ne_stop (by simp)

/-- Each round appends its item to the array that the loop goes over. There is a round for each of the two items that
the array had, and four items are in it at the end. -/
theorem loop_rounds_growing :
    let list : Instruction := .access .get [.scope, .text "list"]
    let body : Instruction :=
      .access .set [list, .access .call [list, .text "length"], .access .get [.scope, .text "x"]]
    let root : Frame := { Frame.blank with locals := [("list", .array 0)] }
    let machine : Machine := ⟨⟨#[root], []⟩, ⟨#[#[.bool true, .bool false]], #[], #[]⟩⟩
    let clock : Clock := ⟨"2024-01-01", none⟩
    ∃ rounds more later, Round.InTurn (evaluate clock 9) ⟨0⟩ "x" body machine rounds more later ∧
      Round.Covers [.bool true, .bool false] rounds ∧ (later.memory.items 0).size = 4 := by
  intro list body root machine clock
  have sound : machine.arena.Sound := ⟨.nil, List.forall_mem_nil _, List.forall_mem_nil _⟩
  have array : (evaluate clock 9 list ⟨0⟩ machine).EndsIn [] machine (.ok (.value (.array 0))) := .done _ _
  have ran : ((evaluate clock 10 (.loop "x" list body) ⟨0⟩).perform machine).map
      (fun ended => (ended.2.memory.items 0).size) = some 4 := by decide +kernel
  obtain ⟨⟨outcome, later⟩, ends, size⟩ := Option.map_eq_some_iff.mp ran
  obtain ⟨more, alongside, others⟩ := evaluate_endsIn sound ends
  obtain ⟨rounds, turns, covers, -⟩ :=
    (loop_rounds sound (List.forall_mem_nil _) array later outcome others).1.mp alongside
  exact ⟨rounds, more, later, turns, covers, size⟩

end RuleScript
