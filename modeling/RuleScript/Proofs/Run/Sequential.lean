import Mathlib.Data.List.Induction
import RuleScript.Proofs.Run.Agreement
import RuleScript.Proofs.Run.Start

/-! Literals refine running their members one after another.

The members of a literal are polled together. Beside this stands an evaluator without polls: it runs each member to
its end before the next one starts, and reads the outcome off how the members ended. With libraries that never suspend
the two are equal, whatever the members write and however they fail.
-/

set_option autoImplicit false

namespace RuleScript

/-- A library that answers every call of its functions at once. -/
def Library.Prompt (library : Library) : Prop :=
  ∀ function, library.has function = true → ∀ arguments, library.suspensions arguments = 0

def Machine.Prompt (machine : Machine) : Prop :=
  ∀ scope, ∀ library ∈ (machine.arena.frame scope).libraries, library.Prompt

namespace Evaluator

/-- Run members one after another in the order of the source, each to its end, also those after a member that failed
or broke. -/
def runInOrder (eval : Evaluator) (scope : ScopeId) :
    List Instruction → Machine → Option (List (Except Failure Flow) × Machine)
  | [], machine => some ([], machine)
  | member :: rest, machine =>
    match (eval member scope).perform machine with
    | none => none
    | some (outcome, later) =>
      (runInOrder eval scope rest later).map fun (outcomes, last) => (outcome :: outcomes, last)

def interrupts : Except Failure Flow → Bool
  | .error _ | .ok .stop => true
  | .ok _ => false

def crashes (outcome : Except Failure Flow) : Bool :=
  (crash? outcome).isSome

def memberValue : Except Failure Flow → Value
  | .ok flow => flow.toValue
  | .error _ => .empty

/-- The outcome that decides how a literal ends: the first of a member that failed or broke. A crash ends the program,
so that nothing else counts. -/
def deciding? (outcomes : List (Except Failure Flow)) : Option (Except Failure Flow) :=
  (outcomes.find? crashes).or (outcomes.find? interrupts)

/-- How a literal ends whose members have ended: as the outcome that decides, else with a new value that is made of
all values. -/
def conclude (make : List Value → Memory → Value × Memory) (outcomes : List (Except Failure Flow))
    (machine : Machine) : Except Failure Flow × Machine :=
  match deciding? outcomes with
  | some outcome => (outcome, machine)
  | none =>
    let (value, memory) := make (outcomes.map memberValue) machine.memory
    (.ok (.value value), ⟨machine.arena, memory⟩)

def makeArray (values : List Value) (memory : Memory) : Value × Memory :=
  memory.addArray values.toArray

/-- Each name where it stands first, with the value that stands last under it. -/
def lastValues (pairs : List (String × Value)) : Fields Value :=
  (pairs.map Prod.fst).eraseDups.map fun name =>
    (name, ((pairs.reverse.find? fun pair => pair.1 = name).map Prod.snd).getD .empty)

def makeObject (names : List String) (values : List Value) (memory : Memory) : Value × Memory :=
  memory.addObject (lastValues (names.zip values))

def inOrder (eval : Evaluator) (scope : ScopeId) (members : List Instruction)
    (make : List Value → Memory → Value × Memory) : Run Flow :=
  fun machine =>
    match runInOrder eval scope members machine with
    | none => .exhausted
    | some (outcomes, later) =>
      let (outcome, last) := conclude make outcomes later
      .done last outcome

def sequentialStep (clock : Clock) (eval : Evaluator) : Evaluator
  | .array items, scope => inOrder eval scope items makeArray
  | .object members, scope => inOrder eval scope (members.map Prod.snd) (makeObject (members.map Prod.fst))
  | instruction, scope => step clock eval instruction scope

end Evaluator

def sequential (clock : Clock) : Nat → Evaluator
  | 0, _, _ => Task.exhausted
  | depth + 1, instruction, scope => Evaluator.sequentialStep clock (sequential clock depth) instruction scope

theorem eraseDups_concat (names : List String) (name : String) :
    (names ++ [name]).eraseDups = names.eraseDups ++ if name ∈ names then [] else [name] := by
  rw [List.eraseDups_append]
  congr 1
  by_cases known : name ∈ names <;> simp [List.removeAll, List.eraseDups_cons, known]

theorem nodup_eraseDups (names : List String) : names.eraseDups.Nodup := by
  induction names using List.reverseRecOn with
  | nil => exact List.nodup_nil
  | append_singleton names name ih =>
    rw [eraseDups_concat]
    split
    case isTrue => rwa [List.append_nil]
    case isFalse new =>
      refine List.nodup_append.mpr ⟨ih, by simp, ?_⟩
      rintro other old _ (_ | ⟨_, ⟨⟩⟩) rfl
      exact new (List.mem_eraseDups.mp old)

theorem Fields.put_map {α : Type} {names : List String} (nodup : names.Nodup) (value : String → α) (name : String)
    (new : α) :
    put (names.map fun key => (key, value key)) name new =
      (names ++ if name ∈ names then [] else [name]).map fun key =>
        (key, if key = name then new else value key) := by
  induction names with
  | nil => simp [put]
  | cons first rest ih =>
    obtain ⟨fresh, nodup⟩ := List.nodup_cons.mp nodup
    rw [List.map_cons, put]
    by_cases same : first = name
    · subst same
      have others : ∀ key ∈ rest, key ≠ first := fun key member same => fresh (same ▸ member)
      simp +contextual [others]
    · simp [same, Ne.symm same, ih nodup]

namespace Evaluator

theorem ofList_eq_lastValues (pairs : List (String × Value)) : Fields.ofList pairs = lastValues pairs := by
  induction pairs using List.reverseRecOn with
  | nil => rfl
  | append_singleton pairs pair ih =>
    obtain ⟨name, value⟩ := pair
    have written : Fields.ofList (pairs ++ [(name, value)]) = Fields.put (lastValues pairs) name value := by
      rw [← ih, Fields.ofList, List.foldl_append]
      rfl
    have keys : (pairs ++ [(name, value)]).map Prod.fst = pairs.map Prod.fst ++ [name] := List.map_append
    rw [written, lastValues, Fields.put_map (nodup_eraseDups _), lastValues, keys, eraseDups_concat]
    simp only [List.mem_eraseDups]
    refine List.map_congr_left fun key _ => ?_
    by_cases same : key = name
    · simp [same]
    · simp [same, Ne.symm same]

theorem eq_of_crash? {outcome : Except Failure Flow} {cause : Crash} (crashed : crash? outcome = some cause) :
    outcome = .error (.crash cause) := by
  unfold crash? at crashed
  split at crashed
  · exact Option.some.inj crashed ▸ rfl
  · cases crashed

theorem gather_eq (outcomes : List (Except Failure Flow)) :
    gather outcomes =
      match outcomes.find? interrupts with
      | some (.error failure) => .error failure
      | some (.ok _) => .ok none
      | none => .ok (some (outcomes.map memberValue)) := by
  induction outcomes with
  | nil => rfl
  | cons first rest ih =>
    rcases first with failure | flow
    · rfl
    · cases flow with
      | stop => rfl
      | nothing | value =>
        rw [gather, ih, List.find?_cons_of_neg (by simp [interrupts])]
        · rcases rest.find? interrupts with _ | _ | _ <;> rfl
        · intro same
          cases same

theorem findSome?_crash? (outcomes : List (Except Failure Flow)) :
    outcomes.findSome? crash? = (outcomes.find? crashes).bind crash? := by
  induction outcomes with
  | nil => rfl
  | cons first rest ih =>
    cases crashed : crash? first <;> simp [crashes, crashed, ih]

theorem collect_eq (outcomes : List (Except Failure Flow)) :
    collect outcomes =
      match deciding? outcomes with
      | some (.error failure) => .error failure
      | some (.ok _) => .ok none
      | none => .ok (some (outcomes.map memberValue)) := by
  rw [collect, findSome?_crash?, deciding?]
  cases found : outcomes.find? crashes with
  | none => exact gather_eq outcomes
  | some outcome =>
    have crashed : crashes outcome = true := List.find?_some found
    obtain ⟨cause, crashed⟩ := Option.isSome_iff_exists.mp crashed
    obtain rfl := eq_of_crash? crashed
    rfl

theorem stop_of_interrupts {outcomes : List (Except Failure Flow)} {flow : Flow}
    (found : outcomes.find? interrupts = some (.ok flow)) : flow = .stop := by
  have interrupted := List.find?_some found
  cases flow with
  | stop => rfl
  | nothing | value => cases interrupted

theorem stop_of_deciding {outcomes : List (Except Failure Flow)} {flow : Flow}
    (decides : deciding? outcomes = some (.ok flow)) : flow = .stop := by
  obtain crashed | ⟨-, interrupted⟩ := Option.or_eq_some_iff.mp decides
  · have crashed : crashes (.ok flow) = true := List.find?_some crashed
    cases crashed
  · exact stop_of_interrupts interrupted

variable {clock : Clock} {good : Value → Prop} {known : Library → Prop} {limit : Prop} {eval other : Evaluator}
  {scope : ScopeId}

def OutcomeGood (good : Value → Prop) (outcome : Except Failure Flow) : Prop :=
  ∀ flow, outcome = .ok flow → flow.All good

/-- Members that settle end in the first round of polls, as they end one after another. -/
theorem all_settles (scope : ScopeId) {members : List Instruction}
    (each : ∀ member ∈ members, Agree good known limit eval other member) {machine : Machine}
    (holds : machine.Holds good known) :
    match runInOrder other scope members machine with
    | none => Task.all (members.map fun member => (eval member scope).run) machine = .exhausted ∧ limit
    | some (outcomes, later) =>
      Task.all (members.map fun member => (eval member scope).run) machine = .done later outcomes ∧
        later.Holds good known ∧ ∀ outcome ∈ outcomes, OutcomeGood good outcome := by
  induction members generalizing machine with
  | nil => exact ⟨rfl, holds, List.forall_mem_nil _⟩
  | cons member rest ih =>
    obtain ⟨same, ends⟩ := each member List.mem_cons_self scope machine holds
    have round : ∀ polled, eval member scope machine = polled →
        Task.all ((member :: rest).map fun member => (eval member scope).run) machine =
          (polled.both (Task.all (rest.map fun member => (eval member scope).run))).map
            fun pair => pair.1 :: pair.2 := fun _ first => first ▸ rfl
    rw [runInOrder, Run.perform, Task.run, ← same]
    cases polled : eval member scope machine with
    -- Members that settle do not wait.
    | waiting => exact (polled ▸ ends).elim
    | exhausted =>
      rw [polled] at ends
      exact ⟨round _ polled, ends⟩
    | done later outcome =>
      rw [polled] at ends
      have others := ih (fun member inside => each member (List.mem_cons_of_mem _ inside)) ends.1
      rw [round _ polled]
      simp only [Poll.both, Poll.finish, Option.map_some]
      cases ran : runInOrder other scope rest later with
      | none =>
        rw [ran] at others
        exact ⟨by rw [others.1]; rfl, others.2⟩
      | some pair =>
        rw [ran] at others
        obtain ⟨last, kept, goods⟩ := others
        exact ⟨by rw [last]; rfl, kept, List.forall_mem_cons.mpr ⟨ends.2, goods⟩⟩

theorem literal_settles (setting : Unsuspending clock good known) {members : List Instruction}
    (each : ∀ member ∈ members, Agree good known limit eval other member) {act : List Value → Action Value}
    {make : List Value → Memory → Value × Memory}
    (makes : ∀ values memory, act values memory = (.ok (make values memory).1, (make values memory).2))
    (ensures : ∀ values, (∀ value ∈ values, good value) → (act values).Ensures good good) :
    Run.Settles (Machine.Holds good known) limit (literal eval scope members act) (inOrder other scope members make)
      (Flow.All good) := by
  intro machine holds
  have ran := all_settles scope each holds
  rw [literal, Run.lift_bind_apply, inOrder]
  cases ordered : runInOrder other scope members machine with
  | none =>
    rw [ordered] at ran
    rw [ran.1]
    exact ⟨rfl, ran.2⟩
  | some pair =>
    obtain ⟨outcomes, later⟩ := pair
    rw [ordered] at ran
    obtain ⟨polled, kept, goods⟩ := ran
    rw [polled]
    simp only [Poll.bind, collect_eq, conclude]
    -- A member that decides leaves no value to be made, on either side.
    cases found : deciding? outcomes with
    | some outcome =>
      cases outcome with
      | error failure => exact ⟨rfl, kept, by rintro _ ⟨⟩⟩
      | ok flow =>
        obtain rfl := stop_of_deciding found
        exact ⟨rfl, kept, fun _ same => Except.ok.inj same ▸ fun _ none => by cases none⟩
    | none =>
      have values : ∀ value ∈ outcomes.map memberValue, good value := by
        intro value member
        obtain ⟨outcome, inside, rfl⟩ := List.mem_map.mp member
        cases outcome with
        | error failure => exact setting.plain _ rfl
        | ok flow => exact (goods _ inside flow rfl).toValue (setting.plain _ rfl)
      have made : _ ∧ Poll.Ends limit _ _ := answer_settles (ensures _ values) later kept
      refine ⟨?_, made.2⟩
      change (do return .value (← Run.action (act (outcomes.map memberValue))) : Run Flow) later = _
      rw [Run.bind_apply, Run.action_apply, makes]
      rfl

theorem sequentialStep_settles (setting : Unsuspending clock good known)
    (bodies : ∀ closure, good (.closure closure) → Agree good known limit eval other closure.body)
    {instruction : Instruction} (parts : ∀ part ∈ instruction.evaluated, Agree good known limit eval other part)
    (loop : ∀ iterator list body, instruction = .loop iterator list body → ∀ value, good value →
      Run.Settles (Machine.Holds good known) limit
        (send clock eval value .iterate [.closure ⟨[iterator], body, scope⟩])
        (send clock other value .iterate [.closure ⟨[iterator], body, scope⟩]) (Flow.All good))
    (function : ∀ name parameters body, instruction = .function name parameters body →
      good (.closure ⟨parameters, body, scope⟩)) :
    Run.Settles (Machine.Holds good known) limit (step clock eval instruction scope)
      (sequentialStep clock other instruction scope) (Flow.All good) := by
  unfold sequentialStep
  split
  case h_1 items =>
    exact literal_settles setting parts (fun _ _ => rfl) fun _ all =>
      Action.newArray_ensures setting.plain fun value member => all value (List.mem_toArray.mp member)
  case h_2 members =>
    refine literal_settles setting parts (fun values memory => ?_) fun _ all =>
      Action.newObject_ensures setting.plain (Fields.ofList_all fun pair member => all _ (List.of_mem_zip member).2)
    rw [makeObject, ← ofList_eq_lastValues]
    rfl
  case h_3 noArray noObject =>
    exact step_settles setting bodies parts noArray noObject loop function

end Evaluator

/-- Libraries that answer at once are all that is asked for: any value may be stored anywhere. -/
theorem Unsuspending.ofPrompt (clock : Clock) : Unsuspending clock (fun _ => True) Library.Prompt where
  plain _ _ := trivial
  scopes _ := trivial
  prompt _ known := known
  answers _ _ _ _ _ _ _ := ⟨⟨fun _ _ _ => trivial, fun _ _ _ => trivial⟩, fun _ _ => trivial⟩

theorem Machine.Prompt.holds {machine : Machine} (prompt : machine.Prompt) :
    machine.Holds (fun _ => True) Library.Prompt :=
  ⟨fun _ _ _ => trivial, prompt, fun _ _ _ => trivial, fun _ _ _ => trivial⟩

theorem evaluate_agrees (clock : Clock) (depth : Nat) (instruction : Instruction) :
    Evaluator.Agree (fun _ => True) Library.Prompt True (evaluate clock depth) (sequential clock depth)
      instruction := by
  have setting := Unsuspending.ofPrompt clock
  induction depth generalizing instruction with
  | zero => exact fun _ _ _ => ⟨rfl, trivial⟩
  | succ depth ih =>
    have bodies : ∀ closure : Closure, True → Evaluator.Agree _ _ _ _ _ closure.body :=
      fun closure _ => ih closure.body
    exact fun scope => Evaluator.sequentialStep_settles setting bodies (fun part _ => ih part)
      (fun _ _ _ _ value _ => Evaluator.send_settles setting bodies trivial _ fun _ _ => trivial)
      fun _ _ _ _ => trivial

end RuleScript
