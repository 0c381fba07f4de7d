import RuleScript.Proofs.Run.Code
import RuleScript.Proofs.Run.WriteFree

/-! Programs without a break.

In a run of such a program no part of any process ends with a break, so only failures keep blocks, loops, literals and
calls from going on to their ends.
-/

set_option autoImplicit false

namespace RuleScript

open Process

def Instruction.BreakFree (root : Instruction) : Prop :=
  ¬ root.Contains .stop

theorem Instruction.breakFree_iff {instruction : Instruction} :
    instruction.BreakFree ↔ instruction ≠ .stop ∧ ∀ part ∈ instruction.parts, part.BreakFree := by
  constructor
  · exact fun free => ⟨fun same => free (same ▸ .self), fun part member inside => free (.part member inside)⟩
  · rintro ⟨own, parts⟩ inside
    obtain same | ⟨part, member, inner⟩ := inside.cases_parts
    · exact own same.symm
    · exact parts part member inner

def Code.breakFree : Code where
  has := Instruction.BreakFree
  parts _ free _ member inside := free (.part (Instruction.mem_parts_of_evaluated member) inside)

theorem Code.stop_notMem_breakFree : .stop ∉ breakFree :=
  fun free => free .self

/-- How a process goes on when its parts end with flows: with all that it has left to do. -/
structure Process.GoesOn (clock : Clock) (machine : Machine) (process : Process) : Prop where
  /-- After a line of a block comes the next one. -/
  lines : ∀ scope line rest flow, process = waiting (.lines scope (line :: rest)) (finished (.ok flow)) →
    process.move clock machine = some (.become (waiting (.lines scope rest) (evaluating line scope)))
  /-- After an item of a loop come the others. -/
  items : ∀ body last rest flow, process = waiting (.iterate body last rest) (finished (.ok flow)) →
    ∃ soFar, process.move clock machine = some (.become (iterating body soFar rest))
  /-- A literal is made of all its members. -/
  members : ∀ literal (flows : List Flow), process = together literal (flows.map fun flow => finished (.ok flow)) →
    process.move clock machine = some (.act (literal.make (flows.map Flow.toValue)))
  /-- What waits for a value gets one. -/
  value : ∀ after flow, process = waiting (.withValue after) (finished (.ok flow)) →
    process.move clock machine = some (after.resume flow.toValue machine)

variable {code : Code} {clock : Clock} {machine later : Machine} {process part : Process}

theorem Process.Runs.involves (runs : process.Runs code) (involves : process.Involves part) : part.Runs code := by
  induction involves with
  | self => exact runs
  | waiting _ ih =>
    cases runs with
    | waiting _ inner => exact ih inner
  | inside _ ih =>
    cases runs with
    | inside inner => exact ih inner
  | together among _ ih =>
    cases runs with
    | together each => exact ih (each _ among)

/-- A break comes from code that has one. -/
theorem Process.Runs.stop_mem (runs : (Process.finished (.ok .stop)).Runs code) : .stop ∈ code := by
  cases runs with
  | finished origin => exact origin .stop rfl

theorem Process.Runs.ne_stop (runs : process.Runs .breakFree) : process ≠ .finished (.ok .stop) := by
  rintro rfl
  exact Code.stop_notMem_breakFree runs.stop_mem

theorem Evaluator.collect_of_flows {flows : List Flow} (unbroken : .stop ∉ flows) :
    collect (flows.map .ok) = .ok (some (flows.map Flow.toValue)) := by
  have whole : (flows.map .ok).findSome? crash? = none := by simp [crash?]
  have gathered : gather (flows.map .ok) = .ok (some (flows.map Flow.toValue)) := by
    clear whole
    induction flows with
    | nil => rfl
    | cons flow rest ih =>
      obtain ⟨first, others⟩ := List.ne_and_not_mem_of_not_mem_cons unbroken
      rw [List.map_cons, gather_cons (Ne.symm first), ih others]
      rfl
  rw [collect, whole]
  exact gathered

/-- Where no part breaks, a process goes on. -/
theorem Process.goesOn (unbroken : ∀ part, process.Involves part → part ≠ finished (.ok .stop)) :
    process.GoesOn clock machine := by
  -- Each rule branches on the flow of a part; this decides the branch.
  have unstopped : ∀ {pending flow}, process = waiting pending (finished (.ok flow)) → flow ≠ .stop := by
    rintro pending flow rfl rfl
    exact unbroken _ (.waiting .self) rfl
  constructor
  · rintro scope line rest flow is
    have other := unstopped is
    subst is
    cases flow with
    | stop => exact absurd rfl other
    | nothing | value => rfl
  · rintro body last rest flow is
    have other := unstopped is
    subst is
    cases flow with
    | stop => exact absurd rfl other
    | nothing => exact ⟨last, rfl⟩
    | value v => exact ⟨.value v, rfl⟩
  · rintro literal flows rfl
    have none : Flow.stop ∉ flows := fun member =>
      unbroken _ (.together (List.mem_map_of_mem member) .self) rfl
    have ended : (flows.map fun flow => finished (.ok flow)).mapM outcome? = some (flows.map .ok) := by
      rw [← Evaluator.mapM_outcome? (flows.map .ok), List.map_map]
      rfl
    simp only [Process.move, ended, Option.map_some, Literal.close, Evaluator.collect_of_flows none]
  · rintro after flow is
    have other := unstopped is
    subst is
    cases flow with
    | stop => exact absurd rfl other
    | nothing | value => rfl

theorem Process.Follows.ne_stop {run : Run Flow} {outcome : Except Failure Flow}
    (follows : Follows clock run process machine) (runs : process.Runs .breakFree) (holds : machine.Calls .breakFree)
    (ends : run.perform machine = some (outcome, later)) : outcome ≠ .ok .stop := by
  rintro rfl
  exact ((follows.steps ends).runs holds runs).2.ne_stop rfl

namespace Program

variable {program : Program} {document : Json}

/-- No break, no early end: in a program without a break no process of a run has a part that ends with a break, so each
goes on after its parts unless one fails. The same holds of every evaluation, call, iteration and message on a machine of
the run. -/
theorem never_breaks (free : program.root.BreakFree) :
    (∀ process machine, program.Visits document (process, machine) → machine.Calls .breakFree ∧
      ∀ part, process.Involves part → part ≠ finished (.ok .stop) ∧ part.GoesOn program.clock machine) ∧
    ∀ machine : Machine, machine.Calls .breakFree → ∀ depth outcome later,
      let eval := evaluate program.clock depth
      (∀ instruction scope, instruction.BreakFree →
        (eval instruction scope).perform machine = some (outcome, later) → outcome ≠ .ok .stop) ∧
      (∀ receiver arguments, receiver.Calls .breakFree → (∀ value ∈ arguments, value.Calls .breakFree) →
        (Evaluator.callValue program.clock eval receiver arguments).perform machine = some (outcome, later) →
          outcome ≠ .ok .stop) ∧
      (∀ body items, body.Calls .breakFree → (∀ value ∈ items, value.Calls .breakFree) →
        (Evaluator.iterate program.clock eval body .nothing items).perform machine = some (outcome, later) →
          outcome ≠ .ok .stop) ∧
      ∀ receiver message arguments, receiver.Calls .breakFree → (∀ value ∈ arguments, value.Calls .breakFree) →
        (Evaluator.send program.clock eval receiver message arguments).perform machine = some (outcome, later) →
          outcome ≠ .ok .stop := by
  refine ⟨fun process machine visits => ?_, fun machine holds depth outcome later => ?_⟩
  · -- At the start there are no variables, so nothing is there to be called.
    have started : (program.start (.ofDocument document)).2.Calls .breakFree :=
      start_holds (fun _ _ => trivial) trivial (.ofDocument document)
    obtain ⟨holds, runs⟩ := visits.runs started (.evaluating free)
    refine ⟨holds, fun part involves => ⟨(runs.involves involves).ne_stop, goesOn fun inner deeper => ?_⟩⟩
    exact ((runs.involves involves).involves deeper).ne_stop
  · -- Evaluations end as the processes do that they follow.
    have parts := evaluate_follows program.clock depth
    refine ⟨fun instruction scope inside => ?_, fun receiver arguments target all => ?_, fun body items calls all => ?_,
      fun receiver message arguments target all => ?_⟩
    · exact (parts instruction scope machine).ne_stop (.evaluating inside) holds
    · exact (Evaluator.callValue_follows parts receiver arguments).ne_stop (.calling target all) holds
    · exact (Evaluator.iterate_follows parts body .nothing items).ne_stop (.iterating calls trivial all) holds
    · exact (Evaluator.send_follows parts receiver message arguments).ne_stop (.sending target all) holds

/-- A function is called in a loop and for every match of a name, where a host function gives it its argument. -/
theorem never_breaks_in_loops :
    let pair (argument : Instruction) : Instruction := .access .call [.scope, .text "pair", argument]
    let root : Instruction := .block [
      .function "pair" ["x"] (.array [.access .get [.scope, .text "x"], .truth true]),
      .loop "i" (.array [.truth true, .truth false]) (pair (.access .get [.scope, .text "i"])),
      .each "k" (pair (.access .call [.scope, .text "give"]))]
    let host : Library := .table "host" [("give", .answer (.bool true))]
    let program : Program := ⟨root, ⟨"2024-01-01", none⟩, [host]⟩
    let start := program.start (.ofDocument (.object [("k", .array [.null, .null])]))
    ∃ outcome later, (evaluate program.clock 9 root start.1).perform start.2 = some (outcome, later) ∧
      later.memory.arrays.size = 5 ∧ outcome ≠ .ok .stop := by
  intro pair root host program start
  have free : root.BreakFree := by
    change Instruction.BreakFree (.block _)
    repeat' first
      | exact List.forall_mem_nil _
      | refine List.forall_mem_cons.mpr ⟨?_, ?_⟩
      | refine Instruction.breakFree_iff.mpr ⟨nofun, ?_⟩
  have ran : ((evaluate program.clock 9 root start.1).perform start.2).map (fun ended => ended.2.memory.arrays.size) =
      some 5 := by decide +kernel
  obtain ⟨⟨outcome, later⟩, ends, size⟩ := Option.map_eq_some_iff.mp ran
  obtain ⟨visits, evaluations⟩ := @never_breaks program (.object [("k", .array [.null, .null])]) free
  have started : start.2.Calls .breakFree := (visits _ _ .refl).1
  exact ⟨outcome, later, ends, size, (evaluations start.2 started 9 outcome later).1 root start.1 free ends⟩

end Program

end RuleScript
