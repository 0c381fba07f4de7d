import RuleScript.Proofs.Run.Keeping
import RuleScript.Proofs.Run.Sequential

/-! Suspensions make no difference.

A program whose literals have members that only read ends in the same way in whatever order these members move, and so
in the same way as with libraries that answer at once.
-/

set_option autoImplicit false

namespace RuleScript

open Process

/-- Whether a value refers to what is in memory, and calls nothing but what a program with these declarations may. -/
def Value.InMemory (declared : String → Prop) (memory : Memory) : Value → Prop
  | .array place => place < memory.arrays.size
  | .object place => place < memory.objects.size
  | .data view => view.document < memory.documents.size
  | .closure called => called.Tame declared
  | _ => True

theorem Value.InMemory.alike {declared : String → Prop} {memory : Memory} {value : Value}
    (inside : value.InMemory declared memory) : value.Alike (Closure.Tame declared) memory.places value := by
  cases value with
  | array place => exact .array ⟨rfl, by simpa [Memory.cell?, Value.InMemory] using inside⟩
  | object place => exact .object ⟨rfl, by simpa [Memory.cell?, Value.InMemory] using inside⟩
  | data view => exact .data view.path ⟨rfl, by simpa [Memory.cell?, Value.InMemory] using inside⟩
  | closure closure => exact .closure inside
  | _ => constructor

namespace Program

/-- The program with libraries of the same names that answer at once. -/
def prompted (program : Program) : Program :=
  { program with libraries := program.libraries.map Library.prompt }

/-- A memory that a host runs a program on: it has the host's document, and all values in it refer to what is in it. -/
structure Hosted (program : Program) (memory : Memory) : Prop where
  document : 0 < memory.documents.size
  stored : memory.All (Value.InMemory program.root.Declares memory)

/-- Two ways in which a run on a memory has ended that a host cannot tell apart: it gets the same failure or the same
host form of the value, and its documents are the same. -/
def SameEnd (memory : Memory) (ran other : Except Failure Value × Memory) : Prop :=
  ran.1.map (Value.native ran.2) = other.1.map (Value.native other.2) ∧
    ∀ index, index < memory.documents.size → ran.2.document index = other.2.document index

variable {program : Program} {memory : Memory}

theorem Hosted.ofDocument (program : Program) (document : Json) : program.Hosted (.ofDocument document) :=
  ⟨by simp [Memory.ofDocument], .ofDocument document⟩

theorem importAll_alike {declared : String → Prop} {paired : Pairing} {strict : Prop} {arena other : Arena}
    (alike : arena.Alike declared paired strict other) (scope : ScopeId) (libraries : List Library) :
    (arena.importAll scope libraries).Alike declared paired strict
      (other.importAll scope (libraries.map Library.prompt)) := by
  induction libraries generalizing arena other with
  | nil => exact alike
  | cons library rest ih => exact ih (alike.importLibrary scope library)

theorem start_alike (hosted : program.Hosted memory) :
    (program.prompted.start memory).1 = (program.start memory).1 ∧
      (program.start memory).2.Alike program.root.Declares memory.places True (program.prompted.start memory).2 := by
  have view : View.Alike memory.places ⟨0, []⟩ ⟨0, []⟩ :=
    .mk [] ⟨rfl, by simpa [Memory.cell?, Array.size_pos_iff] using hosted.document⟩
  have empty : Arena.empty.Alike program.root.Declares memory.places True .empty :=
    ⟨rfl, rfl, fun _ => .blank, fun _ _ => rfl⟩
  have frame : Frame.Alike program.root.Declares memory.places { Frame.blank with view := some ⟨0, []⟩ }
      { Frame.blank with view := some ⟨0, []⟩ } := { Frame.Alike.blank with view := .some view }
  have root := (empty.add frame rfl).2
  have libraries : program.libraries.map Library.prompt ++ [Library.standard] =
      (program.libraries ++ [Library.standard]).map Library.prompt := by
    rw [List.map_append]
    rfl
  refine ⟨rfl, ⟨?_, Memory.alike_self (hosted.stored.imp fun _ inside => inside.alike)⟩⟩
  unfold start prompted
  dsimp only
  rw [libraries]
  exact importAll_alike root _ _

theorem done_of_prompted {result : Except Failure Value} {final : Memory}
    (ran : program.prompted.run memory = some (result, final)) :
    ∃ outcome later, evaluate program.clock (program.root.depth + maxDepth) program.root (program.start memory).1
        (program.prompted.start memory).2 = .done later outcome ∧
      result = outcome.map Flow.toValue ∧ final = later.memory := by
  -- Libraries that answer at once leave nothing to wait for.
  have holds : (program.prompted.start memory).2.Holds (fun _ => True) Library.Prompt := by
    refine Program.start_holds (fun library member => ?_) (fun _ _ _ => rfl) ⟨fun _ _ _ => trivial, fun _ _ _ => trivial⟩
    obtain ⟨origin, -, rfl⟩ := List.mem_map.mp member
    exact fun _ _ => Library.suspensions_prompt origin
  obtain ⟨⟨outcome, later⟩, performed, same⟩ := Option.map_eq_some_iff.mp ran
  obtain ⟨-, ends⟩ := evaluate_agrees program.clock (program.root.depth + maxDepth) program.root
    (program.start memory).1 (program.prompted.start memory).2 holds
  refine ⟨outcome, later, ?_, (Prod.ext_iff.mp same).1.symm, (Prod.ext_iff.mp same).2.symm⟩
  change (evaluate program.clock (program.root.depth + maxDepth) program.root (program.start memory).1).perform
    (program.prompted.start memory).2 = some (outcome, later) at performed
  rw [Run.perform, Task.run] at performed
  generalize evaluate program.clock (program.root.depth + maxDepth) program.root (program.start memory).1
    (program.prompted.start memory).2 = polled at performed ends ⊢
  cases polled with
  | done final result =>
    cases performed
    rfl
  | waiting => exact ends.elim
  | exhausted => cases performed

/-- In whatever order the members of literals move that only read, and however often each call of a library is
suspended: a program ends as it does with libraries that answer at once. -/
theorem suspensions_unseen
    (reads : ∀ node, program.root.Contains node → node.LiteralReads program.root.Declares)
    (hosted : program.Hosted memory) {prompt : Except Failure Value × Memory}
    (ended : program.prompted.run memory = some prompt) :
    (∀ outcome later, Steps program.clock anyMove
      (evaluating program.root (program.start memory).1, (program.start memory).2) (finished outcome, later) →
      SameEnd memory (outcome.map Flow.toValue, later.memory) prompt) ∧
    ∀ ran, program.run memory = some ran → SameEnd memory ran prompt := by
  obtain ⟨result, last⟩ := prompt
  obtain ⟨outcome, final, done, rfl, rfl⟩ := done_of_prompted ended
  have alike := (start_alike hosted).2
  -- The program runs alone beside one whose libraries answer at once. At the start, places stand for themselves.
  let around : Surroundings :=
    ⟨program.clock, program.root.Declares, none, memory.places, (program.prompted.start memory).2⟩
  have tame : program.root.Tame program.root.Declares none :=
    ⟨fun node inside name member => ⟨node, inside, member⟩, reads, fun others => absurd rfl others⟩
  have abreast : Abreast around memory.places .start (program.start memory).2 (program.prompted.start memory).2 :=
    ⟨⟨alike.arena.loosen fun _ => trivial, alike.memory⟩, fun others => absurd rfl others, fun _ none => nomatch none⟩
  have every : ∀ reached later, Steps program.clock anyMove
      (evaluating program.root (program.start memory).1, (program.start memory).2) (finished reached, later) →
      SameEnd memory (reached.map Flow.toValue, later.memory) (outcome.map Flow.toValue, final.memory) := by
    intro reached later steps
    obtain ⟨count, along⟩ := Attains.along steps
    have shares : around.Shares (program.start memory).1 := fun _ none => nomatch none
    -- In whatever order the steps are taken, they attain what the prompt run ends with.
    obtain ⟨history, -, -, attains⟩ := along .start
      ((evaluate_keeps program.clock program.root.Declares (program.root.depth + maxDepth)).keeps around rfl rfl
        program.root _ shares tame memory.places _ .start _ abreast final outcome done (count + 1))
    obtain ⟨wider, widens, abreast, results⟩ := (attains later (.refl none later)).1 reached rfl
    refine ⟨?_, fun index bound => ?_⟩
    · cases results with
      | error failure => rfl
      | ok flows =>
        refine congrArg Except.ok ?_
        cases flows with
        | nothing | stop => exact Value.native_alike abreast.alike.memory .empty
        | value same => exact Value.native_alike abreast.alike.memory same
    · exact abreast.alike.memory.document (widens _ _ ⟨rfl, by simpa [Memory.cell?] using bound⟩)
  refine ⟨every, ?_⟩
  -- The order of the polls is one of them.
  rintro ⟨value, last⟩ ran
  obtain ⟨⟨reached, later⟩, performed, same⟩ := Option.map_eq_some_iff.mp ran
  cases same
  exact every reached later (evaluate_steps performed)

/-- Two calls that are suspended two times and once, as the members of an array. -/
theorem suspensions_unseen_in_array :
    let slow (times : Float) : Instruction := .access .call [.scope, .text "slow", .number times]
    let program : Program := ⟨.array [slow 2, slow 1], ⟨"2024-01-01", none⟩, [.suspending "host" ["slow"]]⟩
    (∀ node, program.root.Contains node → node.LiteralReads program.root.Declares) ∧
    program.Hosted (.ofDocument .null) ∧
    ∃ prompt, program.prompted.run (.ofDocument .null) = some prompt ∧
      ∀ ran, program.run (.ofDocument .null) = some ran → SameEnd (.ofDocument .null) ran prompt := by
  intro slow program
  have leaf : ∀ part node : Instruction, part.parts = [] → part.Contains node → node = part := by
    intro part node none inside
    rcases inside.cases_parts with same | ⟨_, member, -⟩
    · exact same
    · rw [none] at member
      cases member
  have call : ∀ times node, (slow times).Contains node →
      node = slow times ∨ node = .scope ∨ node = .text "slow" ∨ node = .number times := by
    intro times node inside
    rcases inside.cases_parts with same | ⟨part, member, inside⟩
    · exact .inl same
    · have parts : part = .scope ∨ part = .text "slow" ∨ part = .number times := by
        simpa [slow, Instruction.parts] using member
      rcases parts with rfl | rfl | rfl <;> simp [leaf _ node rfl inside]
  have nodes : ∀ node, program.root.Contains node →
      node = program.root ∨ ∃ times, (slow times).Contains node := by
    intro node inside
    rcases inside.cases_parts with same | ⟨part, member, inside⟩
    · exact .inl same
    · have calls : part = slow 2 ∨ part = slow 1 := by simpa [program, Instruction.parts] using member
      rcases calls with rfl | rfl <;> exact .inr ⟨_, inside⟩
  have free : ¬ program.root.Declares "slow" := by
    rintro ⟨node, inside, member⟩
    rcases nodes node inside with rfl | ⟨times, inside⟩
    · cases member
    · rcases call times node inside with rfl | rfl | rfl | rfl <;> cases member
  -- Only the root has members, and both are calls in their own scope of a name that nothing declares.
  have reads : ∀ node, program.root.Contains node → node.LiteralReads program.root.Declares := by
    intro node inside many member literal inner within
    rcases nodes node inside with rfl | ⟨times, inside⟩
    · have calls : member = slow 2 ∨ member = slow 1 := by simpa [program, Instruction.literalMembers] using literal
      obtain ⟨times, rfl⟩ : ∃ times, member = slow times := calls.elim (fun same => ⟨2, same⟩) fun same => ⟨1, same⟩
      rcases call times inner within with rfl | rfl | rfl | rfl
      · exact ⟨"slow", [.number times], rfl, free⟩
      all_goals trivial
    · rcases call times node inside with rfl | rfl | rfl | rfl <;> cases literal
  have hosted : program.Hosted (.ofDocument .null) := .ofDocument program .null
  have finishes : (program.prompted.run (.ofDocument .null)).isSome = true := by decide +kernel
  obtain ⟨prompt, ended⟩ := Option.isSome_iff_exists.mp finishes
  exact ⟨reads, hosted, prompt, ended, (suspensions_unseen reads hosted ended).2⟩

end Program

end RuleScript
