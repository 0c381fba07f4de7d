import RuleScript.Proofs.Run.Moves
import RuleScript.Proofs.Run.Sequential

/-! How deep evaluation is nested.

Only a call of a closure evaluates an instruction that is no part of the one at hand. Where a program has no functions,
the only closures are the bodies of loops, and nobody stores them: an array calls the body at once, and no library has
a function of the name `iterate`. So evaluation is nested no deeper than the instructions are.
-/

set_option autoImplicit false

namespace RuleScript

namespace Instruction

def FunctionFree (instruction : Instruction) : Prop :=
  ∀ name parameters body, ¬ instruction.Contains (.function name parameters body)

theorem FunctionFree.part {instruction part : Instruction} (free : instruction.FunctionFree)
    (member : part ∈ instruction.parts) : part.FunctionFree :=
  fun name parameters body inside => free name parameters body (.part member inside)

theorem FunctionFree.of_parts {instruction : Instruction}
    (noFunction : ∀ name parameters body, instruction ≠ .function name parameters body)
    (parts : ∀ part ∈ instruction.parts, part.FunctionFree) : instruction.FunctionFree := by
  intro name parameters body inside
  rcases inside.cases_parts with same | ⟨part, member, inside⟩
  · exact noFunction name parameters body same.symm
  · exact parts part member name parameters body inside

theorem depth_le_depthOfAll {items : List Instruction} {part : Instruction} (member : part ∈ items) :
    part.depth ≤ depthOfAll items := by
  induction items with
  | nil => cases member
  | cons item rest ih =>
    rw [depthOfAll]
    rcases List.mem_cons.mp member with rfl | later
    · exact Nat.le_max_left _ _
    · exact Nat.le_trans (ih later) (Nat.le_max_right _ _)

theorem depth_le_depthOfPairs {pairs : List (String × Instruction)} {part : Instruction}
    (member : part ∈ pairs.map Prod.snd) : part.depth ≤ depthOfPairs pairs := by
  induction pairs with
  | nil => cases member
  | cons pair rest ih =>
    rw [depthOfPairs]
    rcases List.mem_cons.mp member with rfl | later
    · exact Nat.le_max_left _ _
    · exact Nat.le_trans (ih later) (Nat.le_max_right _ _)

theorem depth_part {instruction part : Instruction} (member : part ∈ instruction.evaluated) :
    part.depth < instruction.depth := by
  cases instruction with
  | block items | array items | access _ items =>
    have : part.depth ≤ depthOfAll items := depth_le_depthOfAll member
    simp only [depth]
    omega
  | object members =>
    have := depth_le_depthOfPairs member
    simp only [depth]
    omega
  | fold kind first operands =>
    simp only [depth]
    rcases List.mem_cons.mp member with rfl | inside
    · omega
    · have := depth_le_depthOfPairs inside
      omega
  | branch test ok fail => cases fail <;> grind [evaluated, parts, depth, depthOfOption]
  | result value => cases value <;> grind [evaluated, parts, depth, depthOfOption]
  | _ => grind [evaluated, parts, depth]

theorem depth_pos (instruction : Instruction) : 0 < instruction.depth := by
  cases instruction <;> simp only [depth] <;> omega

end Instruction

def Value.NoClosure (value : Value) : Prop :=
  ∀ closure, value ≠ .closure closure

theorem Value.noClosure_of_plain (value : Value) (plain : value.handle? = none) : value.NoClosure := by
  rintro closure rfl
  cases plain

/-- Without closures and with no library but the standard one, a run does not suspend, and no closure is made. -/
theorem Unsuspending.ofStandard (clock : Clock) : Unsuspending clock Value.NoClosure (· = .standard) where
  plain := Value.noClosure_of_plain
  scopes _ := nofun
  prompt _ known _ _ _ := known ▸ rfl
  answers _ _ function _ all := Library.answer_ensures Value.noClosure_of_plain clock _ function all

theorem Arena.resolveCall_iterate {arena : Arena}
    (locals : ∀ scope, ∀ pair ∈ (arena.frame scope).locals, pair.2.NoClosure)
    (libraries : ∀ scope, ∀ library ∈ (arena.frame scope).libraries, library = .standard) (scope : ScopeId) :
    ∃ failure, arena.resolveCall scope Message.iterate.name = .error failure := by
  cases found : arena.resolveCall scope Message.iterate.name with
  | error failure => exact ⟨failure, rfl⟩
  | ok callee =>
    obtain ⟨id, stands⟩ := callee_of_resolveCall found
    cases callee with
    | closure closure => exact absurd rfl (locals id _ stands closure)
    | library library =>
      have has := stands.2
      rw [libraries id library stands.1] at has
      exact absurd has (by decide)

namespace Evaluator

variable {clock : Clock} {limit : Prop} {eval other : Evaluator}

/-- The body of a loop goes to the items of an array and nowhere else. -/
theorem loop_settles {body : Instruction} (inner : Agree Value.NoClosure (· = .standard) limit eval other body)
    (scope : ScopeId) (iterator : String) {value : Value} (given : value.NoClosure) :
    Run.Settles (Machine.Holds Value.NoClosure (· = .standard)) limit
      (send clock eval value .iterate [.closure ⟨[iterator], body, scope⟩])
      (send clock other value .iterate [.closure ⟨[iterator], body, scope⟩]) (Flow.All Value.NoClosure) := by
  have setting := Unsuspending.ofStandard clock
  have asked : ∀ receiver : Value, Run.Settles (Machine.Holds Value.NoClosure (· = .standard)) limit
      (do return .value (← Run.action (receiver.send .iterate [.closure ⟨[iterator], body, scope⟩])))
      (do return .value (← Run.action (receiver.send .iterate [.closure ⟨[iterator], body, scope⟩])))
      (Flow.All Value.NoClosure) := fun receiver => by
    rw [Value.send_iterate]
    exact answer_settles (Value.send_ensures setting.plain receiver .iterate (List.forall_mem_nil _))
  cases value with
  -- Nothing is called `iterate` here, so a loop over a scope fails in both runs.
  | scope target =>
    refine .get fun machine holds => ?_
    obtain ⟨failure, unknown⟩ := Arena.resolveCall_iterate holds.locals holds.libraries target
    rw [unknown]
    exact .throw _
  | array place =>
    refine .inspect fun machine holds => iterate_settles .nothing fun item member => ?_
    refine invoke_settles setting (fun value single => ?_) inner
    rw [List.mem_singleton.mp single]
    exact holds.memory.items place item (Array.mem_toList_iff.mp member)
  | closure closure => exact absurd rfl (given closure)
  | _ => exact asked _

end Evaluator

/-- Evaluation that may be nested as deep as the instructions are agrees with evaluation in order that may too: none of
them exceeds its limit. -/
theorem evaluate_agrees_of_depth {clock : Clock} {depth other : Nat} {instruction : Instruction}
    (free : instruction.FunctionFree) (enough : instruction.depth ≤ depth) (also : instruction.depth ≤ other) :
    Evaluator.Agree Value.NoClosure (· = .standard) False (evaluate clock depth) (sequential clock other)
      instruction := by
  induction depth generalizing other instruction with
  | zero => exact absurd enough (Nat.not_le_of_lt instruction.depth_pos)
  | succ depth ih =>
    -- Either depth allows one more level, as an instruction is at least one deep.
    obtain ⟨other, rfl⟩ := Nat.exists_eq_add_of_lt (Nat.lt_of_lt_of_le instruction.depth_pos also)
    rw [Nat.zero_add] at also ⊢
    have parts : ∀ part ∈ instruction.evaluated, Evaluator.Agree Value.NoClosure (· = .standard) False
        (evaluate clock depth) (sequential clock other) part := by
      intro part member
      have less := Instruction.depth_part member
      exact ih (free.part (Instruction.mem_parts_of_evaluated member)) (by omega) (by omega)
    intro scope
    refine Evaluator.sequentialStep_settles (.ofStandard clock) (fun closure good => absurd rfl (good closure)) parts
      ?_ ?_
    · rintro iterator list body rfl value given
      exact Evaluator.loop_settles (parts body (List.mem_cons_of_mem _ List.mem_cons_self)) scope iterator given
    · rintro name parameters body rfl
      exact absurd .self (free name parameters body)

theorem evaluate_of_depth {clock : Clock} {instruction : Instruction} (free : instruction.FunctionFree)
    {machine : Machine} (holds : machine.Holds Value.NoClosure (· = .standard)) (scope : ScopeId) :
    ∃ later outcome, ∀ depth, instruction.depth ≤ depth →
      evaluate clock depth instruction scope machine = .done later outcome := by
  have agree : ∀ depth, instruction.depth ≤ depth → Evaluator.Agree Value.NoClosure (· = .standard) False
      (evaluate clock depth) (sequential clock instruction.depth) instruction :=
    fun depth enough => evaluate_agrees_of_depth free enough (Nat.le_refl _)
  have agrees := fun depth enough => agree depth enough scope machine holds
  have ends := (agrees instruction.depth (Nat.le_refl _)).2
  rw [(agrees instruction.depth (Nat.le_refl _)).1] at ends
  cases ran : sequential clock instruction.depth instruction scope machine with
  | exhausted => exact (ran ▸ ends).elim
  | waiting => exact (ran ▸ ends).elim
  | done later outcome => exact ⟨later, outcome, fun depth enough => (agrees depth enough).1.trans ran⟩

end RuleScript
