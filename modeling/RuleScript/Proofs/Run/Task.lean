import Mathlib.Logic.Relation
import RuleScript.Task

/-! Tasks and the transition systems that they follow.

A task follows a system of small steps if each of its stops is a state that the system reaches. What a task does
before it suspends, and after it is resumed, is then a run of the system, also if others change the state meanwhile.
-/

set_option autoImplicit false

namespace RuleScript

variable {σ τ υ α β γ : Type}

namespace Poll

theorem bind_done (poll : Poll σ α) : poll.bind Task.pure = poll := by
  induction poll with
  | done => rfl
  | waiting state resume ih => exact congrArg (waiting state) (funext ih)
  | exhausted => rfl

theorem bind_assoc (poll : Poll σ α) (next : α → Task σ β) (after : β → Task σ γ) :
    (poll.bind next).bind after = poll.bind fun result => (next result).bind after := by
  induction poll with
  | done => rfl
  | waiting state resume ih => exact congrArg (waiting state) (funext ih)
  | exhausted => rfl

theorem finish_bind (poll : Poll σ α) (next : α → Task σ β) :
    (poll.bind next).finish = poll.finish.bind fun ended => (next ended.2 ended.1).finish := by
  induction poll with
  | done => rfl
  | waiting state resume ih => exact ih state
  | exhausted => rfl

theorem map_eq_bind (poll : Poll σ α) (f : α → β) : poll.map f = poll.bind fun result => Task.pure (f result) := by
  induction poll with
  | done => rfl
  | waiting state resume ih => exact congrArg (waiting state) (funext ih)
  | exhausted => rfl

end Poll

instance : LawfulMonad (Task σ) :=
  LawfulMonad.mk' (Task σ)
    (fun task => funext fun state => (task state).bind_done)
    (fun _ _ => rfl)
    (fun task next after => funext fun state => (task state).bind_assoc next after)

namespace Poll

variable {R : τ × σ → τ × σ → Prop} {here : α → τ} {start middle : τ} {state later : σ}

/-- The steps of `R` from a state reach every stop of a computation, and `here` at its end. -/
def Follows (R : τ × σ → τ × σ → Prop) (here : α → τ) : Poll σ α → τ → σ → Prop
  | done later result, start, state => Relation.ReflTransGen R (start, state) (here result, later)
  | waiting later resume, start, state =>
    -- Others may change the state before the computation is resumed.
    ∃ stop, Relation.ReflTransGen R (start, state) (stop, later) ∧
      ∀ changed, Follows R here (resume changed) stop changed
  | exhausted, _, _ => True

/-- A system that takes the same steps somewhere inside a larger state. -/
theorem steps_inside {S : υ × σ → υ × σ → Prop} (place : τ → υ)
    (inside : ∀ first second : τ × σ, R first second → S (place first.1, first.2) (place second.1, second.2))
    (steps : Relation.ReflTransGen R (start, state) (middle, later)) :
    Relation.ReflTransGen S (place start, state) (place middle, later) :=
  Relation.ReflTransGen.lift (fun pair : τ × σ => (place pair.1, pair.2)) inside _ _ steps

namespace Follows

theorem head {poll : Poll σ α} (steps : Relation.ReflTransGen R (start, state) (middle, later))
    (rest : poll.Follows R here middle later) : poll.Follows R here start state := by
  cases poll with
  | done => exact steps.trans rest
  | waiting =>
    obtain ⟨stop, reached, onward⟩ := rest
    exact ⟨stop, steps.trans reached, onward⟩
  | exhausted => trivial

theorem bind {poll : Poll σ α} {next : α → Task σ β} {there : β → τ} (first : poll.Follows R here start state)
    (rest : ∀ result changed, (next result changed).Follows R there (here result) changed) :
    (poll.bind next).Follows R there start state := by
  induction poll generalizing start state with
  | done later result => exact head first (rest result later)
  | waiting later resume ih =>
    obtain ⟨stop, reached, onward⟩ := first
    exact ⟨stop, reached, fun changed => ih changed (onward changed)⟩
  | exhausted => trivial

theorem map {poll : Poll σ α} {f : α → β} {there : β → τ}
    (first : poll.Follows R (fun result => there (f result)) start state) :
    (poll.map f).Follows R there start state := by
  rw [map_eq_bind]
  exact first.bind fun _ _ => .refl

theorem lift {S : υ × σ → υ × σ → Prop} {poll : Poll σ α} (place : τ → υ)
    (steps : ∀ first second : τ × σ, R first second → S (place first.1, first.2) (place second.1, second.2))
    (first : poll.Follows R here start state) :
    poll.Follows S (fun result => place (here result)) (place start) state := by
  induction poll generalizing start state with
  | done => exact steps_inside place steps first
  | waiting later resume ih =>
    obtain ⟨stop, reached, onward⟩ := first
    exact ⟨place stop, steps_inside place steps reached, fun changed => ih changed (onward changed)⟩
  | exhausted => trivial

theorem finish {poll : Poll σ α} {result : α} (first : poll.Follows R here start state)
    (ends : poll.finish = some (later, result)) :
    Relation.ReflTransGen R (start, state) (here result, later) := by
  induction poll generalizing start state with
  | done =>
    cases ends
    exact first
  | waiting middle resume ih =>
    obtain ⟨stop, reached, onward⟩ := first
    exact reached.trans (ih middle (onward middle) ends)
  | exhausted => cases ends

end Follows

inductive AnyMember (R : τ × σ → τ × σ → Prop) : List τ × σ → List τ × σ → Prop where
  | intro (before after : List τ) {member next : τ} {state later : σ} (step : R (member, state) (next, later)) :
      AnyMember R (before ++ member :: after, state) (before ++ next :: after, later)

variable {R : τ × σ → τ × σ → Prop} {here : α → τ} {start : τ} {state : σ} {others : List τ}

theorem AnyMember.first {first second : τ × σ} (step : R first second) :
    AnyMember R (first.1 :: others, first.2) (second.1 :: others, second.2) :=
  .intro [] others step

theorem AnyMember.rest {first second : List τ × σ} (step : AnyMember R first second) :
    AnyMember R (start :: first.1, first.2) (start :: second.1, second.2) := by
  obtain ⟨before, after, step⟩ := step
  exact .intro (start :: before) after step

/-- Two computations polled in turn follow the members that each of them follows. -/
theorem Follows.both {poll : Poll σ α} {rest : Task σ (List α)} (first : poll.Follows R here start state)
    (second : ∀ changed, (rest changed).Follows (AnyMember R) (List.map here) others changed) :
    (poll.both rest).Follows (AnyMember R) (fun pair => here pair.1 :: pair.2.map here) (start :: others) state := by
  induction poll generalizing start state rest others with
  | done middle result =>
    refine head (steps_inside (· :: others) (fun _ _ => AnyMember.first) first) ?_
    exact map ((second middle).lift (here result :: ·) fun _ _ => AnyMember.rest)
  | waiting middle resume ih =>
    obtain ⟨stop, reached, onward⟩ := first
    have before := steps_inside (· :: others) (fun _ _ => AnyMember.first) reached
    have after := fun {stops final} (steps : Relation.ReflTransGen (AnyMember R) (others, middle) (stops, final)) =>
      steps_inside (stop :: ·) (fun _ _ => AnyMember.rest) steps
    -- In a round the first member moves before the others, so their steps go on from its stop.
    have turn := second middle
    simp only [Poll.both]
    cases polled : rest middle with
    | done later results =>
      rw [polled] at turn
      refine ⟨stop :: results.map here, before.trans (after turn), fun changed => map ?_⟩
      exact (onward changed).lift (· :: results.map here) fun _ _ => AnyMember.first
    | waiting later resumeRest =>
      rw [polled] at turn
      obtain ⟨stops, reachedRest, onwardRest⟩ := turn
      refine ⟨stop :: stops, before.trans (after reachedRest), fun changed => ?_⟩
      exact ih changed (onward changed) onwardRest
    | exhausted => trivial
  | exhausted => trivial

end Poll

theorem Task.all_follows {R : τ × σ → τ × σ → Prop} {here : α → τ} {index : Type} (members : List index)
    {task : index → Task σ α} {start : index → τ}
    (each : ∀ member ∈ members, ∀ state, (task member state).Follows R here (start member) state) (state : σ) :
    (Task.all (members.map task) state).Follows (Poll.AnyMember R) (List.map here) (members.map start) state := by
  induction members generalizing state with
  | nil => exact .refl
  | cons first rest ih =>
    have others := fun changed => ih (fun member inside => each member (List.mem_cons_of_mem _ inside)) changed
    exact .map (.both (each first List.mem_cons_self state) others)

end RuleScript
