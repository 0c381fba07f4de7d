import RuleScript.Proofs.Run.Adequacy
import RuleScript.Proofs.Run.Turns
import RuleScript.Proofs.Scope.Alike

/-! A process beside a run that does not suspend.

A process moves on one machine, in small steps and among others; a run of the same instruction goes on another machine,
which is alike, to its end. What others do between two steps of a member of a literal is quiet: they make new places
and capture the scope that all members share. So the process keeps to the run, and where it ends it has the outcome of
the run.
-/

set_option autoImplicit false

namespace RuleScript

open Process

/-- All that members of the literals of a scope do to a machine: they make places, and capture the scope if it is
`captured`. -/
structure Machine.Quiet (scope : ScopeId) (captured : Prop) (machine later : Machine) : Prop where
  grows : machine.memory.Grows later.memory
  arena : Arena.Captures captured scope machine.arena later.arena

namespace Machine.Quiet

variable {scope : ScopeId} {captured again : Prop} {machine later last : Machine}

theorem refl (scope : ScopeId) (machine : Machine) : machine.Quiet scope False machine :=
  ⟨.refl _, .refl scope _⟩

theorem trans (first : machine.Quiet scope captured later) (second : later.Quiet scope again last) :
    machine.Quiet scope (captured ∨ again) last :=
  ⟨first.grows.trans second.grows, first.arena.trans second.arena⟩

theorem congr (quiet : machine.Quiet scope captured later) (same : captured ↔ again) :
    machine.Quiet scope again later :=
  ⟨quiet.grows, quiet.arena.congr same⟩

end Machine.Quiet

/-- What may happen between two steps of a process: nothing if it runs alone, what is quiet if it runs `together` with
others in a scope. -/
def Meanwhile (together : Option ScopeId) (machine later : Machine) : Prop :=
  match together with
  | none => later = machine
  | some scope => ∃ captured, machine.Quiet scope captured later

theorem Meanwhile.refl (together : Option ScopeId) (machine : Machine) : Meanwhile together machine machine := by
  cases together with
  | none => rfl
  | some scope => exact ⟨False, .refl scope machine⟩

theorem Meanwhile.trans {together : Option ScopeId} {machine later last : Machine}
    (first : Meanwhile together machine later) (second : Meanwhile together later last) :
    Meanwhile together machine last := by
  cases together with
  | none => exact Eq.trans second first
  | some scope =>
    obtain ⟨captured, quiet⟩ := first
    obtain ⟨again, more⟩ := second
    exact ⟨captured ∨ again, quiet.trans more⟩

/-- What a process has made and whether it has captured its scope, since it started. -/
structure History where
  made : Place → Prop
  captured : Prop

def History.start : History :=
  ⟨fun _ => False, False⟩

def History.after (history : History) (captured : Prop) (memory later : Memory) : History where
  made place := history.made place ∨ memory.cell? place = none ∧ later.cell? place ≠ none
  captured := history.captured ∨ captured

def Allowed (together : Option ScopeId) (captured : Prop) (machine later : Machine) : Prop :=
  ∀ scope, together = some scope → machine.Quiet scope captured later

theorem Allowed.trans {together : Option ScopeId} {captured again : Prop} {machine later last : Machine}
    (first : Allowed together captured machine later) (second : Allowed together again later last) :
    Allowed together (captured ∨ again) machine last :=
  fun scope others => (first scope others).trans (second scope others)

theorem Allowed.refl (together : Option ScopeId) (machine : Machine) : Allowed together False machine machine :=
  fun scope _ => .refl scope machine

namespace Process

variable {clock : Clock} {together : Option ScopeId} {process next part : Process} {machine later : Machine}

/-- Within so many steps of a process, whatever happens meanwhile, all steps are allowed, and `post` holds where the
process has ended. -/
def Attains (clock : Clock) (together : Option ScopeId) (post : History → Machine → Except Failure Flow → Prop) :
    Nat → History → Machine → Process → Prop
  | 0, _, _, _ => True
  | steps + 1, history, machine, process => ∀ resumed, Meanwhile together machine resumed →
    (∀ outcome, process = finished outcome → post history resumed outcome) ∧
    ∀ next later, Step clock anyMove process resumed next later → ∃ captured, Allowed together captured resumed later ∧
      Attains clock together post steps (history.after captured resumed.memory later.memory) later next

namespace Attains

variable {post weaker : History → Machine → Except Failure Flow → Prop} {steps : Nat} {history : History}
  {outcome : Except Failure Flow}

theorem meanwhile (attains : Attains clock together post steps history machine process)
    (passes : Meanwhile together machine later) : Attains clock together post steps history later process := by
  cases steps with
  | zero => trivial
  | succ steps => exact fun resumed again => attains resumed (passes.trans again)

theorem mono (attains : Attains clock together post steps history machine process)
    (implies : ∀ history machine outcome, post history machine outcome → weaker history machine outcome) :
    Attains clock together weaker steps history machine process := by
  induction steps generalizing history machine process with
  | zero => trivial
  | succ steps ih =>
    intro resumed passes
    obtain ⟨ends, onward⟩ := attains resumed passes
    refine ⟨fun outcome same => implies _ _ _ (ends outcome same), fun next later step => ?_⟩
    obtain ⟨captured, allowed, rest⟩ := onward next later step
    exact ⟨captured, allowed, ih rest⟩

theorem pred (attains : Attains clock together post (steps + 1) history machine process) :
    Attains clock together post steps history machine process := by
  induction steps generalizing history machine process with
  | zero => trivial
  | succ steps ih =>
    intro resumed passes
    obtain ⟨ends, onward⟩ := attains resumed passes
    refine ⟨ends, fun next later step => ?_⟩
    obtain ⟨captured, allowed, rest⟩ := onward next later step
    exact ⟨captured, allowed, ih rest⟩

/-- Along the steps of a process all is allowed, and what the process attains it still attains at their end. -/
theorem along (steps : Steps clock anyMove (process, machine) (next, later)) :
    ∃ count, ∀ history, Attains clock together post (count + 1) history machine process →
      ∃ history captured, Allowed together captured machine later ∧
        Attains clock together post 1 history later next := by
  generalize first : (process, machine) = state at steps
  induction steps using Relation.ReflTransGen.head_induction_on generalizing process machine with
  | refl =>
    cases first
    exact ⟨0, fun history attains => ⟨history, False, Allowed.refl _ _, attains⟩⟩
  | head step _ ih =>
    cases first
    obtain ⟨count, rest⟩ := ih rfl
    refine ⟨count + 1, fun history attains => ?_⟩
    obtain ⟨captured, allowed, more⟩ := (attains machine (.refl together machine)).2 _ _ step
    obtain ⟨final, again, onward, ends⟩ := rest _ more
    exact ⟨final, captured ∨ again, allowed.trans onward, ends⟩

theorem finished (holds : ∀ resumed, Meanwhile together machine resumed → post history resumed outcome) :
    Attains clock together post steps history machine (finished outcome) := by
  cases steps with
  | zero => trivial
  | succ steps =>
    intro resumed passes
    refine ⟨fun other same => ?_, fun next later step => step.not_finished.elim⟩
    cases same
    exact holds resumed passes

theorem lift (place : Process → Process)
    (inner : ∀ part machine next later, part.outcome? = none → Step clock anyMove (place part) machine next later →
      ∃ moved, next = place moved ∧ Step clock anyMove part machine moved later)
    (unended : ∀ part outcome, place part ≠ .finished outcome)
    (attains : Attains clock together post steps history machine part)
    (rest : ∀ history machine outcome, post history machine outcome →
      ∀ steps, Attains clock together weaker steps history machine (place (.finished outcome))) :
    Attains clock together weaker steps history machine (place part) := by
  induction steps generalizing history machine part with
  | zero => trivial
  | succ steps ih =>
    cases ended : part.outcome? with
    | some outcome =>
      have same : part = .finished outcome := by
        cases part with
        | finished => exact congrArg Process.finished (Option.some.inj ended)
        | _ => cases ended
      subst same
      -- The part has ended, so what comes after it takes over.
      exact rest history machine outcome ((attains machine (.refl together machine)).1 outcome rfl) _
    | none =>
      intro resumed passes
      obtain ⟨-, onward⟩ := attains resumed passes
      refine ⟨fun outcome same => absurd same (unended part outcome), fun next later step => ?_⟩
      obtain ⟨moved, rfl, inside⟩ := inner part resumed next later ended step
      obtain ⟨captured, allowed, more⟩ := onward moved later inside
      exact ⟨captured, allowed, ih more⟩

theorem waiting {pending : Pending} (attains : Attains clock together post steps history machine part)
    (rest : ∀ history machine outcome, post history machine outcome →
      ∀ steps, Attains clock together weaker steps history machine (.waiting pending (.finished outcome))) :
    Attains clock together weaker steps history machine (.waiting pending part) := by
  refine attains.lift (.waiting pending) (fun part machine next later unended step => ?_)
    (fun _ _ same => nomatch same) rest
  cases step with
  | move _ applied =>
    cases part with
    | finished => cases unended
    | _ => cases applied
  | waiting step => exact ⟨_, rfl, step⟩

theorem inside {scope : ScopeId} (attains : Attains clock together post steps history machine part)
    (rest : ∀ history machine outcome, post history machine outcome →
      ∀ steps, Attains clock together weaker steps history machine (.inside scope (.finished outcome))) :
    Attains clock together weaker steps history machine (.inside scope part) := by
  refine attains.lift (.inside scope) (fun part machine next later unended step => ?_)
    (fun _ _ same => nomatch same) rest
  cases step with
  | move _ applied =>
    cases part with
    | finished => cases unended
    | _ => cases applied
  | inside step => exact ⟨_, rfl, step⟩

/-- The only member of a literal moves as it does by itself. -/
theorem only {literal : Literal} (attains : Attains clock together post steps history machine part)
    (rest : ∀ history machine outcome, post history machine outcome →
      ∀ steps, Attains clock together weaker steps history machine (.together literal [.finished outcome])) :
    Attains clock together weaker steps history machine (.together literal [part]) := by
  refine attains.lift (fun member => .together literal [member]) (fun part machine next later unended step => ?_)
    (fun _ _ same => nomatch same) rest
  generalize whole : Process.together literal [part] = process at step
  cases step with
  | move _ applied =>
    subst whole
    obtain ⟨move, moves, -⟩ := Option.bind_eq_some_iff.mp applied
    obtain ⟨outcomes, ended, -⟩ := Option.map_eq_some_iff.mp moves
    simp [unended] at ended
  | waiting | inside => cases whole
  | @member _ before after member moved _ _ step =>
    obtain ⟨rfl, same⟩ := Process.together.inj whole
    rcases before with _ | ⟨first, before⟩
    · obtain ⟨rfl, rfl⟩ := List.cons.inj same
      exact ⟨moved, rfl, step⟩
    · simp at same

end Attains

end Process

inductive Flow.Alike (fits : Closure → Prop) (paired : Pairing) : Flow → Flow → Prop where
  | nothing : Alike fits paired .nothing .nothing
  | stop : Alike fits paired .stop .stop
  | value {value like : Value} (same : value.Alike fits paired like) : Alike fits paired (.value value) (.value like)

/-- What a process runs among, and what was paired and which machine the run had when the process started. -/
structure Surroundings where
  clock : Clock
  declared : String → Prop
  together : Option ScopeId
  paired : Pairing
  machine : Machine

namespace Surroundings

abbrev fits (around : Surroundings) : Closure → Prop :=
  Closure.Tame around.declared

def Shares (around : Surroundings) (scope : ScopeId) : Prop :=
  ∀ shared, around.together = some shared → shared = scope

end Surroundings

/-- The machine of a process and that of a run that has come as far. Among others, all that is paired since the start
the process has made itself, and the run has done nothing that is not quiet. -/
structure Abreast (around : Surroundings) (paired : Pairing) (history : History) (machine other : Machine) : Prop where
  alike : machine.Alike around.declared paired (around.together = none) other
  made : around.together ≠ none → ∀ left right, paired left right →
    around.paired left right ∨ history.made left ∧ around.machine.memory.cell? right = none
  quiet : Allowed around.together history.captured around.machine other

def Mirrored (around : Surroundings) (paired : Pairing) (final : Machine) (outcome : Except Failure Flow)
    (history : History) (machine : Machine) (reached : Except Failure Flow) : Prop :=
  ∃ wider : Pairing, (∀ left right, paired left right → wider left right) ∧
    Abreast around wider history machine final ∧ Results (Flow.Alike around.fits wider) reached outcome

/-- A process keeps to a run from a machine: wherever the process starts that is abreast of it, it attains the outcome
of the run. -/
def Process.Mirrors (around : Surroundings) (paired : Pairing) (other : Machine) (process : Process) (run : Run Flow) :
    Prop :=
  ∀ history machine, Abreast around paired history machine other → ∀ final outcome, run other = .done final outcome →
    ∀ steps, process.Attains around.clock around.together (Mirrored around paired final outcome) steps history machine

def Move.Mirrors (around : Surroundings) (paired : Pairing) (history : History) (machine other : Machine) (move : Move)
    (run : Run Flow) : Prop :=
  ∀ final outcome, run other = .done final outcome → ∀ next later, move.apply machine = some (next, later) →
    ∃ captured, Allowed around.together captured machine later ∧
      ∀ steps, next.Attains around.clock around.together (Mirrored around paired final outcome) steps
        (history.after captured machine.memory later.memory) later

def Run.Beside (around : Surroundings) (paired : Pairing) (history : History) (machine other : Machine)
    (run twin : Run Value) : Prop :=
  ∃ wider later final result like, run machine = .done later result ∧ twin other = .done final like ∧
    (∀ left right, paired left right → wider left right) ∧ Allowed around.together False machine later ∧
    Abreast around wider (history.after False machine.memory later.memory) later final ∧
    Results (Value.Alike around.fits wider) result like

variable {around : Surroundings} {paired wider : Pairing} {history : History} {machine later other final : Machine}
  {process next : Process} {run : Run Flow} {outcome like : Except Failure Flow}

theorem Flow.Alike.mono (widens : ∀ left right, paired left right → wider left right) {fits : Closure → Prop}
    {flow twin : Flow} (alike : flow.Alike fits paired twin) : flow.Alike fits wider twin := by
  cases alike with
  | nothing => exact .nothing
  | stop => exact .stop
  | value same => exact .value (same.mono widens)

theorem Results.imp {α β : Type} {post weaker : α → β → Prop} {result : Except Failure α} {twin : Except Failure β}
    (results : Results post result twin) (implies : ∀ value like, post value like → weaker value like) :
    Results weaker result twin := by
  cases results with
  | ok alike => exact .ok (implies _ _ alike)
  | error failure => exact .error failure

namespace Abreast

theorem meanwhile (abreast : Abreast around paired history machine other)
    (passes : Meanwhile around.together machine later) : Abreast around paired history later other := by
  cases among : around.together with
  | none =>
    rw [among] at passes
    cases passes
    exact abreast
  | some scope =>
    rw [among] at passes
    obtain ⟨captured, grows, arena⟩ := passes
    have alike := abreast.alike
    have arenas : later.arena.Alike around.declared paired (around.together = none) other.arena := by
      refine (arena.alike_left alike.arena).loosen fun none => ?_
      rw [among] at none
      cases none
    exact ⟨⟨arenas, alike.memory.growLeft grows⟩, abreast.made, abreast.quiet⟩

theorem onward (abreast : Abreast around paired history machine other) {memory copy : Memory}
    (onward : Onward (around.together = none) paired machine.memory other.memory wider memory copy)
    (alike : memory.Alike around.fits wider copy) :
    Allowed around.together False machine ⟨machine.arena, memory⟩ ∧
      Abreast around wider (history.after False machine.memory memory) ⟨machine.arena, memory⟩
        ⟨other.arena, copy⟩ := by
  have grows : ∀ scope, around.together = some scope → machine.memory.Grows memory ∧ other.memory.Grows copy :=
    fun scope among => onward.grows (by rw [among]; simp)
  refine ⟨fun scope among => ⟨(grows scope among).1, .refl scope _⟩, ⟨?_, alike⟩, fun among left right pair => ?_,
    fun scope among => ?_⟩
  · exact abreast.alike.arena.mono onward.widens
  · obtain ⟨scope, among⟩ := Option.ne_none_iff_exists'.mp among
    obtain ⟨cell, twin, leftHolds, -⟩ := alike.cells left right pair
    rcases onward.fresh left right pair with old | ⟨newLeft, newRight⟩
    · exact (abreast.made (by rw [among]; simp) left right old).imp_right fun both => ⟨.inl both.1, both.2⟩
    · refine .inr ⟨.inr ⟨newLeft, by rw [leftHolds]; simp⟩, ?_⟩
      exact (abreast.quiet scope among).grows.none newRight
  · have quiet := abreast.quiet scope among
    exact Machine.Quiet.congr ⟨quiet.grows.trans (grows scope among).2, quiet.arena⟩ (by simp [History.after])

theorem still (abreast : Abreast around paired history machine other) :
    Abreast around paired (history.after False machine.memory machine.memory) machine other :=
  (abreast.onward (.refl ..) abreast.alike.memory).2

end Abreast

end RuleScript
