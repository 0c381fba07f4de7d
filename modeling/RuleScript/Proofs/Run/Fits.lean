import RuleScript.Proofs.Run.Turns
import RuleScript.Proofs.Scope.Chain
import RuleScript.Proofs.Value.Handles

/-! Processes that hold on to scopes in use.

A kept scope is never released. A process may store the names of kept scopes only; the scopes of the bodies that it
runs may stand where they are used at once, and in the closure that a loop makes of its body.
-/

set_option autoImplicit false

namespace RuleScript

/-- A live scope that no release takes away. -/
def Arena.Kept (arena : Arena) (scope : ScopeId) : Prop :=
  arena.Live scope ∧ ((arena.frame scope).captured = true ∨ (arena.frame scope).parent = none)

instance (arena : Arena) (scope : ScopeId) : Decidable (arena.Kept scope) :=
  inferInstanceAs (Decidable (_ ∧ _))

/-- A scope that is kept or belongs to a body around. -/
def Arena.Anchored (arena : Arena) (around : List ScopeId) (scope : ScopeId) : Prop :=
  arena.Kept scope ∨ scope ∈ around

def Value.Within (good : ScopeId → Prop) (value : Value) : Prop :=
  ∀ scope, value.handle? = some scope → good scope

def Flow.Within (good : ScopeId → Prop) (flow : Flow) : Prop :=
  ∀ value, flow = .value value → value.Within good

namespace Value

variable {good better : ScopeId → Prop} {value : Value}

theorem within_of_plain (value : Value) (plain : value.handle? = none) : value.Within good :=
  fun _ has => by simp [plain] at has

theorem Within.imp (within : value.Within good) (implies : ∀ scope, good scope → better scope) :
    value.Within better :=
  fun scope has => implies scope (within scope has)

theorem within_scope {scope : ScopeId} (holds : good scope) : (Value.scope scope).Within good :=
  fun _ has => Option.some.inj has ▸ holds

theorem within_closure {closure : Closure} (holds : good closure.scope) : (Value.closure closure).Within good :=
  fun _ has => Option.some.inj has ▸ holds

end Value

theorem Flow.Within.toValue {good : ScopeId → Prop} {flow : Flow} (within : flow.Within good) :
    flow.toValue.Within good := by
  cases flow with
  | value v => exact within v rfl
  | _ => exact Value.within_of_plain _ rfl

def Flow.held : Flow → List Value
  | value v => [v]
  | _ => []

def After.held : After → List Value
  | operand _ _ total _ _ => [total]
  | compareRight value _ | rangeLast value => [value]
  | argument _ _ done _ => done
  | _ => []

def Pending.held : Pending → List Value
  | lines _ _ => []
  | iterate body last rest => body :: last.held ++ rest
  | withValue after => after.held

namespace Process

mutual

/-- The values in the arguments, intermediate results and answers of a process. -/
def held : Process → List Value
  | evaluating _ _ | visiting _ _ _ => []
  | finished outcome => outcome.toOption.elim [] Flow.held
  | waiting pending part => pending.held ++ part.held
  | inside _ body => body.held
  | together _ members => heldAll members
  | collecting _ _ done _ => done
  | sending receiver _ arguments | calling receiver arguments => receiver :: arguments
  | naming _ _ arguments | binding _ _ arguments _ | asking _ _ _ arguments => arguments
  | matching _ _ last _ => [last]
  | iterating body last items => body :: last.held ++ items
  | folding _ _ total _ => [total]

def heldAll : List Process → List Value
  | [] => []
  | member :: rest => member.held ++ heldAll rest

end

theorem mem_heldAll {members : List Process} {value : Value} :
    value ∈ heldAll members ↔ ∃ member ∈ members, value ∈ member.held := by
  induction members with
  | nil => simp [heldAll]
  | cons first rest ih => simp [heldAll, ih]

end Process

/-- The values of arguments: the first one is used at once, the others may be stored. -/
def Operands (kept anchored : ScopeId → Prop) (values : List Value) : Prop :=
  (values.headD .empty).Within anchored ∧ ∀ value ∈ values.tail, value.Within kept

/-- The arguments of a message or a call. Only those of `iterate` may name the scope of a body around. -/
def Delivery (kept anchored : ScopeId → Prop) (iterates : Prop) (arguments : List Value) : Prop :=
  (∀ value ∈ arguments, value.Within kept) ∨ iterates ∧ ∀ value ∈ arguments, value.Within anchored

section Fits

variable (kept anchored : ScopeId → Prop)

def After.Fits : After → Prop
  | negate => True
  | choose scope _ _ | foldFirst _ scope _ | compareLeft scope _ _ | declare scope _ | assign scope _
  | loop scope _ _ | rangeFirst scope _ | each scope _ _ => anchored scope
  | operand _ scope total _ _ => anchored scope ∧ total.Within kept
  | compareRight value _ | rangeLast value => value.Within kept
  | argument _ scope done _ => anchored scope ∧ Operands kept anchored done

def Pending.Fits : Pending → Prop
  | lines scope _ => anchored scope
  | iterate body last rest => body.Within anchored ∧ last.Within kept ∧ ∀ value ∈ rest, value.Within kept
  | withValue after => after.Fits kept anchored

end Fits

/-- A process whose values and scopes are in use, among bodies of the scopes `around`. -/
inductive Process.Fits (arena : Arena) : List ScopeId → Process → Prop where
  | evaluating {around : List ScopeId} {instruction : Instruction} {scope : ScopeId}
      (anchored : arena.Anchored around scope) : Fits arena around (.evaluating instruction scope)
  | finished {around : List ScopeId} {outcome : Except Failure Flow}
      (within : ∀ flow, outcome = .ok flow → flow.Within arena.Kept) : Fits arena around (.finished outcome)
  | waiting {around : List ScopeId} {pending : Pending} {part : Process}
      (fits : pending.Fits arena.Kept (arena.Anchored around)) (rest : Fits arena around part) :
      Fits arena around (.waiting pending part)
  -- Around the body stands one scope more.
  | inside {around : List ScopeId} {scope parent : ScopeId} {body : Process} (live : arena.Live scope)
      (has : (arena.frame scope).parent = some parent) (anchored : arena.Anchored around parent)
      (rest : Fits arena (scope :: around) body) : Fits arena around (.inside scope body)
  | together {around : List ScopeId} {literal : Literal} {members : List Process}
      (each : ∀ member ∈ members, Fits arena around member) : Fits arena around (.together literal members)
  | collecting {around : List ScopeId} {kind : Access} {scope : ScopeId} {done : List Value}
      {rest : List Instruction} (anchored : arena.Anchored around scope)
      (operands : Operands arena.Kept (arena.Anchored around) done) :
      Fits arena around (.collecting kind scope done rest)
  | sending {around : List ScopeId} {receiver : Value} {message : Message} {arguments : List Value}
      (receives : receiver.Within (arena.Anchored around))
      (delivery : Delivery arena.Kept (arena.Anchored around) (message = .iterate) arguments) :
      Fits arena around (.sending receiver message arguments)
  | naming {around : List ScopeId} {scope : ScopeId} {name : String} {arguments : List Value}
      (anchored : arena.Anchored around scope)
      (delivery : Delivery arena.Kept (arena.Anchored around) (name = Message.iterate.name) arguments) :
      Fits arena around (.naming scope name arguments)
  -- What is called may be used up at once, but arguments become variables and have to be kept.
  | calling {around : List ScopeId} {receiver : Value} {arguments : List Value}
      (receives : receiver.Within (arena.Anchored around)) (all : ∀ value ∈ arguments, value.Within arena.Kept) :
      Fits arena around (.calling receiver arguments)
  | binding {around : List ScopeId} {scope : ScopeId} {parameters : List String} {arguments : List Value}
      {body : Instruction} (anchored : arena.Anchored around scope)
      (all : ∀ value ∈ arguments, value.Within arena.Kept) :
      Fits arena around (.binding scope parameters arguments body)
  | asking {around : List ScopeId} {count : Nat} {library : Library} {function : String}
      {arguments : List Value} (all : ∀ value ∈ arguments, value.Within arena.Kept) :
      Fits arena around (.asking count library function arguments)
  | visiting {around : List ScopeId} {scope : ScopeId} {view : View} {body : Instruction}
      (anchored : arena.Anchored around scope) : Fits arena around (.visiting scope view body)
  | matching {around : List ScopeId} {scope : ScopeId} {body : Instruction} {last : Value} {views : List View}
      (anchored : arena.Anchored around scope) (within : last.Within arena.Kept) :
      Fits arena around (.matching scope body last views)
  | iterating {around : List ScopeId} {body : Value} {last : Flow} {items : List Value}
      (calls : body.Within (arena.Anchored around)) (within : last.Within arena.Kept)
      (all : ∀ value ∈ items, value.Within arena.Kept) : Fits arena around (.iterating body last items)
  | folding {around : List ScopeId} {kind : Fold} {scope : ScopeId} {total : Value}
      {rest : List (String × Instruction)} (anchored : arena.Anchored around scope)
      (within : total.Within arena.Kept) : Fits arena around (.folding kind scope total rest)

namespace Process

variable {arena later : Arena} {around : List ScopeId}

theorem fits_answer {value : Value} (within : value.Within arena.Kept) : Fits arena around (answer value) :=
  .finished fun flow same v has => by
    cases same
    cases has
    exact within

theorem fits_plain (value : Value) (plain : value.handle? = none) : Fits arena around (answer value) :=
  fits_answer (Value.within_of_plain value plain)

theorem fits_failed (failure : Failure) : Fits arena around (finished (.error failure)) :=
  .finished (by simp)

theorem fits_stop : Fits arena around (finished (.ok .stop)) :=
  .finished fun _ same _ has => by cases same; cases has

theorem fits_nothing : Fits arena around (finished (.ok .nothing)) :=
  .finished fun _ same _ has => by cases same; cases has

end Process

section Mono

variable {kept keptLater anchored anchoredLater : ScopeId → Prop}
  (keeps : ∀ scope, kept scope → keptLater scope) (anchors : ∀ scope, anchored scope → anchoredLater scope)

include keeps anchors

theorem Operands.mono {values : List Value} (operands : Operands kept anchored values) :
    Operands keptLater anchoredLater values :=
  ⟨operands.1.imp anchors, fun value member => (operands.2 value member).imp keeps⟩

theorem Delivery.mono {iterates : Prop} {arguments : List Value}
    (delivery : Delivery kept anchored iterates arguments) :
    Delivery keptLater anchoredLater iterates arguments :=
  delivery.imp (fun all value member => (all value member).imp keeps)
    (And.imp_right fun all value member => (all value member).imp anchors)

theorem After.Fits.mono {after : After} (fits : after.Fits kept anchored) :
    after.Fits keptLater anchoredLater := by
  cases after with
  | negate => trivial
  | operand => exact ⟨anchors _ fits.1, fits.2.imp keeps⟩
  | compareRight | rangeLast => exact Value.Within.imp fits keeps
  | argument => exact ⟨anchors _ fits.1, fits.2.mono keeps anchors⟩
  | _ => exact anchors _ fits

theorem Pending.Fits.mono {pending : Pending} (fits : pending.Fits kept anchored) :
    pending.Fits keptLater anchoredLater := by
  cases pending with
  | lines => exact anchors _ fits
  | iterate =>
    exact ⟨fits.1.imp anchors, fun value same => (fits.2.1 value same).imp keeps,
      fun value member => (fits.2.2 value member).imp keeps⟩
  | withValue after => exact After.Fits.mono keeps anchors fits

end Mono

theorem Process.Fits.mono {arena later : Arena} {around : List ScopeId} {process : Process}
    (fits : process.Fits arena around) (keeps : ∀ scope, arena.Kept scope → later.Kept scope)
    (own : ∀ scope ∈ process.owned,
      later.Live scope ∧ (later.frame scope).parent = (arena.frame scope).parent) :
    process.Fits later around := by
  have anchors : ∀ {around : List ScopeId} (scope : ScopeId), arena.Anchored around scope →
      later.Anchored around scope := fun scope anchored => anchored.imp_left (keeps scope)
  have all : ∀ {values : List Value}, (∀ value ∈ values, value.Within arena.Kept) →
      ∀ value ∈ values, value.Within later.Kept := fun good value member => (good value member).imp keeps
  -- Only a body's own scope is not known to be kept; `own` says that it stays and keeps its parent.
  induction fits with
  | evaluating anchored => exact .evaluating (anchors _ anchored)
  | finished within => exact .finished fun flow same value has => (within flow same value has).imp keeps
  | waiting fits rest ih => exact .waiting (Pending.Fits.mono keeps anchors fits) (ih own)
  | inside live has anchored rest ih =>
    obtain ⟨still, parent⟩ := own _ (.head _)
    exact .inside still (parent.trans has) (anchors _ anchored) (ih fun scope member => own scope (.tail _ member))
  | together each ih =>
    exact .together fun member inside => ih member inside fun scope has =>
      own scope (mem_ownedAll.mpr ⟨_, inside, has⟩)
  | collecting anchored operands => exact .collecting (anchors _ anchored) (operands.mono keeps anchors)
  | sending receives delivery => exact .sending (receives.imp anchors) (delivery.mono keeps anchors)
  | naming anchored delivery => exact .naming (anchors _ anchored) (delivery.mono keeps anchors)
  | calling receives good => exact .calling (receives.imp anchors) (all good)
  | binding anchored good => exact .binding (anchors _ anchored) (all good)
  | asking good => exact .asking (all good)
  | visiting anchored => exact .visiting (anchors _ anchored)
  | matching anchored within => exact .matching (anchors _ anchored) (within.imp keeps)
  | iterating calls within good =>
    exact .iterating (calls.imp anchors) (fun value same => (within value same).imp keeps) (all good)
  | folding anchored within => exact .folding (anchors _ anchored) (within.imp keeps)

end RuleScript
