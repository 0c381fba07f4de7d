/-! Named fields in the order in which their names were first written.

Writing a name that is present keeps its position, a new name goes to the end. Host objects,
objects made by a script and the variables of a scope are all fields.
-/

set_option autoImplicit false

namespace RuleScript

/-- Pairs of a name and what it holds; no name stands twice in fields built by `put`. -/
abbrev Fields (α : Type) := List (String × α)

namespace Fields

variable {α : Type}

def get? : Fields α → String → Option α
  | [], _ => none
  | (key, value) :: rest, name => if key = name then some value else get? rest name

def contains : Fields α → String → Bool
  | [], _ => false
  | (key, _) :: rest, name => key = name || contains rest name

/-- Overwrite `name` where it stands, or append it. -/
def put : Fields α → String → α → Fields α
  | [], name, value => [(name, value)]
  | (key, old) :: rest, name, value =>
    if key = name then (key, value) :: rest else (key, old) :: put rest name value

/-- Write the pairs one after another: a repeated name keeps its first position and its last value. -/
def ofList (pairs : List (String × α)) : Fields α :=
  pairs.foldl (fun fields pair => put fields pair.1 pair.2) []

theorem contains_eq_isSome (fields : Fields α) (name : String) :
    contains fields name = (get? fields name).isSome := by
  induction fields with
  | nil => rfl
  | cons head rest ih =>
    by_cases h : head.1 = name <;> simp [contains, get?, h, ih]

@[simp] theorem get?_put_self (fields : Fields α) (name : String) (value : α) :
    get? (put fields name value) name = some value := by
  induction fields with
  | nil => simp [put, get?]
  | cons head rest ih =>
    by_cases h : head.1 = name <;> simp [put, get?, h, ih]

theorem get?_put_of_ne (fields : Fields α) {name other : String} (value : α)
    (different : other ≠ name) : get? (put fields name value) other = get? fields other := by
  induction fields with
  | nil => simp [put, get?, Ne.symm different]
  | cons head rest ih =>
    by_cases h : head.1 = name
    · simp [put, get?, h, Ne.symm different]
    · by_cases g : head.1 = other
      · subst g; simp [put, get?, h]
      · simp [put, get?, h, g, ih]

theorem keys_put (fields : Fields α) (name : String) (value : α) :
    (put fields name value).map Prod.fst =
      if contains fields name then fields.map Prod.fst else fields.map Prod.fst ++ [name] := by
  induction fields with
  | nil => simp [put, contains]
  | cons head rest ih =>
    by_cases h : head.1 = name
    · simp [put, contains, h]
    · cases c : contains rest name <;> simp [put, contains, h, ih, c]

end Fields

end RuleScript
