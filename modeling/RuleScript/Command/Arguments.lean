/-! The arguments of the command line.

`run` takes a program, and options for the host's document, the clock, the time zone and the output; `check`
takes a program. The option for the settings file may stand anywhere. -/

set_option autoImplicit false

namespace RuleScript

structure RunRequest where
  program : String
  document : Option String
  clock : Option String
  zone : Option String
  printDocument : Bool
  deriving DecidableEq, Repr

inductive Command where
  | run (request : RunRequest)
  | check (program : String)
  deriving DecidableEq, Repr

structure Invocation where
  settings : Option String
  command : Command
  deriving DecidableEq, Repr

inductive Asked where
  | help
  | invoke (invocation : Invocation)
  deriving DecidableEq, Repr

namespace Arguments

inductive Flag where
  | settings
  | document
  | clock
  | zone
  deriving DecidableEq, Repr

structure Words where
  values : List (Flag × String)
  printDocument : Bool
  help : Bool
  positional : List String

def Words.empty : Words := ⟨[], false, false, []⟩

def Words.value? (words : Words) (option : Flag) : Option String :=
  (words.values.find? fun pair => pair.1 = option).map Prod.snd

/-- Note the value of an option, which may be given once, and whose value must not be empty if it is a path to
the document. -/
def Words.note? (words : Words) (option : Flag) (value : String) : Option Words :=
  if (words.value? option).isSome || (option = .document && value.isEmpty) then none
  else some { words with values := (option, value) :: words.values }

def longOption? (inRun : Bool) (name : String) : Option Flag :=
  -- The settings file may be named at every level.
  if name = "config" then some .settings
  else if !inRun then none
  else if name = "context" then some .document
  else if name = "clock" then some .clock
  else if name = "timezone" then some .zone
  else none

def splitEquals (chars : List Char) : String × Option String :=
  let name := chars.takeWhile (· != '=')
  match chars.drop name.length with
  | _ :: value => (String.ofList name, some (String.ofList value))
  | [] => (String.ofList name, none)

/-- A word that could be the value of an option: a hyphen alone may, other words with a hyphen in front may not. -/
def isValue (word : String) : Bool :=
  match word.toList with
  | '-' :: _ :: _ => false
  | _ => true

/-- The value in a short option after its letter; an equals sign in front is dropped. -/
def attached (chars : List Char) : String :=
  match chars with
  | '=' :: value => String.ofList value
  | value => String.ofList value

def readWords? (inRun : Bool) (words : Words) : List String → Option Words
  | [] => some words
  | word :: rest =>
    match word.toList with
    -- All words after two hyphens are positional.
    | ['-', '-'] => some { words with positional := words.positional ++ rest }
    | '-' :: '-' :: name =>
      match splitEquals name with
      | ("help", none) => some { words with help := true }
      | ("print-context", none) =>
        if inRun && !words.printDocument then
          readWords? inRun { words with printDocument := true } rest
        else none
      | (name, some value) => do
        let option ← longOption? inRun name
        readWords? inRun (← words.note? option value) rest
      | (name, none) => do
        let option ← longOption? inRun name
        match rest with
        | value :: rest =>
          if isValue value then readWords? inRun (← words.note? option value) rest else none
        | [] => none
    | '-' :: 'h' :: _ => some { words with help := true }
    | '-' :: 'c' :: value =>
      if !inRun then none
      else
        match value, rest with
        | _ :: _, rest => do readWords? inRun (← words.note? .document (attached value)) rest
        | [], next :: rest => do
          if isValue next then readWords? inRun (← words.note? .document next) rest else none
        | [], [] => none
    | '-' :: _ :: _ => none
    | _ =>
      if words.positional.isEmpty && !word.isEmpty then
        readWords? inRun { words with positional := [word] } rest
      else none

def program? (words : Words) : Option String :=
  match words.positional with
  | [path] => if path.isEmpty then none else some path
  | _ => none

def isHelpTopic (words : List String) : Bool :=
  words = [] || words = ["run"] || words = ["check"] || words = ["help"]

def readCommand? (settings : Option String) (name : String) (rest : List String) : Option Asked := do
  if name = "help" then if isHelpTopic rest then some .help else none
  else if name != "run" && name != "check" then none
  else
    let words ← readWords? (name = "run") .empty rest
    if words.help then some .help
    else
      let program ← program? words
      let command : Command :=
        if name = "run" then
          .run ⟨program, words.value? .document, words.value? .clock, words.value? .zone,
            words.printDocument⟩
        else .check program
      some (.invoke ⟨words.value? .settings <|> settings, command⟩)

/-- Read the arguments; `none` is a usage error. A settings file named after the command wins. -/
def read? (settings : Option String) : List String → Option Asked
  | [] => none
  | word :: rest =>
    match word.toList with
    | '-' :: '-' :: name =>
      match splitEquals name with
      | ("help", none) => some .help
      | ("config", some value) => if settings.isSome then none else read? (some value) rest
      | ("config", none) =>
        match rest with
        | value :: rest =>
          if isValue value && settings.isNone then read? (some value) rest else none
        | [] => none
      | _ => none
    | '-' :: 'h' :: _ => some .help
    | '-' :: _ :: _ => none
    | _ => readCommand? settings word rest

end Arguments

end RuleScript
