import RuleScript.Settings.Toml
import RuleScript.Settings.Environment

/-! Settings from all their sources, the lowest priority first: what is built in, a file, environment variables,
and what the caller asks for. -/

set_option autoImplicit false

namespace RuleScript

/-- Where settings, programs and documents come from: files by relative path, and environment variables. -/
structure Host (m : Type → Type) where
  read? : String → m (Option String)
  environment : Environment.Variables

structure Settings where
  clock : Option String
  zone : Option String
  /-- What is logged. -/
  filter : String
  deriving DecidableEq, Repr

structure SettingsRequest where
  path : Option String
  clock : Option String
  zone : Option String
  filter : Option String

inductive SettingsError where
  /-- A source is missing or malformed, or sets what is no text; a file may have been named. -/
  | unreadable (path : Option String)
  /-- A position lies before the first item of its list. -/
  | misplaced
  /-- A variable is to hold what none can. -/
  | unsettable
  deriving DecidableEq, Repr

def SettingsError.message : SettingsError → String
  | unreadable (some path) => "Failed to load configuration from " ++ path
  | unreadable none => "Failed to load configuration"
  | misplaced => "a setting lies before the start of its list"
  | unsettable => "a variable cannot hold a NUL"

namespace Settings

def variableStart : String := "verdict_"

def pathVariable : String := "VERDICT_CONFIG_PATH"

def defaultFile : String := "verdict"

def defaults : Setting :=
  .table [("logging", .table [("filter", .text "warn")])]

def readFormat? (ending : String) (text : String) : Option (Fields Setting) :=
  match ending with
  | "toml" => Toml.read? text
  | "json" =>
    match Json.read? text with
    | some (.object members) => some (Setting.ofJson (.object members)).entries
    | _ => none
  | _ => none

def fileName (path : String) : List Char :=
  (path.toList.reverse.takeWhile (· != '/')).reverse

/-- The ending of a file's name, after the last point; a point in front of a name is no ending. -/
def endingOf (path : String) : String :=
  let reversed := (fileName path).reverse
  let ending := reversed.takeWhile (· != '.')
  if ending.length + 1 < reversed.length then String.ofList ending.reverse else ""

def dropSlashes : List Char → List Char
  | '/' :: rest => dropSlashes rest
  | '.' :: '/' :: rest => dropSlashes rest
  | chars => chars

/-- The files that a path may mean, with their endings: the file itself, or else one with an ending added. -/
def candidates (path : String) : List (String × String) :=
  let stem := String.ofList (dropSlashes path.toList.reverse).reverse
  let name := String.ofList (fileName stem)
  let extended := if name = "" || name = "." || name = ".." then []
    else [(stem ++ ".toml", "toml"), (stem ++ ".json", "json")]
  (path, endingOf path) :: extended

section

variable {m : Type → Type} [Monad m]

def firstFile? (host : Host m) : List (String × String) → m (Option (String × String))
  | [] => pure none
  | (path, ending) :: rest => do
    match ← host.read? path with
    | some text => pure (some (ending, text))
    | none => firstFile? host rest

def find? (host : Host m) (path : String) : m (Option (String × String)) :=
  firstFile? host (candidates path)

/-- The entries of the settings file; a file that was not asked for may be missing, or have no known format. -/
def readFile? (host : Host m) (path : Option String) : m (Option (Fields Setting)) := do
  match path with
  | some path =>
    match ← find? host path with
    | some (ending, text) => pure (readFormat? ending text)
    | none => pure none
  | none =>
    match ← find? host defaultFile with
    | some ("", _) => pure (some [])
    | some (ending, text) => pure (readFormat? ending text)
    | none => pure (some [])

end

def ofVariable? (name : String) : Option String :=
  let lower := (Text.toLower name).toList
  let start := variableStart.toList
  if start.isPrefixOf lower then
    some (".".intercalate ((String.ofList (lower.drop start.length)).splitOn "__"))
  else none

def ofEnvironment (environment : Environment.Variables) : Fields Setting :=
  environment.filterMap fun (name, value) => (ofVariable? name).map fun key => (key, .text value)

def optional? : Option Setting → Option (Option String)
  | none | some .nothing => some none
  | some value => value.toText?.map some

/-- The entries of a section, which has to be a table, or a list of the values of `names` in that order. -/
def entriesOf? (tree : Setting) (title : String) (names : List String) : Option (Fields Setting) :=
  match Fields.get? tree.entries title with
  | none => some []
  | some (.table entries) => some entries
  | some (.list items) => some (names.zip items)
  | some _ => none

def ofSetting? (tree : Setting) : Option Settings := do
  let program ← entriesOf? tree "program" ["clock", "timezone"]
  let logging ← entriesOf? tree "logging" ["filter"]
  some {
    clock := ← optional? (Fields.get? program "clock")
    zone := ← optional? (Fields.get? program "timezone")
    filter := ← match Fields.get? logging "filter" with
      | some value => value.toText?
      | none => some "warn" }

/-- The tree of all sources, each written over those before it. -/
def merge? (file : Fields Setting) (environment : Environment.Variables) (request : SettingsRequest) :
    Option Setting := do
  let tree ← defaults.overlay? file
  let tree ← tree.overlay? (ofEnvironment environment)
  let asked := [("program.clock", request.clock), ("program.timezone", request.zone),
    ("logging.filter", request.filter)]
  tree.overlay? (asked.filterMap fun (name, value) => value.map fun text => (name, .text text))

def loadWith {m : Type → Type} [Monad m] (host : Host m) (environment : Environment.Variables)
    (request : SettingsRequest) : m (Except SettingsError Settings) := do
  let path := request.path <|> Fields.get? environment pathVariable
  match ← readFile? host path with
  | none => pure (.error (.unreadable path))
  | some file =>
    match merge? file environment request with
    | none => pure (.error .misplaced)
    | some tree =>
      match ofSetting? tree with
      | some settings => pure (.ok settings)
      | none => pure (.error (.unreadable path))

/-- Load the settings. A file named by the caller wins over one named by a variable. -/
def load {m : Type → Type} [Monad m] (host : Host m) (request : SettingsRequest) :
    m (Except SettingsError Settings) := do
  match ← host.read? ".env" with
  | none => loadWith host host.environment request
  | some text =>
    match Environment.load? host.environment (Text.withoutMark text) with
    | some environment => loadWith host environment request
    | none => pure (.error .unsettable)

end Settings

end RuleScript
