import RuleScript.Settings.Load

/-! A working directory held in memory. -/

set_option autoImplicit false

namespace RuleScript

structure Directory where
  files : Fields String

namespace Directory

def holds (directory : Directory) (parts : List String) : Bool :=
  parts.isEmpty || directory.files.any fun (path, _) =>
    let all := path.splitOn "/"
    parts.isPrefixOf all && parts != all

/-- The parts of a relative path: a point stays, two points go up, and only directories have parts below
them. A path that leaves the directory has none. -/
def resolve? (directory : Directory) : List String → List String → Option (List String)
  | passed, [] => some passed
  | passed, part :: rest =>
    if !directory.holds passed then none
    else if part.isEmpty || part = "." then resolve? directory passed rest
    else if part = ".." then
      if passed.isEmpty then none else resolve? directory passed.dropLast rest
    else resolve? directory (passed ++ [part]) rest

def read? (directory : Directory) (path : String) : Option String :=
  let parts := path.splitOn "/"
  if parts.head? = some "" then none
  else
    match directory.resolve? [] parts with
    | some parts => Fields.get? directory.files ("/".intercalate parts)
    | none => none

def host (directory : Directory) (environment : Environment.Variables) : Host Id :=
  ⟨directory.read?, environment⟩

end Directory

end RuleScript
