import RuleScript.Fields
import RuleScript.Text.Blank
import RuleScript.Text.Letter

/-! Environment variables, and files that set more of them.

Such a file has one variable a line, `NAME=value`, with `export` allowed in front. Values may be quoted: single
quotes keep everything, double quotes know escapes and `$NAME`. A quoted value may go over several lines.
A malformed line ends the reading; the variables before it stay.
-/

set_option autoImplicit false

namespace RuleScript.Environment

open RuleScript.Text (isDigit)

abbrev Variables := Fields String

/-- Where the reading of a line stands. -/
inductive LineState where
  | plain
  | blank
  | escape
  | weak
  | weakEscape
  | strong
  | strongEscape
  | comment
  deriving DecidableEq, Repr

def LineState.ofWord (c : Char) : LineState :=
  if c = '\\' then escape else if c = '"' then weak else if c = '\'' then strong else plain

def LineState.next (state : LineState) (c : Char) : LineState :=
  match state with
  | plain => if Text.isBlank c && c != '\n' && c != '\r' then blank else ofWord c
  | blank => if c = '#' then comment else ofWord c
  | escape => plain
  | weak => if c = '\\' then weakEscape else if c = '"' then plain else weak
  | weakEscape => weak
  | strong => if c = '\\' then strongEscape else if c = '\'' then plain else strong
  | strongEscape => strong
  | comment => comment

def splitLine : List Char → List Char × List Char
  | [] => ([], [])
  | '\n' :: rest => (['\n'], rest)
  | c :: rest =>
    let (line, after) := splitLine rest
    (c :: line, after)

def scanLine (state : LineState) (kept : List Char) : List Char → LineState × List Char
  | [] => (state, kept)
  | c :: rest =>
    match state.next c with
    | .comment => (.comment, kept)
    | next => scanLine next (c :: kept) rest

def dropBreak : List Char → List Char
  | '\n' :: '\r' :: rest => rest
  | '\n' :: rest => rest
  | kept => kept

/-- The next logical line and what follows; `none` if the text ends inside of quotes. -/
def readLine? : Nat → LineState → List Char → List Char → Option (List Char × List Char)
  | 0, _, _, _ => none
  | count + 1, state, kept, chars =>
    match chars with
    | [] => none
    | chars =>
      let (line, rest) := splitLine chars
      if (Text.trimLeft (kept.reverse ++ line)).head? = some '#' then some ([], rest)
      else
        match scanLine state kept line with
        | (.plain, kept) => some ((dropBreak kept).reverse, rest)
        | (.comment, kept) => some (kept.reverse, rest)
        | (state, kept) => readLine? count state kept rest

inductive Pending where
  | none
  | bare (name : List Char)
  | braced (name : List Char)

structure ValueState where
  output : List Char
  strong : Bool
  weak : Bool
  escaped : Bool
  /-- Only blanks and a comment may follow. -/
  ended : Bool
  pending : Pending

def ValueState.start : ValueState := ⟨[], false, false, false, false, .none⟩

def ValueState.substitute (lookUp : String → String) (state : ValueState) (name : List Char) :
    ValueState :=
  let value := (lookUp (String.ofList name.reverse)).toList
  { state with output := value.reverse ++ state.output, pending := .none }

def ValueState.push (state : ValueState) (c : Char) : ValueState :=
  { state with output := c :: state.output }

def ValueState.inName (lookUp : String → String) (state : ValueState) (c : Char) : ValueState :=
  match state.pending with
  | .none => state
  | .bare name =>
    if Text.isAlphanumeric c then { state with pending := .bare (c :: name) }
    else if c = '\x7b' && name.isEmpty then { state with pending := .braced [] }
    else
      -- The name has ended, and this character may begin another one.
      let state := state.substitute lookUp name
      if c = '$' then { state with pending := .bare [] } else state.push c
  | .braced name =>
    if c = '\x7d' then state.substitute lookUp name
    else { state with pending := .braced (c :: name) }

def ValueState.inPlain (state : ValueState) (c : Char) : ValueState :=
  if c = '\'' then { state with strong := true }
  else if c = '"' then { state with weak := true }
  else if c = '\\' then { state with escaped := true }
  else if c = ' ' || c = '\t' then { state with ended := true }
  else state.push c

def ValueState.inWeak (state : ValueState) (c : Char) : ValueState :=
  if c = '"' then { state with weak := false }
  else if c = '\\' then { state with escaped := true }
  else state.push c

def escapeOf? (c : Char) : Option Char :=
  if c = 'n' then some '\n'
  else if c = '\\' || c = '\'' || c = '"' || c = '$' || c = ' ' then some c
  else none

def readValue? (lookUp : String → String) (state : ValueState) : List Char → Option String
  | [] =>
    match state.pending with
    | .braced _ => none
    | .bare name =>
      if state.strong || state.weak then none
      else some (String.ofList (state.substitute lookUp name).output.reverse)
    | .none => if state.strong || state.weak then none else some (String.ofList state.output.reverse)
  | c :: rest =>
    if state.ended then
      if c = ' ' || c = '\t' then readValue? lookUp state rest
      else if c = '#' then some (String.ofList state.output.reverse)
      else none
    else if state.escaped then
      match escapeOf? c with
      | some e => readValue? lookUp { state.push e with escaped := false } rest
      | none => none
    else if state.strong then
      if c = '\'' then readValue? lookUp { state with strong := false } rest
      else readValue? lookUp (state.push c) rest
    else
      match state.pending with
      | .none =>
        if c = '$' then readValue? lookUp { state with pending := .bare [] } rest
        else if state.weak then readValue? lookUp (state.inWeak c) rest
        else readValue? lookUp (state.inPlain c) rest
      | _ => readValue? lookUp (state.inName lookUp c) rest

def readName? (chars : List Char) : Option (String × List Char) :=
  match chars with
  | c :: _ =>
    if c.isAlpha || c = '_' then
      let name := chars.takeWhile fun c => c.isAlphanum || c = '_' || c = '.'
      some (String.ofList name, chars.drop name.length)
    else none
  | [] => none

def afterEquals? : List Char → Option (List Char)
  | '=' :: rest => some rest
  | _ => none

def splitAssignment? (chars : List Char) : Option (String × List Char) := do
  let (name, rest) ← readName? chars
  let rest := Text.trimLeft rest
  match afterEquals? rest with
  | some value => some (name, value)
  | none =>
    if name != "export" then none
    else
      let (name, rest) ← readName? rest
      some (name, ← afterEquals? (Text.trimLeft rest))

/-- What a line sets: an empty line nothing. White space at its end is no part of it. -/
def readAssignment? (lookUp : String → String) (line : List Char) :
    Option (Option (String × String)) :=
  match Text.trim line with
  | [] => some none
  | '#' :: _ => some none
  | chars => do
    let (name, value) ← splitAssignment? chars
    match Text.trimLeft value with
    | [] => some (some (name, ""))
    | '#' :: _ => some (some (name, ""))
    | value => do some (some (name, ← readValue? lookUp .start value))

/-- Whether a variable can hold a value: none holds a NUL. -/
def isSettable (value : String) : Bool :=
  !value.toList.contains (Char.ofNat 0)

/-- Add the variables of a text to the known ones. One that is known already keeps its value. `earlier` are the
values in the text so far, which a later value may refer to. -/
def loadFrom? : Nat → Variables → Variables → List Char → Option Variables
  | 0, known, _, _ => some known
  | count + 1, known, earlier, chars =>
    match readLine? (chars.length + 1) .plain [] chars with
    | none => some known
    | some (line, rest) =>
      let lookUp (name : String) : String :=
        (Fields.get? known name).getD ((Fields.get? earlier name).getD "")
      match readAssignment? lookUp line with
      | none => some known
      | some none => loadFrom? count known earlier rest
      | some (some (name, value)) =>
        let earlier := Fields.put earlier name value
        if Fields.contains known name then loadFrom? count known earlier rest
        else if isSettable value then loadFrom? count (Fields.put known name value) earlier rest
        else none

def load? (known : Variables) (text : String) : Option Variables :=
  loadFrom? (text.length + 1) known [] text.toList

end RuleScript.Environment
