import RuleScript.Settings.Value
import RuleScript.Calendar.Reading
import RuleScript.Json.Reader

/-! Settings files in TOML.

A text is read into a tree that remembers how each table came to be, since a table may be defined only once.
All readers answer `none` on malformed text.
-/

set_option autoImplicit false

namespace RuleScript.Toml

open RuleScript.Text (isDigit digitsValue)

/-- How a table came to be: by a header of its own, as a part of a header's or of a key's name. -/
inductive Origin where
  | header
  | implied
  | dotted
  deriving DecidableEq, Repr

inductive Item where
  | value (value : Setting)
  | table (origin : Origin) (entries : List (String × Item))
  /-- An array of tables, the latest first. -/
  | tables (latest : List (String × Item)) (before : List (List (String × Item)))
  deriving Inhabited

abbrev Entries := Fields Item

def atHeader (change : Entries → Option Entries) : List String → Entries → Option Entries
  | [], entries => change entries
  | name :: rest, entries => do
    match Fields.get? entries name with
    | none => return Fields.put entries name (.table .implied (← atHeader change rest []))
    | some (.table origin inner) =>
      return Fields.put entries name (.table origin (← atHeader change rest inner))
    | some (.tables latest before) =>
      return Fields.put entries name (.tables (← atHeader change rest latest) before)
    | some (.value _) => none

def openTable (name : String) (entries : Entries) : Option Entries :=
  match Fields.get? entries name with
  | none => some (Fields.put entries name (.table .header []))
  | some (.table .implied inner) => some (Fields.put entries name (.table .header inner))
  | _ => none

def openNext (name : String) (entries : Entries) : Option Entries :=
  match Fields.get? entries name with
  | none => some (Fields.put entries name (.tables [] []))
  | some (.tables latest before) => some (Fields.put entries name (.tables [] (latest :: before)))
  | _ => none

/-- Define a key with a value below a table; `isOpen` tells whether the table itself takes the key. Only tables that
keys have made do, others are passed through. -/
def defineBelow (value : Setting) (isOpen : Bool) : List String → Entries → Option Entries
  | [], _ => none
  | [name], entries =>
    if !isOpen || Fields.contains entries name then none
    else some (Fields.put entries name (.value value))
  | name :: rest, entries => do
    match Fields.get? entries name with
    | none => return Fields.put entries name (.table .dotted (← defineBelow value true rest []))
    | some (.table .header _) => none
    | some (.table origin inner) =>
      return Fields.put entries name (.table origin (← defineBelow value (origin = .dotted) rest inner))
    | some (.tables latest before) =>
      return Fields.put entries name (.tables (← defineBelow value false rest latest) before)
    | some (.value _) => none

def define (value : Setting) (key : List String) (entries : Entries) : Option Entries :=
  defineBelow value true key entries

/-- The table of written entries, taken in the order of their names. -/
def tableOf (entries : List (String × Setting)) : Setting :=
  .ofWritten (entries.mergeSort fun first second => (Ord.compare first.1 second.1).isLE)

mutual

def Item.setting : Item → Setting
  | .value value => value
  | .table _ entries => tableOf (settings entries)
  | .tables latest before => .list ((settingsOfAll before).reverse ++ [tableOf (settings latest)])

def settings : List (String × Item) → List (String × Setting)
  | [] => []
  | (name, item) :: rest => (name, item.setting) :: settings rest

def settingsOfAll : List (List (String × Item)) → List Setting
  | [] => []
  | entries :: rest => tableOf (settings entries) :: settingsOfAll rest

end

def isBlank (c : Char) : Bool := c = ' ' || c = '\t'

def skipBlanks (chars : List Char) : List Char := chars.dropWhile isBlank

def isAllowed (c : Char) : Bool := c = '\t' || (32 ≤ c.toNat && c.toNat != 127)

def skipComment? : List Char → Option (List Char)
  | '#' :: rest =>
    let after := rest.dropWhile isAllowed
    match after with
    | [] | '\n' :: _ | '\r' :: '\n' :: _ => some after
    | _ => none
  | chars => some chars

def newline? : List Char → Option (List Char)
  | '\n' :: rest => some rest
  | '\r' :: '\n' :: rest => some rest
  | _ => none

def endLine? (chars : List Char) : Option (List Char) := do
  let rest ← skipComment? (skipBlanks chars)
  match rest with
  | [] => some []
  | rest => newline? rest

def skipLines? : Nat → List Char → Option (List Char)
  | 0, chars => some chars
  | count + 1, chars => do
    let rest ← skipComment? (skipBlanks chars)
    match newline? rest with
    | some rest => skipLines? count rest
    | none => some rest

/-! ## Strings -/

def readCode? (digits : Nat) (chars : List Char) : Option (Char × List Char) := do
  let values ← (chars.take digits).mapM Json.hexValue?
  if values.length < digits then none
  else
    let code := values.foldl (fun n d => n * 16 + d) 0
    if code.isValidChar then some (Char.ofNat code, chars.drop digits) else none

def readEscape? : List Char → Option (Char × List Char)
  | 'b' :: rest => some (Char.ofNat 8, rest)
  | 't' :: rest => some ('\t', rest)
  | 'n' :: rest => some ('\n', rest)
  | 'f' :: rest => some (Char.ofNat 12, rest)
  | 'r' :: rest => some ('\r', rest)
  | '"' :: rest => some ('"', rest)
  | '\\' :: rest => some ('\\', rest)
  | 'u' :: rest => readCode? 4 rest
  | 'U' :: rest => readCode? 8 rest
  | _ => none

/-- The rest of a string on one line; `quote` ends it, and only double quotes know escapes. -/
def readLine? (quote : Char) : Nat → List Char → List Char → Option (String × List Char)
  | 0, _, _ => none
  | count + 1, read, chars =>
    match chars with
    | [] => none
    | c :: rest =>
      if c = quote then some (String.ofList read.reverse, rest)
      else if c = '\\' && quote = '"' then
        match readEscape? rest with
        | some (c, rest) => readLine? quote count (c :: read) rest
        | none => none
      else if isAllowed c then readLine? quote count (c :: read) rest
      else none

def skipBreaks : List Char → List Char
  | '\r' :: '\n' :: rest => skipBreaks rest
  | c :: rest => if isBlank c || c = '\n' then skipBreaks rest else c :: rest
  | [] => []

/-- What a backslash at the end of a line hides: blanks and line breaks up to the next character. -/
def lineContinuation? (chars : List Char) : Option (List Char) :=
  (newline? (skipBlanks chars)).map skipBreaks

/-- The rest of a string over lines; three quotes end it, and up to two more belong to the text. -/
def readLines? (quote : Char) : Nat → List Char → List Char → Option (String × List Char)
  | 0, _, _ => none
  | count + 1, read, chars =>
    match chars with
    | [] => none
    | c :: rest =>
      if c = quote then
        let quotes := (chars.takeWhile (· = quote)).length
        -- Up to two quotes in front of the closing three are text.
        if quotes < 3 then readLines? quote count (c :: read) rest
        else if 5 < quotes then none
        else
          some (String.ofList (read.reverse ++ List.replicate (quotes - 3) quote), chars.drop quotes)
      else if c = '\\' && quote = '"' then
        match readEscape? rest with
        | some (c, rest) => readLines? quote count (c :: read) rest
        | none =>
          match lineContinuation? rest with
          | some rest => readLines? quote count read rest
          | none => none
      else if isAllowed c || c = '\n' then readLines? quote count (c :: read) rest
      else
        match newline? chars with
        | some rest => readLines? quote count ('\n' :: read) rest
        | none => none

def readString? (count : Nat) (chars : List Char) : Option (String × List Char) :=
  match chars with
  | '"' :: '"' :: '"' :: rest => readLines? '"' count [] ((newline? rest).getD rest)
  | '\'' :: '\'' :: '\'' :: rest => readLines? '\'' count [] ((newline? rest).getD rest)
  | '"' :: rest => readLine? '"' count [] rest
  | '\'' :: rest => readLine? '\'' count [] rest
  | _ => none

def isBare (c : Char) : Bool :=
  ('a' ≤ c && c ≤ 'z') || ('A' ≤ c && c ≤ 'Z') || isDigit c || c = '_' || c = '-'

def readName? (count : Nat) (chars : List Char) : Option (String × List Char) :=
  match chars with
  | '"' :: rest => readLine? '"' count [] rest
  | '\'' :: rest => readLine? '\'' count [] rest
  | chars =>
    let word := chars.takeWhile isBare
    if word.isEmpty then none else some (String.ofList word, chars.dropWhile isBare)

def maxDepth : Nat := 79

def readNames? : Nat → List Char → Option (List String × List Char)
  | 0, _ => none
  | count + 1, chars => do
    let (name, rest) ← readName? count (skipBlanks chars)
    match skipBlanks rest with
    | '.' :: rest =>
      let (names, rest) ← readNames? count rest
      some (name :: names, rest)
    | rest => some ([name], rest)

def readKey? (count : Nat) (chars : List Char) : Option (List String × List Char) := do
  let (names, rest) ← readNames? count chars
  if names.length ≤ maxDepth then some (names, rest) else none

/-! ## Numbers, dates and times -/

def plainDigits? (isDigit : Char → Bool) (chars : List Char) : Option (List Char) :=
  let parts := (String.ofList chars).splitOn "_"
  if parts.all fun part => !part.isEmpty && part.all isDigit then
    some (chars.filter (· != '_'))
  else none

def wholeDigits? (chars : List Char) : Option (List Char) := do
  let digits ← plainDigits? isDigit chars
  match digits with
  | '0' :: _ :: _ => none
  | digits => some digits

def inRange? (n : Int) : Option Setting :=
  if Decimal.int64Min ≤ n && n ≤ Decimal.int64Max then some (.integer n) else none

def readBase? (base : Nat) (chars : List Char) : Option Setting := do
  let isOwn (c : Char) : Bool := match Json.hexValue? c with
    | some d => d < base
    | none => false
  let digits ← plainDigits? isOwn chars
  let values ← digits.mapM Json.hexValue?
  inRange? (values.foldl (fun n d => n * base + d) 0 : Nat)

/-- A number with a fraction or an exponent, from its whole part and what follows it. None is as great as
positive infinity. -/
def readFraction? (negative : Bool) (whole rest : List Char) : Option Setting := do
  let (fraction, rest) ← match rest with
    | '.' :: more => do
      let part := more.takeWhile fun c => isDigit c || c = '_'
      some (← plainDigits? isDigit part, more.drop part.length)
    | rest => some ([], rest)
  let exponent : Int ← match rest with
    | [] => some 0
    | mark :: more => do
      if mark != 'e' && mark != 'E' then none
      else
        let (down, digits) := Decimal.splitSign more
        let n := digitsValue (← plainDigits? isDigit digits)
        some (if down then -(n : Int) else n)
  let numeral : Decimal.Numeral :=
    ⟨negative, digitsValue (whole ++ fraction), exponent - fraction.length⟩
  let x := numeral.toFloat
  if x.isInf && !negative then none else some (.float x)

def readNumber? (chars : List Char) : Option Setting := do
  let (negative, unsigned) := Decimal.splitSign chars
  if unsigned = ['i', 'n', 'f'] then some (.float (if negative then -1.0 / 0.0 else 1.0 / 0.0))
  else if unsigned = ['n', 'a', 'n'] then some (.float (0.0 / 0.0))
  else
    let part := unsigned.takeWhile fun c => isDigit c || c = '_'
    let whole ← wholeDigits? part
    match unsigned.drop part.length with
    | [] =>
      let n := digitsValue whole
      inRange? (if negative then -(n : Int) else n)
    | rest => readFraction? negative whole rest

def fractionText (nanos : Nat) : String :=
  if nanos = 0 then ""
  else
    let digits := (Calendar.padded 9 nanos).toList.reverse.dropWhile (· = '0')
    "." ++ String.ofList digits.reverse

def readTime? (chars : List Char) : Option (String × List Char) := do
  let (hour, rest) ← Calendar.number? 2 2 chars
  let rest ← Calendar.literal? ':' rest
  let (minute, rest) ← Calendar.number? 2 2 rest
  let rest ← Calendar.literal? ':' rest
  let (second, rest) ← Calendar.number? 2 2 rest
  let (nanos, rest) ← Calendar.optionalFraction? rest
  -- Second 60 is a leap second; that it ends a minute of UTC is not checked.
  if hour ≤ 23 && minute ≤ 59 && second ≤ 60 then
    some (Calendar.padded 2 hour ++ ":" ++ Calendar.padded 2 minute ++ ":" ++
      Calendar.padded 2 second ++ fractionText nanos, rest)
  else none

def readDateTime? (chars : List Char) : Option (String × List Char) := do
  let (year, rest) ← Calendar.number? 4 4 chars
  let rest ← Calendar.literal? '-' rest
  let (month, rest) ← Calendar.number? 2 2 rest
  let rest ← Calendar.literal? '-' rest
  let (day, rest) ← Calendar.number? 2 2 rest
  if !(Calendar.Civil.exists ⟨year, month, day⟩) then none
  else
    let date := Calendar.padded 4 year ++ "-" ++ Calendar.padded 2 month ++ "-" ++
      Calendar.padded 2 day
    let timed : Option (List Char) := match rest with
      | 'T' :: more | 't' :: more => some more
      -- A blank separates a time only if a digit follows.
      | ' ' :: d :: more => if isDigit d then some (d :: more) else none
      | _ => none
    match timed with
    | none => some (date, rest)
    | some more => do
      let (time, rest) ← readTime? more
      match rest with
      | 'Z' :: rest | 'z' :: rest => some (date ++ "T" ++ time ++ "Z", rest)
      | '+' :: _ | '-' :: _ => do
        let (offset, rest) ← Calendar.offset? rest
        let sign := if offset < 0 then "-" else "+"
        let minutes := offset.natAbs / 60
        some (date ++ "T" ++ time ++ sign ++ Calendar.padded 2 (minutes / 60) ++ ":" ++
          Calendar.padded 2 (minutes % 60), rest)
      | rest => some (date ++ "T" ++ time, rest)

def isWordChar (c : Char) : Bool :=
  isBare c || c = '+' || c = '.' || c = ':'

/-- A value that is neither a string nor a list or table. Dates and times are kept as texts. -/
def readWord? (chars : List Char) : Option (Setting × List Char) := do
  let word := chars.takeWhile isWordChar
  let rest := chars.drop word.length
  match word with
  | ['t', 'r', 'u', 'e'] => some (.bool true, rest)
  | ['f', 'a', 'l', 's', 'e'] => some (.bool false, rest)
  | '0' :: 'x' :: digits => do some (← readBase? 16 digits, rest)
  | '0' :: 'o' :: digits => do some (← readBase? 8 digits, rest)
  | '0' :: 'b' :: digits => do some (← readBase? 2 digits, rest)
  | _ =>
    if (word.drop 4).head? = some '-' && word.head?.any isDigit && (word.take 4).all isDigit then do
      let (text, rest) ← readDateTime? chars
      some (.text text, rest)
    else if (word.drop 2).head? = some ':' then do
      let (text, rest) ← readTime? chars
      some (.text text, rest)
    else do some (← readNumber? word, rest)

/-! ## Values and lines -/

mutual

/-- A value; `count` bounds the steps and starts above the length of the text, `depth` is how many more lists and
tables may be opened. -/
def readValue? : Nat → Nat → List Char → Option (Setting × List Char)
  | 0, _, _ => none
  | count + 1, depth, chars =>
    match chars with
    | '"' :: _ | '\'' :: _ => (readString? count chars).map fun (text, rest) => (.text text, rest)
    | '[' :: rest =>
      match depth with
      | 0 => none
      | depth + 1 => readItems? count depth [] rest
    | '\x7b' :: rest =>
      match depth with
      | 0 => none
      | depth + 1 =>
        match skipBlanks rest with
        | '\x7d' :: rest => some (.table [], rest)
        | rest => readInline? count depth [] rest
    | chars => readWord? chars

def readItems? : Nat → Nat → List Setting → List Char → Option (Setting × List Char)
  | 0, _, _, _ => none
  | count + 1, depth, read, chars =>
    match skipLines? count chars with
    | none => none
    | some (']' :: rest) => some (.list read.reverse, rest)
    | some chars =>
      match readValue? count depth chars with
      | none => none
      | some (item, rest) =>
        match skipLines? count rest with
        | some (',' :: rest) => readItems? count depth (item :: read) rest
        | some (']' :: rest) => some (.list (item :: read).reverse, rest)
        | _ => none

def readInline? : Nat → Nat → Entries → List Char → Option (Setting × List Char)
  | 0, _, _, _ => none
  | count + 1, depth, entries, chars =>
    match readKey? count chars with
    | some (key, '=' :: rest) =>
      match readValue? count depth (skipBlanks rest) with
      | none => none
      | some (value, rest) =>
        match define value key entries with
        | none => none
        | some entries =>
          match skipBlanks rest with
          | ',' :: rest => readInline? count depth entries rest
          | '\x7d' :: rest => some (tableOf (settings entries), rest)
          | _ => none
    | _ => none

end

def readHeader? (count : Nat) (chars : List Char) : Option (List String × Bool × List Char) := do
  match chars with
  | '[' :: rest => do
    let (key, rest) ← readKey? count rest
    match rest with
    | ']' :: ']' :: rest => some (key, true, rest)
    | _ => none
  | rest => do
    let (key, rest) ← readKey? count rest
    match rest with
    | ']' :: rest => some (key, false, rest)
    | _ => none

def readFrom? : Nat → List String → Entries → List Char → Option Entries
  | 0, _, _, _ => none
  | count + 1, current, entries, chars => do
    match ← skipLines? count chars with
    | [] => some entries
    | '[' :: rest =>
      let (path, isArray, rest) ← readHeader? count rest
      let name ← path.getLast?
      let entries ← atHeader (if isArray then openNext name else openTable name) path.dropLast entries
      readFrom? count path entries (← endLine? rest)
    | chars =>
      let (key, rest) ← readKey? count chars
      match rest with
      | '=' :: rest =>
        let (value, rest) ← readValue? count maxDepth (skipBlanks rest)
        let entries ← atHeader (define value key) current entries
        readFrom? count current entries (← endLine? rest)
      | _ => none

def read? (text : String) : Option (Fields Setting) :=
  let chars := (Text.withoutMark text).toList
  (readFrom? (chars.length + 2) [] [] chars).map fun entries => (tableOf (settings entries)).entries

end RuleScript.Toml
