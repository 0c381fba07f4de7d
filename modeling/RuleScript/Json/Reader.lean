import RuleScript.Json.Number

/-! Strict JSON text: one value, no comments, no byte-order mark, no control characters or lone
surrogates in strings, no number beyond the doubles, and a bound on nesting.

Every function takes the characters that are left and answers `none` on malformed text. The number
that each loop counts down starts above the length of the text, and each step reads a character.
-/

set_option autoImplicit false

namespace RuleScript.Json

open RuleScript.Text (isDigit)

def isSpace (c : Char) : Bool :=
  c = ' ' || c = '\t' || c = '\n' || c = '\r'

def skipSpace (chars : List Char) : List Char :=
  chars.dropWhile isSpace

def expect? : List Char → List Char → Option (List Char)
  | [], chars => some chars
  | e :: expected, c :: chars => if e = c then expect? expected chars else none
  | _ :: _, [] => none

def hexValue? (c : Char) : Option Nat :=
  if isDigit c then some (c.toNat - '0'.toNat)
  else if 'a' ≤ c && c ≤ 'f' then some (c.toNat - 'a'.toNat + 10)
  else if 'A' ≤ c && c ≤ 'F' then some (c.toNat - 'A'.toNat + 10)
  else none

def readUnit? : List Char → Option (Nat × List Char)
  | a :: b :: c :: d :: rest => do
    let a ← hexValue? a
    let b ← hexValue? b
    let c ← hexValue? c
    let d ← hexValue? d
    some (((a * 16 + b) * 16 + c) * 16 + d, rest)
  | _ => none

def readUnicode? (chars : List Char) : Option (Char × List Char) := do
  let (unit, rest) ← readUnit? chars
  if 0xD800 ≤ unit && unit < 0xDC00 then
    match rest with
    -- The first half of a pair needs the second one.
    | '\\' :: 'u' :: more => do
      let (low, rest) ← readUnit? more
      if 0xDC00 ≤ low && low < 0xE000 then
        some (Char.ofNat (0x10000 + (unit - 0xD800) * 0x400 + (low - 0xDC00)), rest)
      else none
    | _ => none
  else if 0xDC00 ≤ unit && unit < 0xE000 then none
  else some (Char.ofNat unit, rest)

def simpleEscape? (c : Char) : Option Char :=
  match c with
  | '"' => some '"'
  | '\\' => some '\\'
  | '/' => some '/'
  | 'b' => some (Char.ofNat 8)
  | 'f' => some (Char.ofNat 12)
  | 'n' => some '\n'
  | 'r' => some '\r'
  | 't' => some '\t'
  | _ => none

def readString? : Nat → List Char → List Char → Option (String × List Char)
  | 0, _, _ => none
  | count + 1, read, chars =>
    match chars with
    | [] => none
    | '"' :: rest => some (String.ofList read.reverse, rest)
    | '\\' :: 'u' :: rest =>
      match readUnicode? rest with
      | some (c, rest) => readString? count (c :: read) rest
      | none => none
    | '\\' :: escaped :: rest =>
      match simpleEscape? escaped with
      | some c => readString? count (c :: read) rest
      | none => none
    | ['\\'] => none
    | c :: rest => if c.toNat < 32 then none else readString? count (c :: read) rest

mutual

/-- One value without white space in front; `depth` is how many more levels may be opened. -/
def readValue? : Nat → Nat → List Char → Option (Json × List Char)
  | 0, _, _ => none
  | count + 1, depth, chars =>
    match chars with
    | 'n' :: rest => (expect? ['u', 'l', 'l'] rest).map (.null, ·)
    | 't' :: rest => (expect? ['r', 'u', 'e'] rest).map (.bool true, ·)
    | 'f' :: rest => (expect? ['a', 'l', 's', 'e'] rest).map (.bool false, ·)
    | '"' :: rest => (readString? count [] rest).map fun (text, rest) => (.string text, rest)
    | '[' :: rest =>
      match depth with
      | 0 => none
      | depth + 1 =>
        match skipSpace rest with
        | ']' :: rest => some (.array [], rest)
        | rest => readItems? count depth [] rest
    | '\x7b' :: rest =>
      match depth with
      | 0 => none
      | depth + 1 =>
        match skipSpace rest with
        | '\x7d' :: rest => some (.object [], rest)
        | rest => readMembers? count depth [] rest
    | chars => readNumber? chars

/-- The items of an array from the next one on; `read` holds those before it, last first. -/
def readItems? : Nat → Nat → List Json → List Char → Option (Json × List Char)
  | 0, _, _, _ => none
  | count + 1, depth, read, chars =>
    match readValue? count depth chars with
    | none => none
    | some (item, rest) =>
      match skipSpace rest with
      | ',' :: rest => readItems? count depth (item :: read) (skipSpace rest)
      | ']' :: rest => some (.array (item :: read).reverse, rest)
      | _ => none

def readMembers? : Nat → Nat → List (String × Json) → List Char → Option (Json × List Char)
  | 0, _, _, _ => none
  | count + 1, depth, read, chars =>
    match chars with
    | '"' :: rest =>
      match readString? count [] rest with
      | none => none
      | some (name, rest) =>
        match skipSpace rest with
        | ':' :: rest =>
          match readValue? count depth (skipSpace rest) with
          | none => none
          | some (value, rest) =>
            match skipSpace rest with
            | ',' :: rest => readMembers? count depth ((name, value) :: read) (skipSpace rest)
            | '\x7d' :: rest => some (.object (Fields.ofList ((name, value) :: read).reverse), rest)
            | _ => none
        | _ => none
    | _ => none

end

def readWithin? (depth : Nat) (text : String) : Option Json :=
  let chars := text.toList
  match readValue? (chars.length + 1) depth (skipSpace chars) with
  | some (value, rest) => if (skipSpace rest).isEmpty then some value else none
  | none => none

def maxDepth : Nat := 127

def read? (text : String) : Option Json :=
  readWithin? maxDepth text

end RuleScript.Json
