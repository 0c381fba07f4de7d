/-! The messages that values understand.

Every operation on a value is a message. The known messages are a closed set; any other name is kept,
since a scope may resolve it as the name of a function.
-/

set_option autoImplicit false

namespace RuleScript

inductive Message where
  | add
  | sub
  | mul
  | div
  | compare
  | neg
  | and
  | or
  | isEmpty
  /-- Answered as `isEmpty` followed by `neg`. -/
  | isNotEmpty
  | iterate
  | get
  | set
  | has
  | call
  | length
  | toUpper
  | toLower
  | start
  | finish
  | date
  | named (name : String)
  deriving DecidableEq, Repr

namespace Message

def name : Message → String
  | add => "add"
  | sub => "sub"
  | mul => "mul"
  | div => "div"
  | compare => "compare"
  | neg => "neg"
  | and => "and"
  | or => "or"
  | isEmpty => "isEmpty"
  | isNotEmpty => "isNotEmpty"
  | iterate => "iterate"
  | get => "get"
  | set => "set"
  | has => "has"
  | call => "call"
  | length => "length"
  | toUpper => "toUpper"
  | toLower => "toLower"
  | start => "start"
  | finish => "end"
  | date => "date"
  | named name => name

def known : List Message :=
  [add, sub, mul, div, compare, neg, and, or, isEmpty, isNotEmpty, iterate, get, set, has, call,
    length, toUpper, toLower, start, finish, date]

def bareName (written : String) : String :=
  match written.toList with
  | '_' :: rest => String.ofList rest
  | _ => written

def ofName (written : String) : Message :=
  match known.find? fun message => message.name = bareName written with
  | some message => message
  | none => named written

def arithmetic? : String → Option Message
  | "+" => some add
  | "-" => some sub
  | "*" => some mul
  | "/" => some div
  | _ => none

def logical? : String → Option Message
  | "and" | "&&" => some and
  | "or" | "||" => some or
  | _ => none

end Message

end RuleScript
