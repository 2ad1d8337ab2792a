import ChangeRelay.Json.Basic
import ChangeRelay.Number.Layout

/-!
# Writing JSON

Two layouts of a tree: `Json.compact` without any blanks, and `Json.pretty` with one member or item
on a line, indented by two spaces, where an empty array or object stays on one line. In strings
only the quote, the backslash and the controls are escaped.
-/

namespace ChangeRelay.Json

/-- A double; what is not a finite number has no numeral and becomes `null`. -/
def double (d : Double) : Json := if d.isFinite then .number (d.numeral .json) else .null

/-- The escape of a control character without a short one. -/
def controlEscape (c : Char) : String :=
  let digit (n : Nat) : Char := if n < 10 then Char.ofNat (48 + n) else Char.ofNat (87 + n)
  "\\u00" ++ String.ofList [digit (c.toNat / 16), digit (c.toNat % 16)]

/-- What stands for a character inside a string. -/
def escape (c : Char) : String :=
  if c = '"' then "\\\""
  else if c = '\\' then "\\\\"
  else if c = '\x08' then "\\b"
  else if c = '\x0c' then "\\f"
  else if c = '\n' then "\\n"
  else if c = '\r' then "\\r"
  else if c = '\t' then "\\t"
  else if c.toNat < 0x20 then controlEscape c
  else c.toString

/-- A text as a string literal. -/
def literal (s : String) : String := s.foldl (fun acc c => acc ++ escape c) "\"" ++ "\""

/-- A literal that spells no text is written as the literal of half a surrogate pair. -/
def literal? : Option String → String
  | some s => literal s
  | none => "\"\\ud800\""

/-! ## Without blanks -/

mutual

/-- A tree without blanks. -/
def compact : Json → String
  | .null => "null"
  | .bool true => "true"
  | .bool false => "false"
  | .number n => n.text
  | .string s => literal? s
  | .array items => "[" ++ compactItems items ++ "]"
  | .object members => "\x7b" ++ compactMembers members ++ "\x7d"

def compactItems : List Json → String
  | [] => ""
  | [j] => compact j
  | j :: js => compact j ++ "," ++ compactItems js

def compactMembers : List (Option String × Json) → String
  | [] => ""
  | [(k, j)] => literal? k ++ ":" ++ compact j
  | (k, j) :: ms => literal? k ++ ":" ++ compact j ++ "," ++ compactMembers ms

end

/-! ## One item on a line -/

/-- The start of a line inside `depth` arrays and objects. -/
def newline (depth : Nat) : String := "\n".pushn ' ' (2 * depth)

mutual

/-- A tree with one item on a line, inside `depth` arrays and objects. -/
def prettyAt (depth : Nat) : Json → String
  | .array (j :: js) =>
    "[" ++ newline (depth + 1) ++ prettyItems (depth + 1) (j :: js) ++ newline depth ++ "]"
  | .object (m :: ms) =>
    "\x7b" ++ newline (depth + 1) ++ prettyMembers (depth + 1) (m :: ms) ++ newline depth ++ "\x7d"
  | .null => "null"
  | .bool true => "true"
  | .bool false => "false"
  | .number n => n.text
  | .string s => literal? s
  | .array [] => "[]"
  | .object [] => "\x7b\x7d"

def prettyItems (depth : Nat) : List Json → String
  | [] => ""
  | [j] => prettyAt depth j
  | j :: js => prettyAt depth j ++ "," ++ newline depth ++ prettyItems depth js

def prettyMembers (depth : Nat) : List (Option String × Json) → String
  | [] => ""
  | [(k, j)] => literal? k ++ ": " ++ prettyAt depth j
  | (k, j) :: ms =>
    literal? k ++ ": " ++ prettyAt depth j ++ "," ++ newline depth ++ prettyMembers depth ms

end

/-- A tree with one item on a line. -/
def pretty (j : Json) : String := prettyAt 0 j

end ChangeRelay.Json
