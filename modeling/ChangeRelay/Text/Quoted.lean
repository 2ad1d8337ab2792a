import ChangeRelay.Text.Printable

/-!
# Quoted texts

How a text is shown inside a message: between double quotes, with a backslash before a quote or
another backslash, short escapes for the common controls, and `\u{…}` with the code point in
lower-case hexadecimal for every other character that is not printable. Sets and maps of texts are
shown between braces.
-/

namespace ChangeRelay.Text

/-- The lower-case hexadecimal digits of a number, without leading zeros. -/
def hex (n : Nat) : String := String.ofList (Nat.toDigits 16 n)

/-- What stands for a character between the quotes. -/
def escape (c : Char) : String :=
  if c = '"' then "\\\""
  else if c = '\\' then "\\\\"
  else if c = '\n' then "\\n"
  else if c = '\r' then "\\r"
  else if c = '\t' then "\\t"
  else if c = '\x00' then "\\0"
  else if isPrintable c then c.toString
  else "\\u\x7b" ++ hex c.toNat ++ "\x7d"

/-- A text between double quotes. -/
def quote (s : String) : String :=
  s.foldl (fun acc c => acc ++ escape c) "\"" ++ "\""

/-- Items in a row with a separator between neighbours. -/
def sepBy (sep : String) : List String → String
  | [] => ""
  | x :: xs => xs.foldl (fun acc y => acc ++ sep ++ y) x

/-- Items between braces. -/
def braced (items : List String) : String :=
  "\x7b" ++ sepBy ", " items ++ "\x7d"

/-- A set of texts, in the order given. -/
def quoteSet (xs : List String) : String := braced (xs.map quote)

/-- A map from texts to shown values, in the order given. -/
def quoteMap (xs : List (String × String)) : String :=
  braced (xs.map fun p => quote p.1 ++ ": " ++ p.2)

end ChangeRelay.Text
