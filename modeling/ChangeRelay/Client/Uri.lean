import ChangeRelay.Number.Numeral
import ChangeRelay.Text.Token

/-!
# Addresses of services

A client reaches a service under a scheme, a host, a colon and a number. The host is any text, so
the address need not be one that can be used: `isUri` says when it can.

This is the parsing behind `endpoint` of `ConnectionSettings`.
-/

namespace ChangeRelay.Uri

/-- The address of a service. -/
def ofHost (host : String) (portNumber : UInt16) : String :=
  "http://" ++ host ++ ":" ++ decimal portNumber.toNat

/-- The characters, besides letters and digits, that may stand in an address unescaped. -/
def marks : List UInt8 := Text.bytes "!#$&'()*+,-./:;=?@[]_~"

/-- What was seen of an authority so far. -/
structure Authority where
  /-- Colons since the last user part or bracketed host. -/
  colons : Nat := 0
  opened : Bool := false
  closed : Bool := false
  /-- A percent sign outside of user part and brackets. -/
  percent : Bool := false
  /-- The last character is the end of a user part. -/
  afterUser : Bool := false

/-- Reads an authority up to the path, the query or the end, and gives what follows it. -/
def Authority.read (a : Authority) : List UInt8 → Option (Authority × List UInt8)
  | [] => some (a, [])
  | b :: bs =>
    let step := { a with afterUser := false }
    if b == 0x2F || b == 0x3F || b == 0x23 then some (a, b :: bs)
    else if b == 0x3A then
      if 8 ≤ a.colons then none else Authority.read { step with colons := a.colons + 1 } bs
    else if b == 0x5B then
      if a.percent || a.opened then none else Authority.read { step with opened := true } bs
    else if b == 0x5D then
      if !a.opened || a.closed then none
      else Authority.read { step with closed := true, colons := 0, percent := false } bs
    else if b == 0x40 then
      Authority.read { step with colons := 0, percent := false, afterUser := true } bs
    else if b == 0x25 then Authority.read { step with percent := true } bs
    else if Text.isAlphanumeric b || marks.contains b then Authority.read step bs
    else none

/-- Whether an authority that was read to its end can be used. -/
def Authority.isComplete (a : Authority) : Bool :=
  a.opened == a.closed && a.colons ≤ 1 && !a.afterUser && !a.percent

/-- Whether a byte may stand in a path. -/
def inPath (b : UInt8) : Bool :=
  b == 0x21 || (0x24 ≤ b && b ≤ 0x3B) || b == 0x3D || (0x40 ≤ b && b ≤ 0x5F) ||
    (0x61 ≤ b && b ≤ 0x7E) || 0x80 ≤ b || b == 0x22

/-- Whether a byte may stand in a query. -/
def inQuery (b : UInt8) : Bool :=
  b == 0x21 || (0x24 ≤ b && b ≤ 0x3B) || b == 0x3D || (0x3F ≤ b && b ≠ 0x7F)

/-- Whether a path with what follows it can be used; anything goes behind a `#`. -/
def isPath (bs : List UInt8) : Bool :=
  match bs.dropWhile inPath with
  | [] => true
  | b :: rest =>
    b == 0x23 || (b == 0x3F && match rest.dropWhile inQuery with
      | [] => true
      | c :: _ => c == 0x23)

/-- Whether the address of a service can be used: it is not too long, has an authority that can be
used, and perhaps a path. -/
def isUri (host : String) (portNumber : UInt16) : Bool :=
  let whole := Text.bytes (ofHost host portNumber)
  let bs := whole.drop 7
  whole.length < 65535 &&
    match Authority.read {} bs with
    | none => false
    | some (a, rest) => rest.length < bs.length && a.isComplete && isPath rest

end ChangeRelay.Uri
