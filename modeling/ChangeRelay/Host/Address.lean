import ChangeRelay.Number.Numeral
import ChangeRelay.Text.Quoted

/-!
# Network addresses

The address of a listener: a host of four bytes or of eight 16-bit groups, and a number behind it.
`ofText?` reads the usual spellings, `text` writes one of them: groups in lower-case hexadecimal,
the first longest run of two or more zero groups as `::`, and the last four bytes of an embedded
four-byte host in decimal.

This is how a `SocketAddr` is parsed and displayed.
-/

namespace ChangeRelay

/-- The address of a listener. -/
inductive Address
  | v4 (a b c d : UInt8) (portNumber : UInt16)
  | v6 (groups : Vector UInt16 8) (scope : UInt32) (portNumber : UInt16)
deriving DecidableEq, Repr

namespace Address

/-- This number on every interface. -/
def anyHost (portNumber : UInt16) : Address := .v4 0 0 0 0 portNumber

/-! ## Reading -/

/-- Reads from the start of a text, and fails or leaves the rest. -/
abbrev Reader := StateT (List Char) Option

namespace Reader

/-- The value of a digit in a base of at most sixteen. -/
def digitIn? (base : Nat) (c : Char) : Option Nat :=
  let value :=
    if '0' ≤ c ∧ c ≤ '9' then c.toNat - 48
    else if 'a' ≤ c ∧ c ≤ 'f' then c.toNat - 87
    else if 'A' ≤ c ∧ c ≤ 'F' then c.toNat - 55
    else base
  if value < base then some value else none

/-- The digits at the start of a text, and the rest. -/
def splitDigits (base : Nat) : List Char → List Nat × List Char
  | [] => ([], [])
  | c :: cs => match digitIn? base c with
    | some d =>
      let (ds, rest) := splitDigits base cs
      (d :: ds, rest)
    | none => ([], c :: cs)

/-- As many digits as there are, but at least one. -/
def digits (base : Nat) : Reader (List Nat) := fun cs =>
  match splitDigits base cs with
  | ([], _) => none
  | (ds, rest) => some (ds, rest)

/-- A number below `bound`. -/
def below (bound base : Nat) (ds : List Nat) : Reader Nat :=
  let n := ds.foldl (fun n d => base * n + d) 0
  if n < bound then pure n else failure

/-- One given character. -/
def char (c : Char) : Reader Unit := fun cs =>
  match cs with
  | [] => none
  | d :: cs => if d = c then some ((), cs) else none

/-- A byte in at most three decimal digits, without zeros in front. -/
def byte : Reader UInt8 := do
  let ds ← digits 10
  if 3 < ds.length ∨ (ds.head? = some 0 ∧ ds.length ≠ 1) then failure
  return UInt8.ofNat (← below 256 10 ds)

/-- Four bytes with points between them. -/
def fourBytes : Reader (UInt8 × UInt8 × UInt8 × UInt8) := do
  let a ← byte
  char '.'
  let b ← byte
  char '.'
  let c ← byte
  char '.'
  let d ← byte
  return (a, b, c, d)

/-- A colon, unless this is the first group. -/
def separator (first : Bool) : Reader Unit := if first then pure () else char ':'

/-- A group of at most four hexadecimal digits. -/
def group (first : Bool) : Reader UInt16 := do
  separator first
  let ds ← digits 16
  if 4 < ds.length then failure
  return UInt16.ofNat (← below 65536 16 ds)

/-- Four bytes as two groups. -/
def embedded (first : Bool) : Reader (List UInt16) := do
  separator first
  let (a, b, c, d) ← fourBytes
  return [a.toUInt16 * 256 + b.toUInt16, c.toUInt16 * 256 + d.toUInt16]

/-- At most `most` groups, as many as there are, and whether four bytes stood for the last two. -/
def groups (first : Bool) : Nat → Reader (List UInt16 × Bool)
  | 0 => pure ([], false)
  | most + 1 =>
    (do
      if most = 0 then failure
      return (← embedded first, true)) <|>
    (do
      let g ← group first
      let (gs, bytesLast) ← groups false most
      return (g :: gs, bytesLast)) <|>
    pure ([], false)

/-- A list of eight groups as a vector. -/
def eight (gs : List UInt16) : Reader (Vector UInt16 8) :=
  if h : gs.length = 8 then pure ⟨gs.toArray, by simpa using h⟩ else failure

/-- Eight groups, or fewer with one `::` for the zeros between them. -/
def host : Reader (Vector UInt16 8) := do
  let (head, bytesLast) ← groups true 8
  if head.length = 8 then eight head
  else if bytesLast then failure
  else do
    char ':'
    char ':'
    let (tail, _) ← groups true (7 - head.length)
    eight (head ++ List.replicate (8 - head.length - tail.length) 0 ++ tail)

def portNumber : Reader UInt16 := do
  char ':'
  return UInt16.ofNat (← below 65536 10 (← digits 10))

/-- The number of an interface behind a percent sign; without one it is zero. -/
def scope : Reader UInt32 :=
  (do
    char '%'
    return UInt32.ofNat (← below UInt32.size 10 (← digits 10))) <|>
  pure 0

def v4 : Reader Address := do
  let (a, b, c, d) ← fourBytes
  return .v4 a b c d (← portNumber)

def v6 : Reader Address := do
  char '['
  let groups ← host
  let scope ← scope
  char ']'
  return .v6 groups scope (← portNumber)

end Reader

/-- The address that a text spells. -/
def ofText? (s : String) : Option Address :=
  match (Reader.v4 <|> Reader.v6).run s.toList with
  | some (a, []) => some a
  | _ => none

/-! ## Writing -/

def fourBytesText (a b c d : UInt8) : String :=
  Text.sepBy "." ([a, b, c, d].map fun x => decimal x.toNat)

/-- Groups with colons between them. -/
def groupsText (gs : List UInt16) : String := Text.sepBy ":" (gs.map fun g => Text.hex g.toNat)

/-- The length of the run of zeros at the start. -/
def zerosAtStart (gs : List UInt16) : Nat := (gs.takeWhile (· = 0)).length

/-- The place and the length of the first longest run of zeros. -/
def longestZeros (gs : List UInt16) : Nat × Nat :=
  (List.range gs.length).foldl
    (fun best i =>
      let n := zerosAtStart (gs.drop i)
      if best.2 < n then (i, n) else best)
    (0, 0)

/-- The host of eight groups. -/
def hostText (gs : List UInt16) : String :=
  match gs with
  | [0, 0, 0, 0, 0, 0xFFFF, g, h] =>
    "::ffff:" ++ fourBytesText (g / 256).toUInt8 g.toUInt8 (h / 256).toUInt8 h.toUInt8
  | gs =>
    let (place, count) := longestZeros gs
    if 1 < count then groupsText (gs.take place) ++ "::" ++ groupsText (gs.drop (place + count))
    else groupsText gs

/-- The text of an address. -/
def text : Address → String
  | .v4 a b c d portNumber => fourBytesText a b c d ++ ":" ++ decimal portNumber.toNat
  | .v6 groups scope portNumber =>
    let scopeText := if scope = 0 then "" else "%" ++ decimal scope.toNat
    "[" ++ hostText groups.toList ++ scopeText ++ "]:" ++ decimal portNumber.toNat

end Address

end ChangeRelay
