import ChangeRelay.Number.Numeral
import ChangeRelay.Number.Reading

/-!
# JSON values

JSON values as trees. Numbers stay numerals and repeated keys stay apart, so a tree keeps what its
text says; what a value means is decided where it is used. A string literal may be well formed and
still spell no text, with half a surrogate pair or with bytes that are not UTF-8: such a literal is
`none`, and can be passed over but not used.
-/

namespace ChangeRelay

/-- A JSON value. -/
inductive Json
  | null
  | bool (b : Bool)
  | number (n : Numeral)
  | string (s : Option String)
  | array (items : List Json)
  | object (members : List (Option String × Json))
deriving Repr, Inhabited

namespace Json

/-- A text as a JSON string. -/
def text (s : String) : Json := .string (some s)

/-- A whole number. -/
def int (i : Int) : Json := .number (.ofInt i)

/-- An object with these members, in this order. -/
def record (members : List (String × Json)) : Json :=
  .object (members.map fun m => (some m.1, m.2))

/-! ## Reading simple values off a tree -/

def text? : Json → Option String
  | .string s => s
  | _ => none

def bool? : Json → Option Bool
  | .bool b => some b
  | _ => none

/-- An integer of 64 bits, with or without a sign. -/
def integer? : Json → Option Int
  | .number n => match n.number? with
    | some (.integer i) => some i
    | _ => none
  | _ => none

/-- A 64-bit integer without a sign. -/
def nat64? (j : Json) : Option UInt64 :=
  j.integer?.bind fun i => if 0 ≤ i then some (UInt64.ofNat i.toNat) else none

/-- A 64-bit integer with a sign. -/
def int64? (j : Json) : Option Int64 :=
  j.integer?.bind fun i => if i < 0x8000000000000000 then some (Int64.ofInt i) else none

/-- The items of an array, each read by `f`. -/
def list? {α : Type} (f : Json → Option α) : Json → Option (List α)
  | .array items => items.mapM f
  | _ => none

/-- The members of an object, each value read by `f`. -/
def members? {α : Type} (f : Json → Option α) : Json → Option (List (String × α))
  | .object members => members.mapM fun m => do
      let k ← m.1
      let x ← f m.2
      return (k, x)
  | _ => none

/-- `null`, or a value read by `f`. -/
def nullable? {α : Type} (f : Json → Option α) : Json → Option (Option α)
  | .null => some none
  | j => (f j).map some

/-! ## Records

A record is read from an object by name or from an array by position. In an object a name of the
record stands at most once and other names are passed over; in an array the record's values stand
in the order of its names, and values at the end may be left out. -/

/-- The one member under a name; fails if there are several. -/
def member? (members : List (Option String × Json)) (name : String) : Option (Option Json) :=
  match members.filter fun m => m.1 = some name with
  | [] => some none
  | [m] => some (some m.2)
  | _ => none

/-- A record's values in the order of its names; `none` where a value is left out. -/
def values? (names : List String) : Json → Option (List (Option Json))
  | .object members =>
    if members.all fun m => m.1.isSome then names.mapM (member? members) else none
  | .array items =>
    if items.length ≤ names.length then
      some (items.map some ++ List.replicate (names.length - items.length) none)
    else none
  | _ => none

/-- A value that must be there. -/
def required {α : Type} (f : Json → Option α) : Option Json → Option α
  | some j => f j
  | none => none

/-- A value with a default for when it is left out. -/
def orElse {α : Type} (default : α) (f : Json → Option α) : Option Json → Option α
  | some j => f j
  | none => some default

/-- One of a few names: the name alone, or as the one name of an object with `null` under it. -/
def name? : Json → Option String
  | .string s => s
  | .object [(some s, .null)] => some s
  | _ => none

end Json

end ChangeRelay
