import ChangeRelay.Text.Token

/-!
# Media types

A media type is a type and a subtype with a slash between them, and parameters behind semicolons.
A subtype may end in a suffix behind a plus sign. `isJson` says whether a media type is one of JSON
texts: `application/json`, or an `application` type with the suffix `json`.

This is what the extractor `Json` asks of a content type.
-/

namespace ChangeRelay.Http

/-- A letter's small form. -/
def lower (b : UInt8) : UInt8 := if 0x41 ≤ b && b ≤ 0x5A then b + 0x20 else b

namespace MediaType

/-- The rest of a quoted value behind its opening quote and its first byte, up to the next
parameter. -/
def afterQuote : List UInt8 → Option (List UInt8)
  | [] => none
  | b :: bs =>
    if b == 0x22 then match bs.dropWhile (· == 0x20) with
      | [] => some []
      | c :: rest => if c == 0x3B then some rest else none
    else if 0x1F < b && b ≠ 0x7F then afterQuote bs
    else none

/-- The rest of a parameter's value, up to the next parameter. -/
def afterValue : List UInt8 → Option (List UInt8)
  | 0x22 :: b :: bs => if 0x1F < b && b ≠ 0x7F then afterQuote bs else none
  | bs => match bs.dropWhile Text.isTokenByte with
    | [] => some []
    | c :: rest => if c == 0x3B && rest.length + 1 < bs.length then some rest else none

/-- Whether parameters are well formed: names and values with an equals sign between them. -/
def areParameters : Nat → List UInt8 → Bool
  | 0, _ => false
  | _ + 1, [] => true
  | fuel + 1, 0x20 :: bs => areParameters fuel bs
  | fuel + 1, bs => match bs.dropWhile Text.isTokenByte with
    | 0x3D :: rest =>
      rest.length + 1 < bs.length && match afterValue rest with
        | some rest => areParameters fuel rest
        | none => false
    | _ => false

/-- A subtype and its suffix: they are parted by the last plus sign, unless it comes first. -/
def splitSuffix (subtype : List UInt8) : List UInt8 × Option (List UInt8) :=
  let suffix := (subtype.reverse.takeWhile (· ≠ 0x2B)).reverse
  let stem := subtype.take (subtype.length - suffix.length - 1)
  if stem.isEmpty then (subtype, none) else (stem, some suffix)

end MediaType

/-- Whether a content type is one of JSON texts. -/
def isJson (contentType : String) : Bool :=
  let bs := Text.bytes contentType
  let kind := bs.takeWhile Text.isTokenByte
  match bs.dropWhile Text.isTokenByte with
  | 0x2F :: rest =>
    let (stem, suffix?) := MediaType.splitSuffix ((rest.takeWhile Text.isTokenByte).map lower)
    let json := Text.bytes "json"
    bs.all Text.isVisible && kind.map lower == Text.bytes "application" &&
      (stem == json || suffix? == some json) &&
      match rest.dropWhile Text.isTokenByte with
      | [] => true
      | b :: rest => b == 0x3B && MediaType.areParameters (rest.length + 1) rest
  | _ => false

end ChangeRelay.Http
