import ChangeRelay.Text.Utf8

/-!
# Tokens

The words that protocols use as names: letters, digits and a few marks.
-/

namespace ChangeRelay.Text

/-- Letters and digits. -/
def isAlphanumeric (b : UInt8) : Bool :=
  (0x30 ≤ b && b ≤ 0x39) || (0x41 ≤ b && b ≤ 0x5A) || (0x61 ≤ b && b ≤ 0x7A)

/-- What may stand in a token. -/
def isTokenByte (b : UInt8) : Bool :=
  isAlphanumeric b || (bytes "!#$%&'*+-.^_|~").contains b || b == 0x60

/-- Whether a text can name a header. -/
def isHeaderName (s : String) : Bool := !(bytes s).isEmpty && (bytes s).all isTokenByte

/-- Whether a text can name a header whose value is text: those that end in `-bin` hold bytes. -/
def isTextHeaderName (s : String) : Bool := isHeaderName s && !s.endsWith "-bin"

/-- What can be seen, a space or a tab. -/
def isVisible (b : UInt8) : Bool := (0x20 ≤ b && b ≤ 0x7E) || b == 0x09

/-- What may stand in the value of a header; only what is visible can be read as text. -/
def isHeaderByte (b : UInt8) : Bool := isVisible b || 0x80 ≤ b

end ChangeRelay.Text
