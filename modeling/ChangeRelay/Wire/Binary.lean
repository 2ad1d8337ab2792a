import ChangeRelay.Binary.Field
import ChangeRelay.Reply
import ChangeRelay.Text.Utf8
import ChangeRelay.Wire.Message

/-!
# Messages in binary

The binary form of every message. Writing leaves out numbers, texts and truth values that are zero,
empty or false, but not the content of a set value and not a part that is there and empty. Reading
takes fields in any order: of a field that should stand once the last counts, repeats of a part
add up to one part, and fields with other numbers are passed over.

For each type, `fields` gives what is written, `take` adds one field that was read, and `format`
puts the two together.

Model of the `Message` derives of the wire types; a number in a `tag` is the number of a field here.
-/

namespace ChangeRelay.Wire

/-! ## Building blocks -/

/-- A text, unless it is empty. -/
def textField (number : Nat) (s : String) : List Field :=
  if s = "" then [] else [⟨number, .delimited (Text.bytes s)⟩]

/-- Texts, each as a field of its own. -/
def textFields (number : Nat) (ss : List String) : List Field :=
  ss.map fun s => ⟨number, .delimited (Text.bytes s)⟩

/-- A number, unless it is zero. -/
def natField (number : Nat) (n : UInt64) : List Field :=
  if n = 0 then [] else [⟨number, .varint n⟩]

/-- A signed number, unless it is zero. -/
def intField (number : Nat) (i : Int64) : List Field := natField number i.toUInt64

/-- A truth value, unless it is false. -/
def boolField (number : Nat) (b : Bool) : List Field :=
  if b then [⟨number, .varint 1⟩] else []

/-- A message inside another. -/
def partField (number : Nat) (fs : List Field) : Field := ⟨number, .delimited (Field.writeAll fs)⟩

/-- The text of a field. -/
def text? (f : Field) : Option String := f.bytes?.bind Text.ofBytes?

/-- A type of message with its binary form. -/
structure Format (α : Type) where
  /-- The message without any fields. -/
  empty : α
  /-- The fields that hold entries of a dictionary; how their keys say they are laid out does not
  matter. -/
  entries : List Nat
  /-- What is written of a message. -/
  fields : α → List Field
  /-- Adds a field to a message, for a limit on how deep groups stand in it. -/
  take : Nat → α → Field → Option α

namespace Format

/-- The bytes of a message. -/
def write {α : Type} (F : Format α) (m : α) : List UInt8 := Field.writeAll (F.fields m)

/-- Adds the fields that bytes write, one after the other, to a message. -/
def extend {α : Type} (F : Format α) (limit : Nat) (m : α) (bs : List UInt8) : Option α :=
  (Field.readAll limit F.entries bs).bind fun fs => fs.foldlM (F.take limit) m

/-- The message that bytes write. -/
def read {α : Type} (F : Format α) (bs : List UInt8) : Option α := F.extend 100 F.empty bs

/-- Adds to a message inside another; groups may stand one level less deep there. -/
def extendPart {α : Type} (F : Format α) (limit : Nat) (m : α) (f : Field) : Option α :=
  f.bytes?.bind (F.extend (limit - 1) m)

end Format

/-- Adds a field to an entry of a dictionary of texts. -/
def takeEntry (_limit : Nat) (e : String × String) (f : Field) : Option (String × String) :=
  match f.number with
  | 1 => (text? f).map fun s => (s, e.2)
  | 2 => (text? f).map fun s => (e.1, s)
  | _ => some e

/-- An entry of a dictionary of texts. -/
def entry : Format (String × String) :=
  ⟨("", ""), [], fun e => textField 1 e.1 ++ textField 2 e.2, takeEntry⟩

/-- The entries of a dictionary of texts, each as a message of key and value. -/
def entryFields (number : Nat) (d : Dict String) : List Field :=
  d.entries.map fun e => partField number (entry.fields e)

/-- Adds an entry to a dictionary of texts. -/
def addEntry (limit : Nat) (d : Dict String) (f : Field) : Option (Dict String) :=
  (entry.extendPart limit ("", "") f).map fun e => d.insert e.1 e.2

/-! ## Changes -/

namespace Relationship

def fields (r : Relationship) : List Field :=
  textField 1 r.startId ++ textField 2 r.endId ++ textFields 3 r.startLabels ++
    textFields 4 r.endLabels

def take (_limit : Nat) (r : Relationship) (f : Field) : Option Relationship :=
  match f.number with
  | 1 => (text? f).map fun s => { r with startId := s }
  | 2 => (text? f).map fun s => { r with endId := s }
  | 3 => (text? f).map fun s => { r with startLabels := r.startLabels ++ [s] }
  | 4 => (text? f).map fun s => { r with endLabels := r.endLabels ++ [s] }
  | _ => some r

def format : Format Relationship := ⟨.empty, [], fields, take⟩

end Relationship

namespace Event

def fields (e : Event) : List Field :=
  natField 1 e.sequence ++ intField 2 e.timestamp ++ textField 3 e.op ++ textField 4 e.id ++
    textFields 5 e.labels ++ entryFields 6 e.properties ++
    (e.relationship.map fun r => partField 7 r.fields).toList

def take (limit : Nat) (e : Event) (f : Field) : Option Event :=
  match f.number with
  | 1 => f.nat64?.map fun n => { e with sequence := n }
  | 2 => f.int64?.map fun i => { e with timestamp := i }
  | 3 => (text? f).map fun s => { e with op := s }
  | 4 => (text? f).map fun s => { e with id := s }
  | 5 => (text? f).map fun s => { e with labels := e.labels ++ [s] }
  | 6 => (addEntry limit e.properties f).map fun d => { e with properties := d }
  | 7 => (Relationship.format.extendPart limit (e.relationship.getD .empty) f).map fun r =>
      { e with relationship := some r }
  | _ => some e

def format : Format Event := ⟨.empty, [6], fields, take⟩

end Event

namespace Batch

def fields (b : Batch) : List Field :=
  textField 1 b.source ++ b.events.map (fun e => partField 2 e.fields) ++ entryFields 3 b.metadata

def take (limit : Nat) (b : Batch) (f : Field) : Option Batch :=
  match f.number with
  | 1 => (text? f).map fun s => { b with source := s }
  | 2 => (Event.format.extendPart limit .empty f).map fun e => { b with events := b.events ++ [e] }
  | 3 => (addEntry limit b.metadata f).map fun d => { b with metadata := d }
  | _ => some b

def format : Format Batch := ⟨.empty, [3], fields, take⟩

end Batch

/-! ## Results -/

/-- The one field of a set value, which is written whatever it holds. -/
def Scalar.field : Scalar → Field
  | .string s => ⟨1, .delimited (Text.bytes s)⟩
  | .double d => ⟨2, .fixed64 d.bits⟩
  | .integer i => ⟨3, .varint i.toUInt64⟩
  | .boolean b => ⟨4, .varint (if b then 1 else 0)⟩
  | .null code => ⟨5, .varint code.toInt64.toUInt64⟩

namespace Value

def fields (v : Value) : List Field := (v.map Scalar.field).toList

def take (_limit : Nat) (v : Value) (f : Field) : Option Value :=
  match f.number with
  | 1 => (text? f).map fun s => some (.string s)
  | 2 => f.fixed64?.map fun n => some (.double ⟨n⟩)
  | 3 => f.int64?.map fun i => some (.integer i)
  | 4 => f.bool?.map fun b => some (.boolean b)
  | 5 => f.int32?.map fun i => some (.null i)
  | _ => some v

def format : Format Value := ⟨none, [], fields, take⟩

end Value

namespace Record

/-- Adds a field to an entry. -/
def takeEntry (limit : Nat) (e : String × Value) (f : Field) : Option (String × Value) :=
  match f.number with
  | 1 => (text? f).map fun s => (s, e.2)
  | 2 => (Value.format.extendPart limit e.2 f).map fun v => (e.1, v)
  | _ => some e

/-- An entry; its value is left out if it is unset. -/
def entry : Format (String × Value) :=
  { empty := ("", none)
    entries := []
    fields := fun e =>
      textField 1 e.1 ++ (e.2.map fun s => partField 2 (Value.fields (some s))).toList
    take := takeEntry }

def fields (r : Record) : List Field := r.entries.map fun e => partField 1 (entry.fields e)

def take (limit : Nat) (r : Record) (f : Field) : Option Record :=
  match f.number with
  | 1 => (entry.extendPart limit ("", none) f).map fun e => r.insert e.1 e.2
  | _ => some r

def format : Format Record := ⟨.empty, [1], fields, take⟩

end Record

namespace Payload

def recordFields (number : Nat) (records : List Record) : List Field :=
  records.map fun r => partField number (Record.fields r)

def fields (p : Payload) : List Field :=
  natField 1 p.sequence ++ recordFields 2 p.added ++ recordFields 3 p.updated ++
    recordFields 4 p.deleted

def take (limit : Nat) (p : Payload) (f : Field) : Option Payload :=
  let record := Record.format.extendPart limit .empty f
  match f.number with
  | 1 => f.nat64?.map fun n => { p with sequence := n }
  | 2 => record.map fun r => { p with added := p.added ++ [r] }
  | 3 => record.map fun r => { p with updated := p.updated ++ [r] }
  | 4 => record.map fun r => { p with deleted := p.deleted ++ [r] }
  | _ => some p

def format : Format Payload := ⟨.empty, [], fields, take⟩

end Payload

namespace Invocation

def fields (i : Invocation) : List Field :=
  textField 1 i.id ++ intField 2 i.timestamp ++ textField 3 i.query ++ entryFields 4 i.metadata ++
    (i.payload.map fun p => partField 5 p.fields).toList

def take (limit : Nat) (i : Invocation) (f : Field) : Option Invocation :=
  match f.number with
  | 1 => (text? f).map fun s => { i with id := s }
  | 2 => f.int64?.map fun t => { i with timestamp := t }
  | 3 => (text? f).map fun s => { i with query := s }
  | 4 => (addEntry limit i.metadata f).map fun d => { i with metadata := d }
  | 5 => (Payload.format.extendPart limit (i.payload.getD .empty) f).map fun p =>
      { i with payload := some p }
  | _ => some i

def format : Format Invocation := ⟨.empty, [4], fields, take⟩

end Invocation

/-! ## Replies -/

namespace DispatchReply

def fields (r : DispatchReply) : List Field :=
  boolField 1 r.success ++ textField 2 r.message ++ natField 3 r.processed

def take (_limit : Nat) (r : DispatchReply) (f : Field) : Option DispatchReply :=
  match f.number with
  | 1 => f.bool?.map fun b => { r with success := b }
  | 2 => (text? f).map fun s => { r with message := s }
  | 3 => f.nat64?.map fun n => { r with processed := n }
  | _ => some r

def format : Format DispatchReply := ⟨⟨false, "", 0⟩, [], fields, take⟩

end DispatchReply

namespace InvocationReply

def fields (r : InvocationReply) : List Field :=
  boolField 1 r.success ++ textField 2 r.message ++ textField 3 r.id

def take (_limit : Nat) (r : InvocationReply) (f : Field) : Option InvocationReply :=
  match f.number with
  | 1 => f.bool?.map fun b => { r with success := b }
  | 2 => (text? f).map fun s => { r with message := s }
  | 3 => (text? f).map fun s => { r with id := s }
  | _ => some r

def format : Format InvocationReply := ⟨⟨false, "", ""⟩, [], fields, take⟩

end InvocationReply

end ChangeRelay.Wire
