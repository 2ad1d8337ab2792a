import ChangeRelay.Binary.Varint

/-!
# Fields of binary messages

A binary message is a row of fields. A field starts with a key, which gives its number and how its
content is laid out; then comes the content. Groups are an old layout: a row of fields between a
start and an end with the same number. They are passed over, and a group's own fields are not
kept.

The fields are those that the `Message` derives of the wire types write and read.

* `Field.readAll`: the fields of a message, for a limit on how deep groups stand in each other, and
  for the numbers of those fields whose layout is taken for granted.
* `Field.writeAll`: the bytes of fields.
-/

namespace ChangeRelay

/-- What a field holds. -/
inductive Content
  /-- A number of varying length. -/
  | varint (n : UInt64)
  /-- Eight bytes, the lowest first. -/
  | fixed64 (n : UInt64)
  /-- Four bytes, the lowest first. -/
  | fixed32 (n : UInt32)
  /-- Bytes behind their count. -/
  | delimited (bytes : List UInt8)
  /-- A group. -/
  | group
deriving DecidableEq, Repr

/-- A field of a message. -/
structure Field where
  number : Nat
  content : Content
deriving DecidableEq, Repr

namespace Field

/-! ## Layouts -/

/-- How a content is laid out. -/
inductive Layout
  | varint
  | fixed64
  | delimited
  | groupStart
  | groupEnd
  | fixed32
deriving DecidableEq, Repr

/-- The number of a layout in a key. -/
def Layout.code : Layout → Nat
  | .varint => 0
  | .fixed64 => 1
  | .delimited => 2
  | .groupStart => 3
  | .groupEnd => 4
  | .fixed32 => 5

def Layout.ofCode? : Nat → Option Layout
  | 0 => some .varint
  | 1 => some .fixed64
  | 2 => some .delimited
  | 3 => some .groupStart
  | 4 => some .groupEnd
  | 5 => some .fixed32
  | _ => none

/-! ## Writing -/

/-- The `count` lowest bytes of a number, the lowest first. -/
def littleEndian : Nat → Nat → List UInt8
  | 0, _ => []
  | count + 1, n => UInt8.ofNat (n % 256) :: littleEndian count (n / 256)

/-- A field's key. -/
def writeKey (number : Nat) (layout : Layout) : List UInt8 :=
  Varint.write (8 * number + layout.code)

/-- The bytes of a field; a group is written empty. -/
def write (f : Field) : List UInt8 :=
  match f.content with
  | .varint n => writeKey f.number .varint ++ Varint.write n.toNat
  | .fixed64 n => writeKey f.number .fixed64 ++ littleEndian 8 n.toNat
  | .fixed32 n => writeKey f.number .fixed32 ++ littleEndian 4 n.toNat
  | .delimited bs => writeKey f.number .delimited ++ Varint.write bs.length ++ bs
  | .group => writeKey f.number .groupStart ++ writeKey f.number .groupEnd

/-- The bytes of fields. -/
def writeAll (fs : List Field) : List UInt8 := fs.flatMap write

/-! ## Reading -/

/-- The number that bytes write, the lowest first. -/
def ofLittleEndian (bs : List UInt8) : Nat := bs.foldr (fun b n => b.toNat + 256 * n) 0

/-- The first `count` bytes, if there are so many. -/
def takeBytes : Nat → List UInt8 → Option (List UInt8 × List UInt8)
  | 0, bs => some ([], bs)
  | _ + 1, [] => none
  | count + 1, b :: bs => (takeBytes count bs).map fun (taken, rest) => (b :: taken, rest)

/-- A key: field numbers start at one, and a key has 32 bits. -/
def readKey (bs : List UInt8) : Option ((Nat × Layout) × List UInt8) :=
  (Varint.read bs).bind fun (key, rest) =>
    if key.toNat < UInt32.size ∧ 8 ≤ key.toNat then
      (Layout.ofCode? (key.toNat % 8)).map fun layout => ((key.toNat / 8, layout), rest)
    else none

/-- A content other than a group. -/
def readContent (layout : Layout) (bs : List UInt8) : Option (Content × List UInt8) :=
  match layout with
  | .varint => (Varint.read bs).map fun (n, rest) => (.varint n, rest)
  | .fixed64 => (takeBytes 8 bs).map fun (taken, rest) =>
      (.fixed64 (UInt64.ofNat (ofLittleEndian taken)), rest)
  | .fixed32 => (takeBytes 4 bs).map fun (taken, rest) =>
      (.fixed32 (UInt32.ofNat (ofLittleEndian taken)), rest)
  | .delimited => (Varint.read bs).bind fun (count, rest) =>
      (takeBytes count.toNat rest).map fun (taken, rest) => (.delimited taken, rest)
  | .groupStart | .groupEnd => none

theorem length_takeBytes : ∀ {count : Nat} {bs taken rest : List UInt8},
    takeBytes count bs = some (taken, rest) → rest.length ≤ bs.length
  | 0, _, _, _, h => by
    simp only [takeBytes, Option.some.injEq, Prod.mk.injEq] at h
    simp [h.2]
  | _ + 1, [], _, _, h => by simp [takeBytes] at h
  | count + 1, b :: bs, taken, rest, h => by
    simp only [takeBytes, Option.map_eq_some_iff, Prod.exists, Prod.mk.injEq] at h
    obtain ⟨_, _, ht, -, rfl⟩ := h
    exact Nat.le_succ_of_le (length_takeBytes ht)

theorem length_readKey {bs rest : List UInt8} {key : Nat × Layout}
    (h : readKey bs = some (key, rest)) : rest.length < bs.length := by
  simp only [readKey, Option.bind_eq_some_iff, Prod.exists, Option.ite_none_right_eq_some,
    Option.map_eq_some_iff, Prod.mk.injEq] at h
  obtain ⟨_, _, hr, -, _, -, -, rfl⟩ := h
  exact Varint.length_read hr

theorem length_readContent {layout : Layout} {bs rest : List UInt8} {c : Content}
    (h : readContent layout bs = some (c, rest)) : rest.length ≤ bs.length := by
  unfold readContent at h
  split at h
  · simp only [Option.map_eq_some_iff, Prod.exists, Prod.mk.injEq] at h
    obtain ⟨_, _, hr, -, rfl⟩ := h
    exact Nat.le_of_lt (Varint.length_read hr)
  · simp only [Option.map_eq_some_iff, Prod.exists, Prod.mk.injEq] at h
    obtain ⟨_, _, ht, -, rfl⟩ := h
    exact length_takeBytes ht
  · simp only [Option.map_eq_some_iff, Prod.exists, Prod.mk.injEq] at h
    obtain ⟨_, _, ht, -, rfl⟩ := h
    exact length_takeBytes ht
  · simp only [Option.bind_eq_some_iff, Option.map_eq_some_iff, Prod.exists, Prod.mk.injEq] at h
    obtain ⟨_, _, hr, _, _, ht, -, rfl⟩ := h
    exact Nat.le_of_lt (Nat.lt_of_le_of_lt (length_takeBytes ht) (Varint.length_read hr))
  · simp at h
  · simp at h

/-- Reads fields until the bytes end. `groups` holds the numbers of the groups that are open, the
innermost first, and at most `limit` groups and fields may stand in each other. Fields inside of a
group are dropped. A field outside of groups with a number of `counted` is read as bytes behind
their count, whatever its key says. -/
def readFrom (limit : Nat) (counted : List Nat) (groups : List Nat) (bs : List UInt8) :
    Option (List Field) :=
  match _h : readKey bs with
  | none => if bs.isEmpty ∧ groups.isEmpty then some [] else none
  | some ((number, layout), rest) =>
    match if groups.isEmpty && counted.contains number then Layout.delimited else layout with
    | .groupEnd =>
      match groups with
      | [] => none
      | [g] =>
        if g = number then (readFrom limit counted [] rest).map (⟨number, .group⟩ :: ·) else none
      | g :: gs => if g = number then readFrom limit counted gs rest else none
    | .groupStart =>
      if groups.length < limit then readFrom limit counted (number :: groups) rest else none
    | layout =>
      if groups.length < limit then
        match _h' : readContent layout rest with
        | none => none
        | some (content, rest) =>
          let fields := readFrom limit counted groups rest
          if groups.isEmpty then fields.map (⟨number, content⟩ :: ·) else fields
      else none
termination_by bs.length
decreasing_by
  all_goals
    have h₁ := length_readKey _h
    first
      | exact h₁
      | exact Nat.lt_of_le_of_lt (length_readContent _h') h₁

/-- The fields of a message. -/
def readAll (limit : Nat) (counted : List Nat) (bs : List UInt8) : Option (List Field) :=
  readFrom limit counted [] bs

/-! ## Contents of known fields

A known field must have the layout that its type asks for. -/

def nat64? (f : Field) : Option UInt64 :=
  match f.content with
  | .varint n => some n
  | _ => none

def int64? (f : Field) : Option Int64 := f.nat64?.map fun n => n.toInt64

/-- The lowest 32 bits of a number. -/
def int32? (f : Field) : Option Int32 := f.nat64?.map fun n => n.toUInt32.toInt32

def bool? (f : Field) : Option Bool := f.nat64?.map fun n => n != 0

def fixed64? (f : Field) : Option UInt64 :=
  match f.content with
  | .fixed64 n => some n
  | _ => none

def bytes? (f : Field) : Option (List UInt8) :=
  match f.content with
  | .delimited bs => some bs
  | _ => none

end Field

end ChangeRelay
