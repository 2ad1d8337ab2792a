import ChangeRelay.Collections.Dict

/-!
# Stores

A store keeps a blob of bytes under each key. `Store` is what one can do; `Kept` puts values of a
type into a store and takes them out again.

Model of `ConfigStore`, of `ConfigService` with `load`, `save` and `load_or_init`, and of
`MemoryConfigStore`.

* A missing blob and an empty one both count as no value.
* `Kept.loadOrInit` writes only where there was no value: a blob that cannot be read stays.
-/

namespace ChangeRelay

abbrev Blob := List UInt8

/-- What can go wrong with a file. -/
inductive FileFault
  | notFound
  | isADirectory
  | notADirectory
  | alreadyExists
  /-- A path with a zero character. -/
  | invalidInput
  /-- A name or path that is too long. -/
  | invalidFilename
deriving DecidableEq, Repr, Inhabited

/-- What can go wrong with a stored value. -/
inductive StoreFault
  /-- There is no blob under the key. -/
  | notFound
  /-- The store's files do not allow it. -/
  | file (fault : FileFault)
  /-- The blob is not a value of the type asked for. -/
  | unreadable
  /-- There is no place for the store. -/
  | noPlace
deriving DecidableEq, Repr, Inhabited

/-- The wording of a fault, where it has one of its own. -/
def StoreFault.message? : StoreFault → Option String
  | .notFound => some "not found"
  | .noPlace => some "other: could not resolve config dir"
  | .file _ | .unreadable => none

/-- A kind of store, with its content in states `σ`. -/
structure Store (σ : Type) where
  /-- The blob under a key. -/
  load : String → σ → Except StoreFault Blob
  /-- Puts a blob under a key, over the one that was there. -/
  save : String → Blob → σ → Except StoreFault Unit × σ

/-- A type of values that can be kept in a store. -/
structure Kept (α : Type) where
  /-- The value where none is kept. -/
  default : α
  read? : Blob → Option α
  write : α → Blob

namespace Kept

variable {α σ : Type}

/-- The value under a key, if one is kept there. -/
def load (K : Kept α) (S : Store σ) (key : String) (s : σ) : Except StoreFault (Option α) :=
  match S.load key s with
  | .error .notFound => .ok none
  | .error e => .error e
  | .ok [] => .ok none
  | .ok blob => match K.read? blob with
    | some x => .ok (some x)
    | none => .error .unreadable

def save (K : Kept α) (S : Store σ) (key : String) (x : α) (s : σ) : Except StoreFault Unit × σ :=
  S.save key (K.write x) s

/-- The value under a key; where none is kept, the default is, from now on. -/
def loadOrInit (K : Kept α) (S : Store σ) (key : String) (s : σ) : Except StoreFault α × σ :=
  match K.load S key s with
  | .error e => (.error e, s)
  | .ok (some x) => (.ok x, s)
  | .ok none =>
    let (result, s) := K.save S key K.default s
    (result.map fun _ => K.default, s)

end Kept

namespace Store

/-- A store in memory. -/
def memory : Store (Dict Blob) where
  load key s := match s.get? key with
    | some blob => .ok blob
    | none => .error .notFound
  save key blob s := (.ok (), s.insert key blob)

end Store

end ChangeRelay
