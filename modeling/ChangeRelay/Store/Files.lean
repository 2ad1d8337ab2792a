import ChangeRelay.Store.Basic
import ChangeRelay.Text.Quoted
import ChangeRelay.Text.Utf8

/-!
# Trees of files

Files and directories, and the few operations on them that a store needs. A path is the parts
of its text between the slashes, from the root on. `..` goes to the directory above and `.` nowhere,
but only from a directory that is there; an empty part says nothing.

Model of `FsConfigStore`: `fileOf` is `path_for`, and `files` has `load_raw` and `save_raw`.
-/

namespace ChangeRelay

/-- What stands at a path. -/
inductive Node
  | file (content : Blob)
  | directory
deriving DecidableEq, Repr

/-- The parts of a path's text, from the root down. -/
abbrev Path := List String

namespace Path

/-- The parts of a text. -/
def parts (s : String) : Path := String.ofList <$> s.toList.splitOn '/'

/-- The path of a text that begins at the root. -/
def ofAbsolute? (s : String) : Option Path := match parts s with
  | "" :: part :: p => some (part :: p)
  | _ => none

/-- A path's text behind a directory; a text from the root on replaces the directory. -/
def join (base : Path) (s : String) : Path :=
  match ofAbsolute? s with
  | some p => p
  | none => (if base.getLast? = some "" then base.dropLast else base) ++ parts s

/-- The parts of a path with slashes between them. -/
def text (p : Path) : String := Text.sepBy "/" p

/-- Whether a part leads nowhere. -/
def isIdle (part : String) : Bool := part = "" || part = "."

/-- A path without the parts at its end that lead nowhere. -/
def trim (p : Path) : Path := (p.reverse.dropWhile isIdle).reverse

/-- The directory above, by the text alone. -/
def parent (p : Path) : Path := trim (trim p).dropLast

/-- A path as seen from a directory above it, without what leads nowhere at both ends. -/
def below (dir p : Path) : Path := trim ((p.drop dir.length).dropWhile isIdle)

theorem length_trim_le (p : Path) : (trim p).length ≤ p.length := by
  have := (List.dropWhile_sublist isIdle (l := p.reverse)).length_le
  simpa [trim] using this

theorem length_parent_lt {p : Path} (h : trim p ≠ []) : (parent p).length < p.length := by
  have hp := length_trim_le p
  have hq := length_trim_le (trim p).dropLast
  have := List.length_pos_iff.mpr h
  rw [List.length_dropLast] at hq
  unfold parent
  omega

end Path

/-- Files and directories by the names on the way from the root; the root is always there. -/
structure Files where
  nodes : List (Path × Node)
deriving DecidableEq, Repr

namespace Files

def empty : Files := ⟨[]⟩

/-- What stands at the end of names from the root. -/
def node? (fs : Files) (p : Path) : Option Node :=
  if p = [] then some .directory else fs.nodes.lookup p

/-- Puts something at the end of names from the root. -/
def put (fs : Files) (p : Path) (n : Node) : Files :=
  ⟨(p, n) :: fs.nodes.filter fun q => q.1 ≠ p⟩

/-- The length of a path's text in bytes. -/
def pathLength (p : Path) : Nat := p.foldl (fun n name => n + 1 + name.utf8ByteSize) 0

/-- Whether a path can be asked for at all. -/
def admissible (p : Path) : Except FileFault Unit :=
  if p.any fun n => n.toList.contains '\x00' then .error .invalidInput
  else if 4096 ≤ pathLength p then .error .invalidFilename
  else .ok ()

/-- The names from the root to which parts that are not empty lead from the directory `start`. Every
part but the last has to lead to a directory; a name at the end need not be there. -/
def walk (fs : Files) (start : Path) : Path → Except FileFault Path
  | [] => .ok start
  | ".." :: names => walk fs start.dropLast names
  | "." :: names => walk fs start names
  | name :: names =>
    let next := start ++ [name]
    if 255 < name.utf8ByteSize then .error .invalidFilename
    else if names = [] then .ok next
    else match fs.node? next with
      | none => .error .notFound
      | some (.file _) => .error .notADirectory
      | some .directory => walk fs next names

/-- The names from the root to which a path leads. -/
def resolve (fs : Files) (p : Path) : Except FileFault Path := do
  admissible p
  fs.walk [] (p.filter (· ≠ ""))

def isDirectory (fs : Files) (p : Path) : Bool :=
  match fs.resolve p with
  | .ok q => fs.node? q = some .directory
  | .error _ => false

/-- The content of a file. -/
def read (fs : Files) (p : Path) : Except FileFault Blob := do
  match fs.node? (← fs.resolve p) with
  | none => .error .notFound
  | some .directory => .error .isADirectory
  | some (.file content) => .ok content

/-- Writes a file, over the one that was there. -/
def write (fs : Files) (p : Path) (content : Blob) : Except FileFault Files := do
  let q ← fs.resolve p
  match fs.node? q with
  | some .directory => .error .isADirectory
  | _ => .ok (fs.put q (.file content))

/-- Makes one directory. -/
def makeDirectory (fs : Files) (p : Path) : Except FileFault Files := do
  let q ← fs.resolve p
  match fs.node? q with
  | some _ => .error .alreadyExists
  | none => .ok (fs.put q .directory)

/-- Makes one directory, or finds it there. -/
def ensureDirectory (fs : Files) (p : Path) : Except FileFault Files :=
  match fs.makeDirectory p with
  | .ok fs => .ok fs
  | .error e => if fs.isDirectory p then .ok fs else .error e

/-- Makes a directory and those above it that are missing. Directories made before a failure
stay. -/
def makeDirectories (fs : Files) (p : Path) : Except FileFault Unit × Files :=
  match fs.ensureDirectory p with
  | .ok fs => (.ok (), fs)
  | .error .notFound =>
    if _h : p.trim = [] then (.error .notFound, fs)
    else match fs.makeDirectories p.parent with
      | (.error e, fs) => (.error e, fs)
      | (.ok (), fs) => match fs.ensureDirectory p with
        | .ok fs => (.ok (), fs)
        | .error e => (.error e, fs)
  | .error e => (.error e, fs)
termination_by p.length
decreasing_by exact Path.length_parent_lt _h

/-- Writes a file and makes the directories above it that are missing. -/
def place (fs : Files) (p : Path) (content : Blob) : Except FileFault Files :=
  match fs.makeDirectories p.parent with
  | (.error e, _) => .error e
  | (.ok (), fs) => fs.write p content

/-- What stands below a directory, in order of its path from there; a directory ends in a slash. -/
def listing (fs : Files) (base : Path) : List String :=
  let below := fs.nodes.filter fun n => base.length < n.1.length && base.isPrefixOf n.1
  let named := below.map fun n =>
    Path.text (n.1.drop base.length) ++ if n.2 = .directory then "/" else ""
  named.mergeSort fun a b => !(b < a)

end Files

namespace Store

/-- The file of a key: one file below a directory for each key. -/
def fileOf (base : Path) (key : String) : Path := Path.join base (key ++ ".json")

/-- A store in files below a directory. -/
def files (base : Path) : Store Files where
  load key fs := match fs.read (fileOf base key) with
    | .ok blob => .ok blob
    | .error .notFound => .error .notFound
    | .error e => .error (.file e)
  save key blob fs :=
    let path := fileOf base key
    match fs.makeDirectories path.parent with
    | (.error e, fs) => (.error (.file e), fs)
    | (.ok (), fs) => match fs.write path blob with
      | .ok fs => (.ok (), fs)
      | .error e => (.error (.file e), fs)

/-- Makes sure of a store's directory. -/
def openFiles (base : Path) (fs : Files) : Except StoreFault Unit × Files :=
  match fs.makeDirectories base with
  | (.ok (), fs) => (.ok (), fs)
  | (.error e, fs) => (.error (.file e), fs)

/-- The directory of a user's own store: below the directory for settings if one is given from the
root on, and else below the home directory. -/
def userBase? (settings home : Option String) : Option Path :=
  match settings.bind Path.ofAbsolute? with
  | some p => some (p.join "riffle")
  | none => home.map fun h => ((Path.join [] h).join ".config").join "riffle"

end Store

end ChangeRelay
