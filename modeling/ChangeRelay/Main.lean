import ChangeRelay.Host.CommandLine
import ChangeRelay.Host.Console
import ChangeRelay.Host.Stored

/-!
# The program

Reads the preferences, lays the arguments over them, and answers the requests on standard input line
by line.

Model of `main`, less its sockets.
-/

namespace ChangeRelay

/-- What is said about arguments that are not followed. -/
def CommandLine.Refusal.message : CommandLine.Refusal → String
  | .unknownArgument => "error: unexpected argument"
  | .invalidValue => "error: missing or invalid value"
  | .valueValidation => "error: value of the wrong kind"
  | .argumentConflict => "error: arguments exclude each other"
  | .tooManyValues => "error: unexpected value"
  | .help => "Riffle change dispatch host: options are laid over the stored preferences"
  | .version => "riffle-service"

/-- The status to end with. -/
def CommandLine.Refusal.status : CommandLine.Refusal → UInt32
  | .help | .version => 0
  | _ => 2

/-- The preferences in a file, which is written if it is not there; the defaults where none can be
read. -/
def readPrefs (directory : String) : IO Prefs := do
  let path := directory ++ "/" ++ Prefs.key ++ ".json"
  let stored : Dict Blob ← try
      let bytes ← IO.FS.readBinFile path
      pure (Dict.ofList [(Prefs.key, bytes.toList)])
    catch _ => pure .empty
  match Prefs.kept.loadOrInit Store.memory Prefs.key stored with
  | (.error _, _) => return .default
  | (.ok prefs, kept) =>
    if kept ≠ stored then
      try
        IO.FS.createDirAll directory
        IO.FS.writeBinFile path ⟨prefs.write.toArray⟩
      catch _ => pure ()
    return prefs

/-- Where preferences are kept. -/
def prefsDirectory (options : CommandLine.Options) : IO (Option String) := do
  match options.configDirectory with
  | some directory => return some directory
  | none =>
    let base? := Store.userBase? (← IO.getEnv "XDG_CONFIG_HOME") (← IO.getEnv "HOME")
    return base?.map fun p => "/" ++ p.text

/-- Answers lines until there are no more. -/
def serve (start : Simulation.World) (input output : IO.FS.Stream) : IO Unit := do
  let mut w := start
  repeat
    let line ← input.getLine
    if line = "" then break
    let (next, answer) := Console.take w (String.ofList (line.toList.filter (· ≠ '\n')))
    answer.forM output.putStrLn
    output.flush
    w := next

end ChangeRelay

def main (args : List String) : IO UInt32 := do
  match ChangeRelay.CommandLine.read args with
  | .error refusal =>
    IO.eprintln refusal.message
    return refusal.status
  | .ok options =>
    let stored ← match ← ChangeRelay.prefsDirectory options with
      | some directory => ChangeRelay.readPrefs directory
      | none => pure .default
    let host := ChangeRelay.Console.start (options.apply stored)
    ChangeRelay.serve host (← IO.getStdin) (← IO.getStdout)
    return 0
