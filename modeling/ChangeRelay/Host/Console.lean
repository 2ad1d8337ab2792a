import ChangeRelay.Http.Exchange
import ChangeRelay.Json.Printer
import ChangeRelay.Pipeline.Logged

/-!
# A host on a console

A host that takes its plain requests from lines of text and has no pipeline behind it but the log.
A line holds a request's method, its target and its body, with a blank between them. It is answered
by what was logged meanwhile and, in a last line, by the status with the answer's body.

A `ServiceHost` over a `LoggingSink` and a `LoggingReactionSink`, with the part of `main` that binds
its ports replaced by reading lines.
-/

namespace ChangeRelay.Console

/-- A line up to its first blank, and the rest behind it. -/
def splitBlank (line : List Char) : String × List Char :=
  (String.ofList (line.takeWhile (· ≠ ' ')), (line.dropWhile (· ≠ ' ')).drop 1)

/-- The request that a line holds; its body is JSON. -/
def requestOf (line : String) : Http.Request :=
  let (method, rest) := splitBlank line.toList
  let (target, body) := splitBlank rest
  ⟨method, target, some "application/json", Text.bytes (String.ofList body)⟩

/-- More room than a line can fill. -/
def room : Nat := UInt64.size

/-- A host whose pipeline takes everything. -/
def start (p : Prefs) : Simulation.World :=
  .start p.host (.ofScript .empty room) (.ofScript .empty room)

/-- A line of the log as text. -/
def logText (l : Log.Line) : String :=
  l.level.name ++ " " ++ l.message ++ String.join (l.fields.map fun f => " " ++ f.1 ++ "=" ++ f.2)

/-- An answer as text. -/
def answerText (a : Http.Answer) : String :=
  decimal a.status ++ match a.body with
    | some body => " " ++ body.compact
    | none => ""

/-- The router of a host on a console takes an empty part of a path for an empty name: what is sent
to `/sources//events` has been seen to come back as a batch without a source. -/
def router : Http.Router := ⟨true⟩

/-- Takes a line: the host afterwards and the lines that answer it. -/
def take (w : Simulation.World) (line : String) : Simulation.World × List String :=
  let (w, answer) := Http.exchange router w (requestOf line)
  let (w, forwarded, _) := w.drain
  let logged := w.lines ++ forwarded.flatMap fun p => p.2.logged p.1
  ({ w with log := [] }, logged.map logText ++ answer.toList.map answerText)

end ChangeRelay.Console
