/-!
# The log

What a host writes down while it works: lines of text, each with its level and with named fields.
-/

namespace ChangeRelay.Log

inductive Level
  | info
  | debug
  | warn
deriving DecidableEq, Repr, Inhabited

/-- The name of a level. -/
def Level.name : Level → String
  | .info => "INFO"
  | .debug => "DEBUG"
  | .warn => "WARN"

/-- A line of the log. -/
structure Line where
  level : Level
  message : String
  fields : List (String × String)
deriving DecidableEq, Repr, Inhabited

end ChangeRelay.Log
