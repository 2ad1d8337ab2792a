/-!
# Names of calls
-/

namespace ChangeRelay

/-- The name of a call that is in progress. -/
abbrev CallId := Nat

end ChangeRelay
