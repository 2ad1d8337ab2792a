import ChangeRelay.Host.Prefs

/-!
# The command line of a host

Options laid over the preferences of a host. An option's value is the rest of its argument behind
`=`, or the next argument. A value of its own argument is looked at only when another known option
follows it or the arguments end, so an unknown argument right behind it is what is reported.

Model of `Args` and its `apply`.
-/

namespace ChangeRelay.CommandLine

/-- Why arguments are not followed. -/
inductive Refusal
  | unknownArgument
  /-- A missing value, or none of the words to choose from. -/
  | invalidValue
  /-- A value that does not read as what it should be. -/
  | valueValidation
  | argumentConflict
  | tooManyValues
  /-- Help was asked for. -/
  | help
  /-- The version was asked for. -/
  | version
deriving DecidableEq, Repr

/-- An option with a value. -/
inductive Flag
  | dispatcherAddress
  | reactionAddress
  | httpAddress
  | defaultSource
  | maxWorkers
  | requestTimeout
  | failurePolicy
  | maxStreams
  | capacity
  | query
  | recordIdField
  | correlationKey
  | stopAfter
  | configDirectory
deriving DecidableEq, Repr

/-- The name of an option, behind its two dashes. -/
def Flag.ofName? : String → Option Flag
  | "dispatcher-addr" => some .dispatcherAddress
  | "reaction-addr" => some .reactionAddress
  | "http-addr" => some .httpAddress
  | "default-source-id" => some .defaultSource
  | "max-workers" => some .maxWorkers
  | "request-timeout-secs" => some .requestTimeout
  | "batch-failure-policy" => some .failurePolicy
  | "max-source-streams" => some .maxStreams
  | "dedup-capacity" => some .capacity
  | "query-id" => some .query
  | "record-id-field" => some .recordIdField
  | "correlation-key" => some .correlationKey
  | "stop-after" => some .stopAfter
  | "config-dir" => some .configDirectory
  | _ => none

/-- What the arguments ask for. -/
structure Options where
  dispatcherAddress : Option Address := none
  reactionAddress : Option Address := none
  httpAddress : Option Address := none
  /-- Whether there is to be no endpoint for plain requests. -/
  noHttp : Bool := false
  defaultSource : Option String := none
  maxWorkers : Option UInt64 := none
  requestTimeout : Option UInt64 := none
  failurePolicy : Option FailurePolicy := none
  maxStreams : Option UInt64 := none
  capacity : Option UInt64 := none
  /-- The queries named, in order. -/
  queries : List String := []
  recordIdField : Option String := none
  correlationKey : Option String := none
  stopAfter : Option UInt64 := none
  configDirectory : Option String := none
deriving DecidableEq, Repr

/-- The preferences with what was asked for laid over them. -/
def Options.apply (o : Options) (p : Prefs) : Prefs :=
  { dispatcherAddress := o.dispatcherAddress.getD p.dispatcherAddress
    reactionAddress := o.reactionAddress.getD p.reactionAddress
    httpAddress := if o.noHttp then none else o.httpAddress.or p.httpAddress
    defaultSource := o.defaultSource.getD p.defaultSource
    maxWorkers := o.maxWorkers.getD p.maxWorkers
    requestTimeout := o.requestTimeout.getD p.requestTimeout
    failurePolicy := o.failurePolicy.getD p.failurePolicy
    maxStreams := o.maxStreams.getD p.maxStreams
    capacity := o.capacity.getD p.capacity
    queries := if o.queries = [] then p.queries else .ofList o.queries
    recordIdField := o.recordIdField.getD p.recordIdField
    correlationKey := o.correlationKey.or p.correlationKey
    stopAfter := o.stopAfter.or p.stopAfter }

/-! ## Values -/

def readAddress (s : String) : Except Refusal Address :=
  match Address.ofText? s with
  | some a => .ok a
  | none => .error .valueValidation

/-- A 64-bit number in decimal digits, perhaps with a plus in front. -/
def readNumber (s : String) : Except Refusal UInt64 :=
  let cs : List Char := match s.toList with
    | '+' :: cs => cs
    | cs => cs
  let n := cs.foldl (fun n c => 10 * n + (c.toNat - 48)) 0
  if cs ≠ [] ∧ cs.all Char.isDigit ∧ n < UInt64.size then .ok (UInt64.ofNat n)
  else .error .valueValidation

def readPolicy (s : String) : Except Refusal FailurePolicy :=
  match FailurePolicy.ofName? s with
  | some p => .ok p
  | none => .error .invalidValue

/-- Follows an option with its value. -/
def Options.set (o : Options) (f : Flag) (s : String) : Except Refusal Options :=
  match f with
  | .dispatcherAddress => return { o with dispatcherAddress := ← readAddress s }
  | .reactionAddress => return { o with reactionAddress := ← readAddress s }
  | .httpAddress => return { o with httpAddress := ← readAddress s }
  | .defaultSource => return { o with defaultSource := s }
  | .maxWorkers => return { o with maxWorkers := ← readNumber s }
  | .requestTimeout => return { o with requestTimeout := ← readNumber s }
  | .failurePolicy => return { o with failurePolicy := ← readPolicy s }
  | .maxStreams => return { o with maxStreams := ← readNumber s }
  | .capacity => return { o with capacity := ← readNumber s }
  | .query => return { o with queries := o.queries ++ [s] }
  | .recordIdField => return { o with recordIdField := s }
  | .correlationKey => return { o with correlationKey := s }
  | .stopAfter => return { o with stopAfter := ← readNumber s }
  | .configDirectory =>
    if s = "" then .error .invalidValue else return { o with configDirectory := s }

/-! ## Arguments -/

/-- How far the arguments were followed. -/
structure State where
  options : Options
  /-- The options that had their value, but for those that may be repeated. -/
  given : List Flag
  /-- The last option, if its value was not looked at yet, with the value if there is one. -/
  pending : Option (Flag × Option String)

namespace State

def start : State := ⟨{}, [], none⟩

/-- Follows an option; only some may stand twice. -/
def set (st : State) (f : Flag) (s : String) : Except Refusal State :=
  if f ∈ st.given then .error .argumentConflict
  else return { st with
    options := ← st.options.set f s
    given := if f = .query then st.given else f :: st.given }

/-- Looks at the value of the last option. -/
def settle (st : State) : Except Refusal State :=
  match st.pending with
  | none => .ok st
  | some (_, none) => .error .invalidValue
  | some (f, some s) => { st with pending := none }.set f s

/-- Settles the last option and then refuses. -/
def stop (st : State) (e : Refusal) : Except Refusal State := st.settle.bind fun _ => .error e

/-- An argument that starts with two dashes. -/
def long (st : State) (name : String) (value : Option String) : Except Refusal State :=
  match Flag.ofName? name, value with
  | some f, some s => st.settle.bind fun st => st.set f s
  | some f, none => st.settle.map fun st => { st with pending := some (f, none) }
  | none, value =>
    if name = "no-http" ∨ name = "help" ∨ name = "version" then
      if value.isSome then .error .tooManyValues
      else if name = "help" then st.stop .help
      else if name = "version" then st.stop .version
      else st.settle.bind fun st =>
        if st.options.noHttp then .error .argumentConflict
        else .ok { st with options := { st.options with noHttp := true } }
    else .error .unknownArgument

/-- An argument that starts with one dash, by the character behind it. -/
def short (st : State) (c : Char) : Except Refusal State :=
  if c = 'h' then st.stop .help
  else if c = 'V' then st.stop .version
  else .error .unknownArgument

/-- An argument without a dash, or the dash alone: the value of the option before it. -/
def plain (st : State) (s : String) : Except Refusal State :=
  match st.pending with
  | some (f, none) => .ok { st with pending := some (f, some s) }
  | _ => .error .unknownArgument

end State

/-- A long option's name and what stands behind the first `=`. -/
def splitLong (cs : List Char) : String × Option String :=
  match cs.span (· ≠ '=') with
  | (name, _ :: value) => (String.ofList name, some (String.ofList value))
  | (name, []) => (String.ofList name, none)

/-- Follows arguments in order. Behind two dashes alone there is nothing to follow. -/
def follow (st : State) : List String → Except Refusal State
  | [] => st.settle
  | arg :: args => match arg.toList with
    | ['-', '-'] => if args = [] then st.settle else .error .unknownArgument
    | '-' :: '-' :: cs =>
      let (name, value) := splitLong cs
      (st.long name value).bind fun st => follow st args
    | '-' :: c :: _ => (st.short c).bind fun st => follow st args
    | _ => (st.plain arg).bind fun st => follow st args

/-- What arguments ask for. An address for the plain endpoint and its absence exclude each
other. -/
def read (args : List String) : Except Refusal Options :=
  (follow .start args).bind fun st =>
    if st.options.noHttp ∧ st.options.httpAddress.isSome then .error .argumentConflict
    else .ok st.options

end ChangeRelay.CommandLine
