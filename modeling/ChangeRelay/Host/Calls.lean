import ChangeRelay.Host.State
import ChangeRelay.Text.Token

/-!
# Remote calls

Events and invocations also reach a host as remote calls, which carry headers beside the message. An
invocation whose metadata lacks the key that ties it to its cause takes it from the header of that
name. A call that gets no slot fails with a status.

Model of `SourceDispatcherService` and `ReactionHandlerService`, and of how a `PoolError` becomes a
`Status`.
-/

namespace ChangeRelay

/-- The status code of a call that gets no slot. -/
def Pool.Refusal.code : Pool.Refusal → Nat
  | .busy _ _ => 8
  | .closed => 14

namespace Host

/-- The value of the header of a name, which may be spelled with capitals, if it can be read. Of
several spellings the last one counts; what cannot be the value of a header is not there at all. -/
def header? (headers : Dict String) (name : String) : Option String :=
  if Text.isTextHeaderName name then
    let sent := headers.entries.filter fun h =>
      h.1.toLower = name.toLower && (Text.bytes h.2).all Text.isHeaderByte
    (sent.getLast?.map (·.2)).filter fun v => (Text.bytes v).all Text.isVisible
  else none

/-- The metadata of an invocation with what its headers add. -/
def withHeaders (key? : Option String) (headers : Dict String) (i : Wire.Invocation) :
    Wire.Invocation :=
  match key? with
  | none => i
  | some key => match header? headers key with
    | none => i
    | some value => { i with metadata := i.metadata.insertIfNew key value }

/-- What a remote call with an invocation asks for. -/
def Work.ofCall (s : Settings) (headers : Dict String) (i : Wire.Invocation) : Work :=
  .handle (withHeaders s.reaction.correlationKey headers i)

end Host

end ChangeRelay
