import ChangeRelay.Http.Exchange
import ChangeRelay.Proofs.Host.Session
import ChangeRelay.Proofs.Http.Target
import ChangeRelay.Proofs.Wire.Binary
import ChangeRelay.Proofs.Wire.Json

/-!
# Plain requests and remote calls agree

Events reach a host as JSON in the body of a plain request or in binary as the message of a remote
call. `Carry` says that a request and a call have the same events for the same stream. They then take
the host to the same place with their first step, and so with every step after it, and in the end
they are answered with the same reply, in JSON or in binary.

* **`transports_agree`**: the two ways to send events agree.
-/

namespace ChangeRelay.Host

open Dispatch (Sink)

/-! ## Ways to send events -/

/-- A remote call with events, which are in its message. -/
inductive RemoteCall
  | single (message : List UInt8)
  | batch (message : List UInt8)

/-- What a remote call asks for. -/
def RemoteCall.request? : RemoteCall → Option Dispatch.Request
  | .single message => (Wire.Event.format.read message).map .single
  | .batch message => (Wire.Batch.format.read message).map .batch

/-- A plain request is served, and this is its answer. -/
def ServesPlain (s : Settings) (sink : Sink) (id : CallId) (router : Http.Router)
    (r : Http.Request) (p q : Session) (answer : Http.Answer) : Prop :=
  ∃ request reply, r.plan router = .work request ∧ Serves s sink id request p q ∧
    q.replies = p.replies ++ [reply] ∧
      (r.plan router).answer? (.reply (.dispatch reply)) = some answer

/-- A remote call is served, and this is the message of its answer. -/
def ServesRemote (s : Settings) (sink : Sink) (id : CallId) (c : RemoteCall) (p q : Session)
    (answer : List UInt8) : Prop :=
  ∃ request reply, c.request? = some request ∧ Serves s sink id request p q ∧
    q.replies = p.replies ++ [reply] ∧ answer = Wire.DispatchReply.format.write reply

/-- The reply that an answer is read as. -/
def replyOf? (a : Http.Answer) : Option DispatchReply :=
  a.body.bind fun j => (Json.read? (Text.bytes j.compact)).bind DispatchReply.ofJson?

/-- A plain request that sends a tree, in a body that is not too long. -/
structure Posts (r : Http.Request) (j : Json) : Prop where
  method : r.method = "POST"
  kind : r.contentType.any Http.isJson = true
  body : r.body = Text.bytes j.compact
  length_le : r.body.length ≤ Http.maxBody

/-- A plain request and a remote call with the same events, for the stream of `source`: a list for a
source that both name, or a single event for the default stream. -/
inductive Carry (s : Settings) (router : Http.Router) (r : Http.Request) :
    RemoteCall → String → Prop
  | batch {source : String} {events : List Wire.Event} {metadata : Dict String}
      (posts : Posts r (.array (events.map Wire.Event.json)))
      (names : Http.Names router r.target source)
      (short : (Wire.Batch.format.write ⟨source, events, metadata⟩).length < UInt64.size) :
      Carry s router r (.batch (Wire.Batch.format.write ⟨source, events, metadata⟩)) source
  | single {event : Wire.Event} (posts : Posts r event.json)
      (target : Http.Endpoint.ofTarget? router r.target = some (.events none))
      (short : (Wire.Event.format.write event).length < UInt64.size) :
      Carry s router r (.single (Wire.Event.format.write event)) s.dispatch.defaultSource

variable {s : Settings} {sink : Sink} {id : CallId} {p q q' : Session}
variable {router : Http.Router} {r : Http.Request} {c : RemoteCall} {source : String}

/-! ## What is asked for -/

/-- Requests that differ in nothing but what a batch has beside its events. -/
inductive Alike : Dispatch.Request → Dispatch.Request → Prop
  | refl {request : Dispatch.Request} : Alike request request
  | batch {source : String} {events : List Wire.Event} {metadata metadata' : Dict String} :
      Alike (.batch ⟨source, events, metadata⟩) (.batch ⟨source, events, metadata'⟩)

theorem events_of_posts {j : Json} {b : Wire.Body} (posts : Posts r j)
    (read : Wire.Body.read (Text.bytes j.compact) = .ok b)
    (dispatch : Wire.Body → Dispatch.Request) : r.events dispatch = .work (dispatch b) := by
  have long : ¬Http.maxBody < r.body.length := Nat.not_lt.mpr posts.length_le
  unfold Http.Request.events
  rw [posts.kind, Bool.not_true, if_neg Bool.false_ne_true, if_neg long, posts.body, read]

/-- **Both ask for the same.** -/
theorem asks_of_carry (carry : Carry s router r c source) : ∃ request request',
    r.plan router = .work request ∧ c.request? = some request' ∧ Alike request request' ∧
      request.source s.dispatch = source := by
  cases carry with
  | @batch _ events metadata posts names short =>
    obtain ⟨segment, target, decoded⟩ := names
    have read := Wire.faithful_batch _ short
    have plan : r.plan router = .work (.batch ⟨source, events, .empty⟩) := by
      unfold Http.Request.plan
      rw [target]
      simp only [posts.method, ne_eq, not_true_eq_false, if_false, decoded]
      exact events_of_posts posts (Wire.Body.read_many events) (Http.Request.ofSource source)
    exact ⟨_, _, plan, congrArg (Option.map Dispatch.Request.batch) read, .batch, rfl⟩
  | @single event posts target short =>
    have read := Wire.faithful_event _ short
    have plan : r.plan router = .work (.single event) := by
      unfold Http.Request.plan
      rw [target]
      simp only [posts.method, ne_eq, not_true_eq_false, if_false]
      exact events_of_posts posts (Wire.Body.read_one event) Http.Request.ofDefault
    exact ⟨_, _, plan, congrArg (Option.map Dispatch.Request.single) read, .refl, rfl⟩

/-! ## What comes of it -/

/-- Like requests are taken in alike, but for what is logged. -/
theorem arrive_of_alike {request request' : Dispatch.Request} (alike : Alike request request')
    (d : Dispatch.Settings) (st : Dispatch.State) (id : CallId) :
    st.arrive d id request = st.arrive d id request' ∨ ∃ dispatch line line',
      st.arrive d id request = (dispatch, [.log line]) ∧
        st.arrive d id request' = (dispatch, [.log line']) := by
  cases alike with
  | refl => exact .inl rfl
  | @batch source events metadata metadata' =>
    unfold Dispatch.State.arrive
    by_cases none : events.length = 0
    · left
      simp only [Dispatch.Request.events, none, if_true]
      rfl
    · by_cases unnamed : source.isEmpty = true
      · left
        simp only [Dispatch.Request.events, none, if_false, Dispatch.Request.lacksSource, unnamed,
          if_true]
        rfl
      · right
        simp only [Dispatch.Request.events, none, if_false, Dispatch.Request.lacksSource, unnamed]
        exact ⟨_, _, _, rfl, rfl⟩

/-- **Like requests lead to the same place.** -/
theorem take_of_alike {request request' : Dispatch.Request} (alike : Alike request request')
    (new : p.state.contains id = false) (slot : p.state.pool.HasSlot) :
    ∃ p', p.take s (.request id (.dispatch request)) = some p' ∧
      p.take s (.request id (.dispatch request')) = some p' := by
  unfold Session.take
  rw [step_request new slot, step_request new slot]
  rcases arrive_of_alike alike s.dispatch p.state.dispatch id with same | ⟨_, _, _, first, second⟩
  · rw [same]
    exact ⟨_, rfl, rfl⟩
  · rw [first, second]
    exact ⟨_, rfl, rfl⟩

/-- What a plain request and a remote call have in common. -/
structure Agree (s : Settings) (sink : Sink) (id : CallId) (router : Http.Router)
    (r : Http.Request) (c : RemoteCall) (p : Session) : Prop where
  /-- Both lead to the same place, from which the same steps can be taken. -/
  enters : ∃ request request' p', r.plan router = .work request ∧ c.request? = some request' ∧
    p.take s (.request id (.dispatch request)) = some p' ∧
      p.take s (.request id (.dispatch request')) = some p'
  /-- If both are served they leave the host in the same state, with the same events handed to the
  pipeline and taken by it, and their answers are read as the same reply. -/
  served : ∀ q answer q' answer', ServesPlain s sink id router r p q answer →
    ServesRemote s sink id c p q' answer' → q = q' ∧ ∃ reply, answer.status = 200 ∧
      replyOf? answer = some reply ∧
        (answer'.length < UInt64.size → Wire.DispatchReply.format.read answer' = some reply)

theorem agree_of_carry (sink : Sink) (new : p.state.contains id = false)
    (slot : p.state.pool.HasSlot) (carry : Carry s router r c source) : Agree s sink id router r c p := by
  obtain ⟨request, request', plan, asks, alike, -⟩ := asks_of_carry carry
  obtain ⟨p', take, take'⟩ := take_of_alike (s := s) alike new slot
  refine ⟨⟨request, request', p', plan, asks, take, take'⟩, ?_⟩
  rintro q answer q' answer' ⟨_, reply, plan₁, ⟨p₁, take₁, ends⟩, replies, answers⟩
    ⟨_, reply', asks₂, ⟨p₂, take₂, ends'⟩, replies', rfl⟩
  obtain rfl := Http.Plan.work.inj (plan.symm.trans plan₁)
  obtain rfl := Option.some.inj (asks.symm.trans asks₂)
  obtain rfl := Option.some.inj (take.symm.trans take₁)
  obtain rfl := Option.some.inj (take'.symm.trans take₂)
  obtain rfl := ends.unique ends'
  obtain rfl : reply = reply' := by
    simpa using List.append_cancel_left (replies.symm.trans replies')
  obtain rfl : Http.Answer.ofReply reply = answer := by
    rw [plan] at answers
    exact Option.some.inj answers
  exact ⟨rfl, reply, rfl, DispatchReply.read?_json reply, Wire.faithful_dispatchReply reply⟩

/-- **The two ways to send events agree.** A host with a free slot is taken by a plain request and by
a remote call with the same events to the same state, with the same events handed on, and both are
answered with the same reply; and both are answered if nobody is in line for their stream. -/
theorem transports_agree (sink : Sink) (new : p.state.contains id = false)
    (free : p.state.dispatch.calls.get? id = none) (slot : p.state.pool.HasSlot)
    (carry : Carry s router r c source) : Agree s sink id router r c p ∧
      (p.state.dispatch.line source = [] → ∃ q answer answer',
        ServesPlain s sink id router r p q answer ∧ ServesRemote s sink id c p q answer') := by
  refine ⟨agree_of_carry sink new slot carry, fun idle => ?_⟩
  obtain ⟨request, request', plan, asks, alike, rfl⟩ := asks_of_carry carry
  obtain ⟨p', take, take'⟩ := take_of_alike (s := s) alike new slot
  obtain ⟨q, reply, ⟨p₁, take₁, ends⟩, replies⟩ := serves_of_idle sink request new free slot idle
  obtain rfl := Option.some.inj (take.symm.trans take₁)
  refine ⟨q, .ofReply reply, _, ⟨request, reply, plan, ⟨p', take, ends⟩, replies, ?_⟩,
    ⟨request', reply, asks, ⟨p', take', ends⟩, replies, rfl⟩⟩
  rw [plan]
  rfl

namespace Sample

def settings : Settings := Prefs.default.host

/-- Nothing has come in yet. -/
def session : Session := ⟨.start settings, [], [], []⟩

/-- An event with one label twice, and one of a kind that there is not, whose relationship has no
content. -/
def events : List Wire.Event :=
  [{ Dispatch.Sample.change 5 "c" with labels := ["L", "L"] },
    { Dispatch.Sample.change 6 "\n" with relationship := some .empty }]

/-- They are for a source with a slash in its name. -/
def request : Http.Request :=
  ⟨"POST", Http.targetOf "a/b", some "application/json",
    Text.bytes (Json.array (events.map Wire.Event.json)).compact⟩

def call : RemoteCall :=
  .batch (Wire.Batch.format.write ⟨"a/b", events, .ofList [("k", "v")]⟩)

theorem int_of_lt {k : Nat} (h : k < 10) :
    Json.int k = .number ⟨false, [Digit.ofNat k], [], none⟩ := by
  rw [Json.int, Numeral.ofInt, Int.natAbs_natCast, Digits.ofNat_of_lt h]
  simp

theorem length_body : request.body.length ≤ Http.maxBody := by
  have five : Json.int (5 : UInt64).toNat = _ := int_of_lt (by decide)
  have six : Json.int (6 : UInt64).toNat = _ := int_of_lt (by decide)
  have zero : Json.int (0 : Int64).toInt = _ := int_of_lt (k := 0) (by decide)
  have item (j : Json) : Json.compactItems [j] = j.compact := by rw [Json.compactItems]
  simp only [request, events, List.map_cons, List.map_nil, Wire.Event.json,
    Dispatch.Sample.change, five, six, zero, Wire.textsJson, Dict.json, Dict.empty,
    Option.map_some, Option.map_none, Option.getD_some, Option.getD_none, Wire.Relationship.json,
    Wire.Relationship.empty, item, Json.Reader.bytes_array, Json.Reader.bytes_items,
    Json.Reader.bytes_record, Json.Reader.bytes_members, Json.Reader.bytes_member,
    Json.Reader.bytes_text, Json.Reader.bytes_literal]
  decide +kernel

/-- A router that does not take an empty part for a name. -/
def strict : Http.Router := ⟨false⟩

theorem carry : Carry settings strict request call "a/b" :=
  .batch ⟨rfl, by decide +kernel, rfl, length_body⟩ (Http.names_targetOf (.inr (by decide)))
    (by decide +kernel)

end Sample

open Sample in
theorem transports_sample : Agree settings (fun _ => .taken) 0 strict request call session ∧
    ∃ q answer answer', ServesPlain settings (fun _ => .taken) 0 strict request session q answer ∧
      ServesRemote settings (fun _ => .taken) 0 call session q answer' := by
  obtain ⟨agree, served⟩ : Agree settings (fun _ => .taken) 0 strict request call session ∧ _ :=
    transports_agree _ (by decide) rfl ⟨rfl, by decide⟩ carry
  exact ⟨agree, served rfl⟩

end ChangeRelay.Host
