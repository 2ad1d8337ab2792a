import ChangeRelay.Proofs.Client.Attempts
import ChangeRelay.Proofs.Client.Correlation
import ChangeRelay.Proofs.Host.Deliveries
import ChangeRelay.Proofs.Wire.Binary

/-!
# An invocation arrives as it was sent

A client sends an invocation to a host, with the number of its step in a header. Message and reply
travel in binary. The time of the call at the host is any there can be: it may wait for a slot, and
anybody may take steps meanwhile.

* `Visit`: a message at a host, from its request on.
* `Fronts`: a server that has a host behind it; `Server.ofHost` is one, with a host that has nothing
  else to do.
* **`endToEnd_of_accepts`**: the pipeline is handed the invocation that was sent, with the number of
  its step in its metadata unless something was there, and the reply is about that invocation.
-/

namespace ChangeRelay

/-- A message on its way in binary. It does not arrive if it is too long for its length to be
written. -/
def Wire.Format.travel? {α : Type} (F : Format α) (m : α) : Option α :=
  if (F.write m).length < UInt64.size then F.read (F.write m) else none

namespace Host

/-- A name that no call has. -/
def State.fresh (st : State) : CallId := st.pool.everybody.foldr max 0 + 1

/-- Who is refused, and why. -/
def Effect.refused? : Effect → Option (CallId × Pool.Refusal)
  | .refuse id refusal => some (id, refusal)
  | _ => none

end Host

namespace Client

open Host (Label Effect State Work Run Span step)

variable {σ : Type}

/-- A message with its headers at a host, and the time of its call there. -/
structure Visit (s : Host.Settings) (message : Wire.Invocation) (headers : List (String × String))
    (id : CallId) (hist : List Host.Moment) (st : State) (ms : List Host.Moment) (st' : State) :
    Prop where
  run : Run s hist st
  arrives : ∃ w, Wire.Invocation.format.travel? message = some w ∧
    Span s st id (Work.ofCall s (.ofList headers) w) ms st'

/-- A message was at a host, and this is what it was told there. -/
def Told (s : Host.Settings) (message : Wire.Invocation) (headers : List (String × String))
    (reply : InvocationReply) : Prop :=
  ∃ id hist st ms st', Visit s message headers id hist st ms st' ∧ ∃ m ∈ ms, ∃ r,
    (id, .invocation r) ∈ m.effects.filterMap Effect.told? ∧
      Wire.InvocationReply.format.travel? r = some reply

/-- A server with a host behind it. -/
def Fronts (s : Host.Settings) (server : Server σ) : Prop :=
  ∀ message headers x reply x', server.invocation message headers x = (.ok reply, x') →
    Told s message headers reply

/-- What becomes of an invocation at a host, under the name `id`. -/
structure Delivered (i : Invocation) (id : CallId) (ms : List Host.Moment) : Prop where
  /-- The pipeline is handed nothing else. -/
  only : ∀ m ∈ ms, ∀ a, .apply id a ∈ m.effects → a = i.tagged
  /-- It is handed this as the call gets its slot, if the window does not hold its id then. -/
  handed : ∀ m ∈ ms, ∀ work, m.Grants id work → m.before.reaction.window.seen? i.id = none →
    m.effects.filterMap Effect.apply? = [(id, i.tagged)]
  /-- Whatever the sender is told is about it. -/
  echoed : ∀ m ∈ ms, ∀ reply, (id, reply) ∈ m.effects.filterMap Effect.told? →
    ∃ r, reply = .invocation r ∧ r.id = i.id

/-! ## A host that has nothing else to do -/

/-- A host with its history. -/
structure Hosted (s : Host.Settings) where
  hist : List Host.Moment
  state : State
  run : Run s hist state

namespace Hosted

variable {s : Host.Settings}

/-- Takes a step. -/
def take (h : Hosted s) (l : Label) : Option (List Effect × Hosted s) :=
  match taken : step s h.state l with
  | some (st, es) => some (es, ⟨h.hist ++ [⟨l, h.state, es, st⟩], st, h.run.next taken⟩)
  | none => none

/-- What comes back of a reply. -/
def comesBack (r : InvocationReply) : Except Failure InvocationReply :=
  match Wire.InvocationReply.format.travel? r with
  | some r => .ok r
  | none => .error .transport

/-- What a sender gets back at a step. -/
def outcome? (es : List Effect) : Option (Except Failure InvocationReply) :=
  match es.filterMap Effect.told?, es.filterMap Effect.refused? with
  | (_, .invocation r) :: _, _ => some (comesBack r)
  | _, (_, refusal) :: _ => some (.error (.status refusal.code refusal.message))
  | _, [] => none

/-- Serves a request, for which the pipeline takes what it is handed. -/
def serve (h : Hosted s) (work : Work) : Except Failure InvocationReply × Hosted s :=
  let id := h.state.fresh
  match h.take (.request id work) with
  | none => (.error .transport, h)
  | some (es, h) => match outcome? es with
    | some outcome => (outcome, h)
    | none => match h.take (.reaction (.answer id .taken)) with
      | none => (.error .transport, h)
      | some (es, h) => ((outcome? es).getD (.error .transport), h)

end Hosted

/-- The server of a host that has nothing else to do than to handle invocations. -/
def Server.ofHost (s : Host.Settings) : Server (Hosted s) where
  connect h := (.ok (), h)
  single _ h := (.error .transport, h)
  batch _ h := (.error .transport, h)
  invocation message headers h := match Wire.Invocation.format.travel? message with
    | none => (.error .transport, h)
    | some w => h.serve (Work.ofCall s (.ofList headers) w)

/-- An invocation goes from a client to the pipeline of a host, and its reply comes back. -/
structure EndToEnd (s : Host.Settings) (i : Invocation) : Prop where
  /-- What the metadata has under the key is kept. -/
  kept : ∀ v, i.metadata.get? sequenceKey = some v → i.tagged = i
  /-- If it has nothing there, it gets the number of the step, and everything else is as it was. -/
  added : i.metadata.get? sequenceKey = none → i.tagged =
    { i with metadata := i.metadata.insert sequenceKey (decimal i.payload.sequence.toNat) }
  /-- Wherever the message that a client sends gets, and whatever else goes on there. -/
  delivered : ∀ id hist st ms st',
    Visit s i.wire (headers (some sequenceKey) i) id hist st ms st' → Delivered i id ms
  /-- What comes back to the client, after any number of attempts. -/
  echoed : ∀ {σ : Type} (c : Connection) (server : Server σ) x reply, Fronts s server →
    (sendInvocation c (some sequenceKey) server i x).1 = .ok reply →
      reply.id = i.id ∧ Told s i.wire (headers (some sequenceKey) i) reply
  /-- A host with a free slot whose window does not hold the id gets the invocation and replies. -/
  served : ∀ (c : Connection) (h : Hosted s), h.state.pool.HasSlot →
    h.state.reaction.window.seen? i.id = none →
    (Wire.Invocation.format.write i.wire).length < UInt64.size →
    (Wire.InvocationReply.format.write (Reaction.appliedReply i.tagged)).length < UInt64.size →
    ∃ h' m m', sendInvocation c (some sequenceKey) (.ofHost s) i h =
        (.ok (Reaction.appliedReply i.tagged), h') ∧ h'.hist = h.hist ++ [m, m'] ∧
      m.effects.filterMap Effect.apply? = [(h.state.fresh, i.tagged)]

variable {s : Host.Settings} {i : Invocation} {id : CallId}
variable {hist ms : List Host.Moment} {st st' : State}

/-! ## Messages on their way -/

theorem travel_of_faithful {α : Type} {F : Wire.Format α} (faithful : F.Faithful) {m m' : α}
    (h : F.travel? m = some m') : m' = m := by
  obtain ⟨short, read⟩ := Option.ite_none_right_eq_some.mp h
  exact Option.some.inj (read.symm.trans (faithful m short))

theorem travel_of_short {α : Type} {F : Wire.Format α} (faithful : F.Faithful) {m : α}
    (short : (F.write m).length < UInt64.size) : F.travel? m = some m :=
  (if_pos short).trans (faithful m short)

theorem faithful_invocation : Wire.Invocation.format.Faithful :=
  .of_leads fun i short => Wire.leads_invocation (by decide) i short

theorem faithful_invocationReply : Wire.InvocationReply.format.Faithful :=
  .of_leads fun r _ => Wire.leads_invocationReply 100 r

/-! ## At the host -/

/-- The time of what a client sent is that of the tagged invocation. -/
theorem Visit.span (key : s.reaction.correlationKey = some sequenceKey)
    (visit : Visit s i.wire (headers (some sequenceKey) i) id hist st ms st') :
    Span s st id (.handle i.tagged.wire) ms st' := by
  obtain ⟨w, arrives, span⟩ := visit.arrives
  obtain rfl := travel_of_faithful faithful_invocation arrives
  rwa [Host.ofCall_wire key] at span

/-- **What a client sends arrives as it was sent**, whatever else goes on at the host. -/
theorem delivered_of_visit (accepts : s.reaction.Accepts i)
    (key : s.reaction.correlationKey = some sequenceKey)
    (visit : Visit s i.wire (headers (some sequenceKey) i) id hist st ms st') :
    Delivered i id ms := by
  have span := visit.span key
  have sound := Host.sound_of_run visit.run
  have good := Reaction.check_tagged accepts
  constructor
  · intro m hm a applied
    obtain ⟨sound', h⟩ := span.steps.moment sound m hm
    obtain ⟨w, gets, checked, -⟩ := Host.apply_of_step sound' h applied
    obtain rfl := Work.handle.inj (span.grants_eq (Host.handler s) visit.run m hm gets)
    exact Except.ok.inj (checked.symm.trans good)
  · intro m hm work grants new
    obtain ⟨sound', h⟩ := span.steps.moment sound m hm
    obtain rfl := span.grants_eq (Host.handler s) visit.run m hm grants
    exact Host.applies_of_gets sound' h grants accepts.id new good
  · intro m hm reply told
    obtain ⟨-, pre, -, answers⟩ := span.answers (Host.handler s) visit.run hm told
    exact Host.id_of_answers answers

/-! ## Back at the client -/

theorem echoed_of_told (accepts : s.reaction.Accepts i)
    (key : s.reaction.correlationKey = some sequenceKey) {reply : InvocationReply}
    (told : Told s i.wire (headers (some sequenceKey) i) reply) : reply.id = i.id := by
  obtain ⟨id, hist, st, ms, st', visit, m, hm, r, told, back⟩ := told
  obtain ⟨r', same, about⟩ := (delivered_of_visit accepts key visit).echoed m hm _ told
  obtain rfl := Host.Reply.invocation.inj same
  rw [travel_of_faithful faithful_invocationReply back, about]

/-- What comes back to a client was told at the host. -/
theorem told_of_send {c : Connection} {server : Server σ} {x : σ} {reply : InvocationReply}
    (fronts : Fronts s server)
    (sent : (sendInvocation c (some sequenceKey) server i x).1 = .ok reply) :
    Told s i.wire (headers (some sequenceKey) i) reply := by
  obtain ⟨x₁, x₂, attempt⟩ := RetryPolicy.ok_of_run sent
  exact fronts _ _ _ _ _ attempt

/-! ## A host that has nothing else to do -/

theorem contains_fresh (st : State) : st.contains st.fresh = false := by
  have below : ∀ ids : List CallId, ∀ id ∈ ids, id ≤ ids.foldr max 0 := by
    intro ids
    induction ids with
    | nil => exact fun _ h => absurd h List.not_mem_nil
    | cons a ids ih =>
      rintro id (_ | ⟨_, later⟩)
      · exact Nat.le_max_left _ _
      · exact Nat.le_trans (ih id later) (Nat.le_max_right _ _)
  refine Host.gone_iff.mpr (Pool.standing_eq_away_iff.mpr fun there => ?_)
  exact absurd (below _ _ there) (Nat.not_succ_le_self _)

namespace Hosted

theorem take_spec {h h' : Hosted s} {l : Label} {es : List Effect} (t : h.take l = some (es, h')) :
    step s h.state l = some (h'.state, es) ∧
      h'.hist = h.hist ++ [⟨l, h.state, es, h'.state⟩] := by
  unfold take at t
  split at t
  · next st es' taken =>
    obtain ⟨rfl, rfl⟩ := Prod.mk.inj (Option.some.inj t)
    exact ⟨taken, rfl⟩
  · exact absurd t (by simp)

theorem take_of_step {h : Hosted s} {l : Label} {es : List Effect} {st : State}
    (taken : step s h.state l = some (st, es)) : ∃ h', h.take l = some (es, h') ∧ h'.state = st ∧
      h'.hist = h.hist ++ [⟨l, h.state, es, st⟩] := by
  unfold take
  split
  · next st' es' taken' =>
    obtain ⟨rfl, rfl⟩ := Prod.mk.inj (Option.some.inj (taken.symm.trans taken'))
    exact ⟨_, rfl, rfl, rfl⟩
  · next none => exact absurd (taken.symm.trans none) (by simp)

theorem travel_of_comesBack {r reply : InvocationReply} (h : comesBack r = .ok reply) :
    Wire.InvocationReply.format.travel? r = some reply := by
  unfold comesBack at h
  split at h
  · next arrives =>
    rw [arrives, Except.ok.inj h]
  · exact absurd h (by simp)

theorem told_of_outcome {es : List Effect} {reply : InvocationReply}
    (ok : outcome? es = some (.ok reply)) : ∃ id r,
      (id, .invocation r) ∈ es.filterMap Effect.told? ∧
        Wire.InvocationReply.format.travel? r = some reply := by
  unfold outcome? at ok
  split at ok
  · next id r _ told =>
    refine ⟨id, r, ?_, travel_of_comesBack (Option.some.inj ok)⟩
    rw [told]
    exact List.mem_cons_self
  · exact absurd ok (by simp)
  · exact absurd ok (by simp)

/-- What is told to a call in its time comes back. -/
theorem told_of_moment {message : Wire.Invocation} {headers : List (String × String)}
    {m : Host.Moment} {reply : InvocationReply}
    (visit : Visit s message headers id hist st ms st') (hm : m ∈ ms)
    (own : m.label.id? = some id) (back : outcome? m.effects = some (.ok reply)) :
    Told s message headers reply := by
  obtain ⟨id', r, told, back⟩ := told_of_outcome back
  obtain ⟨w, -, span⟩ := visit.arrives
  obtain ⟨sound, h⟩ := span.steps.moment (Host.sound_of_run visit.run) m hm
  obtain rfl := Option.some.inj (own.symm.trans (Host.gone_of_told sound h told).1)
  exact ⟨id, hist, st, ms, st', visit, m, hm, r, told, back⟩

/-- What is served was at the host. -/
theorem told_of_serve {h h' : Hosted s} {message w : Wire.Invocation}
    {headers : List (String × String)} {reply : InvocationReply}
    (arrives : Wire.Invocation.format.travel? message = some w)
    (served : h.serve (Work.ofCall s (.ofList headers) w) = (.ok reply, h')) :
    Told s message headers reply := by
  unfold serve at served
  dsimp only at served
  split at served
  · exact absurd (Prod.mk.inj served).1 (by simp)
  · next es₁ h₁ take₁ =>
    have comes := Span.comes (take_spec take₁).1
    split at served
    · next outcome back =>
      rw [(Prod.mk.inj served).1] at back
      exact told_of_moment ⟨h.run, w, arrives, comes⟩ (List.mem_singleton_self _) rfl back
    · split at served
      · exact absurd (Prod.mk.inj served).1 (by simp)
      · next es₂ h₂ take₂ =>
        have step₂ := (take_spec take₂).1
        have busy := Host.contains_of_own (Host.sound_of_run h₁.run) step₂
        cases back : outcome? es₂ with
        | none => exact absurd (Prod.mk.inj served).1 (by simp [back])
        | some outcome =>
          rw [back] at served
          obtain rfl : outcome = .ok reply := (Prod.mk.inj served).1
          exact told_of_moment ⟨h.run, w, arrives, comes.goesOn busy step₂⟩
            (List.mem_append_right _ (List.mem_singleton_self _)) rfl back

theorem outcome_of_told {es : List Effect} {r : InvocationReply}
    (told : es.filterMap Effect.told? = [(id, .invocation r)]) :
    outcome? es = some (comesBack r) := by
  unfold outcome?
  rw [told]

theorem outcome_of_quiet {es : List Effect} (quiet : es.filterMap Effect.told? = [])
    (unrefused : es.filterMap Effect.refused? = []) : outcome? es = none := by
  unfold outcome?
  rw [quiet, unrefused]

/-- Nothing comes back at the step at which a call gets its slot and stays. -/
theorem quiet_of_gets {l : Label} {es : List Effect} {work : Work} (sound : st.Sound)
    (h : step s st l = some (st', es)) (gets : Host.Gets st l id work)
    (busy : st'.contains id = true) : outcome? es = none := by
  refine outcome_of_quiet ?_ ?_
  · refine List.eq_nil_iff_forall_not_mem.mpr ?_
    rintro ⟨id', reply⟩ told
    obtain ⟨caller, -, gone⟩ := Host.gone_of_told sound h told
    obtain rfl := Option.some.inj (gets.caller.symm.trans caller)
    exact absurd (gone.symm.trans busy) Bool.false_ne_true
  · refine List.eq_nil_iff_forall_not_mem.mpr ?_
    rintro ⟨id', refusal⟩ refused
    obtain ⟨e, he, same⟩ := List.mem_filterMap.mp refused
    cases e with
    | refuse id'' refusal' =>
      obtain ⟨rfl, rfl⟩ := Prod.mk.inj (Option.some.inj same)
      obtain ⟨caller, -, never⟩ := Host.step_refuses sound h he
      obtain rfl := Option.some.inj (gets.caller.symm.trans caller)
      exact never _ gets
    | _ => exact absurd same (by simp [Effect.refused?])

/-- **An invocation of which nothing is known** is served at once. -/
theorem serve_of_accepts (accepts : s.reaction.Accepts i) (h : Hosted s)
    (slot : h.state.pool.HasSlot) (new : h.state.reaction.window.seen? i.id = none)
    (short : (Wire.InvocationReply.format.write (Reaction.appliedReply i.tagged)).length <
      UInt64.size) : ∃ h' m m',
    h.serve (.handle i.tagged.wire) = (.ok (Reaction.appliedReply i.tagged), h') ∧
      h'.hist = h.hist ++ [m, m'] ∧
      m.effects.filterMap Effect.apply? = [(h.state.fresh, i.tagged)] := by
  have sound := Host.sound_of_run h.run
  have away := contains_fresh h.state
  obtain ⟨st₁, es₁, st₂, es₂, step₁, handed, busy, step₂, told⟩ :=
    Host.serves_delivery (w := i.tagged.wire) sound away slot accepts.id new
      (Reaction.check_tagged accepts)
  obtain ⟨h₁, take₁, rfl, hist₁⟩ := take_of_step step₁
  obtain ⟨h₂, take₂, -, hist₂⟩ := take_of_step step₂
  have quiet := quiet_of_gets sound step₁ (.atOnce (Host.gone_iff.mp away) slot) busy
  have back : comesBack (Reaction.appliedReply i.tagged) =
      .ok (Reaction.appliedReply i.tagged) := by
    rw [comesBack, travel_of_short faithful_invocationReply short]
  rw [hist₁, List.append_assoc] at hist₂
  refine ⟨h₂, _, _, ?_, hist₂, handed⟩
  simp only [serve, take₁, quiet, take₂, outcome_of_told told, back, Option.getD_some]

end Hosted

/-- **A host that has nothing else to do is behind its server.** -/
theorem fronts_ofHost (s : Host.Settings) : Fronts s (.ofHost s) := by
  intro message headers h reply h' sent
  simp only [Server.ofHost] at sent
  split at sent
  · exact absurd (Prod.mk.inj sent).1 (by simp)
  · next w arrives => exact Hosted.told_of_serve arrives sent

/-- **A client that sends to a host** with a free slot, whose window does not hold the id. -/
theorem served_of_accepts (accepts : s.reaction.Accepts i)
    (key : s.reaction.correlationKey = some sequenceKey) (c : Connection) (h : Hosted s)
    (slot : h.state.pool.HasSlot) (new : h.state.reaction.window.seen? i.id = none)
    (short : (Wire.Invocation.format.write i.wire).length < UInt64.size)
    (short' : (Wire.InvocationReply.format.write (Reaction.appliedReply i.tagged)).length <
      UInt64.size) : ∃ h' m m',
    sendInvocation c (some sequenceKey) (.ofHost s) i h =
      (.ok (Reaction.appliedReply i.tagged), h') ∧ h'.hist = h.hist ++ [m, m'] ∧
      m.effects.filterMap Effect.apply? = [(h.state.fresh, i.tagged)] := by
  obtain ⟨h', m, m', served, hist, handed⟩ := Hosted.serve_of_accepts accepts h slot new short'
  have attempt : (Server.ofHost s).invocation i.wire (headers (some sequenceKey) i) h =
      (.ok (Reaction.appliedReply i.tagged), h') := by
    simp only [Server.ofHost, travel_of_short faithful_invocation short, Host.ofCall_wire key,
      served]
  refine ⟨h', m, m', ?_, hist, handed⟩
  unfold sendInvocation
  rw [RetryPolicy.run_of_ok attempt]

/-- **An invocation goes from a client to the pipeline of a host as it was sent**, but for the
number of its step, and its reply comes back. -/
theorem endToEnd_of_accepts (accepts : s.reaction.Accepts i)
    (key : s.reaction.correlationKey = some sequenceKey) : EndToEnd s i where
  kept := fun _ h => Invocation.tagged_of_some h
  added := Invocation.tagged_of_none
  delivered := fun _ _ _ _ _ visit => delivered_of_visit accepts key visit
  echoed := fun _ _ _ _ fronts sent =>
    have told := told_of_send fronts sent
    ⟨echoed_of_told accepts key told, told⟩
  served := fun c h slot new short short' =>
    served_of_accepts accepts key c h slot new short short'

namespace Sample

/-- A host that was told nothing else, before its first request. -/
def host : Hosted Prefs.default.host := ⟨[], .start _, .stop⟩

/-- An invocation with a value that is no number and one that is nothing, and with metadata under
another key than that of its number. -/
def invocation : Invocation where
  id := "i"
  timestamp := -1
  query := "q"
  metadata := .ofList [("a", "b")]
  payload := ⟨7, [.ofList [("", .null), ("d", .double ⟨0x7FF8000000000001⟩)]], [],
    [.ofList [("id", .integer (-1))]]⟩

theorem accepts : Prefs.default.host.reaction.Accepts invocation where
  id := by decide
  query := by decide
  served := .inl rfl
  apart := by
    intro a b
    cases a <;> cases b <;> decide

end Sample

theorem endToEnd_sample : EndToEnd Prefs.default.host Sample.invocation ∧
    Sample.invocation.tagged.metadata.get? sequenceKey = some "7" ∧ ∃ h' m m',
    sendInvocation (.ofHost "localhost" 8080) (some sequenceKey) (.ofHost _) Sample.invocation
        Sample.host = (.ok (Reaction.appliedReply Sample.invocation.tagged), h') ∧
      h'.hist = [m, m'] ∧ m.effects.filterMap Effect.apply? = [(1, Sample.invocation.tagged)] := by
  have goes := endToEnd_of_accepts Sample.accepts rfl
  refine ⟨goes, by decide +kernel, ?_⟩
  exact goes.served _ Sample.host ⟨rfl, by decide⟩ rfl (by decide +kernel) (by decide +kernel)

end Client

end ChangeRelay
