import ChangeRelay.Proofs.Reaction.Once

/-!
# Where replies come from

A reply is made by the delivery that gives it, or kept in the window from an earlier application, or
handed on by the delivery that it waited for. `Traced` follows each of the three back to where the
reply was made, for every delivery in progress and for all that is remembered.

* **`traced_of_run`**: every run leads to traced replies.
* `ended_unique`: a delivery ends in one way.
* `Waited.unique`: and it waits for one other delivery, which came in before (`Waited.lt`).
-/

namespace ChangeRelay.Reaction

/-- A reply about the id `x`. If it claims success, then it is that of an application of `x`. -/
structure Earned (h : History) (x : String) (r : InvocationReply) : Prop where
  id_eq : r.id = x
  success : r.success = true → ∃ a ∈ applied h, a.id = x ∧ r = appliedReply a

/-- At the moment `m` after `pre` a delivery comes in, and its id is in flight under the call
numbered `o`. -/
def Finds (s : Settings) (pre : History) (m : Moment State Label Effect) (o : Nat) : Prop :=
  ∃ c i owner, m.label = .arrive c i ∧ i.id ≠ "" ∧
    m.before.window.seen? i.id = some (.inFlight owner) ∧ (machine s).numberOf pre owner = o

/-- The call numbered `n` found its id in flight under the one numbered `o`. -/
def Waited (s : Settings) (h : History) (n o : Nat) : Prop :=
  ∃ pre m post, h = pre ++ m :: post ∧ m.call = n ∧ Finds s pre m o

/-- A delivery ends with a reply, or it is dropped. -/
def Ends (l : Label) (es : List Effect) : Option InvocationReply → Prop
  | some r => ∃ c, .reply c r ∈ es
  | none => ∃ c, l = .drop c

/-- How the call numbered `n` ended. -/
def Ended (h : History) (n : Nat) (reply? : Option InvocationReply) : Prop :=
  ∃ m ∈ h, m.call = n ∧ Ends m.label m.effects reply?

/-- What is remembered, and what is handed on, goes back to where it was made. -/
structure Traced (s : Settings) (h : History) (st : State) : Prop where
  remembered : ∀ {x r}, st.window.seen? x = some (.done r) → Earned h x r
  arrived : ∀ {c d}, st.deliveries.get? c = some d → ∃ i,
    ((machine s).arrivals h)[(machine s).numberOf h c]? = some (c, i) ∧ i.id = d.id
  applying : ∀ {c x a}, st.deliveries.get? c = some ⟨x, .applying a⟩ →
    ∀ o, ¬Waited s h ((machine s).numberOf h c) o
  awaiting : ∀ {c x owner}, st.deliveries.get? c = some ⟨x, .awaiting owner⟩ →
    Waited s h ((machine s).numberOf h c) ((machine s).numberOf h owner)
  released : ∀ {c x reply?}, st.deliveries.get? c = some ⟨x, .released reply?⟩ →
    (∃ o, Waited s h ((machine s).numberOf h c) o ∧ Ended h o reply?) ∧
      ∀ r, reply? = some r → Earned h x r

variable {s : Settings} {st st' : State} {l : Label} {left : Left} {es : List Effect}
variable {h : History} {m : Moment State Label Effect} {n o : Nat}

/-! ## Earned replies -/

theorem Earned.append {x : String} {r : InvocationReply} (e : Earned h x r) (h' : History) :
    Earned (h ++ h') x r where
  id_eq := e.id_eq
  success := fun hr => by
    obtain ⟨a, ha, rest⟩ := e.success hr
    refine ⟨a, ?_, rest⟩
    rw [applied, List.filterMap_append]
    exact List.mem_append_left _ ha

theorem earned_failed (h : History) (x reason : String) : Earned h x (failedReply x reason) where
  id_eq := rfl
  success := fun hr => absurd hr (by simp [failedReply])

theorem earned_applied {a : Invocation} (ha : a ∈ applied h) : Earned h a.id (appliedReply a) where
  id_eq := rfl
  success := fun _ => ⟨a, ha, rfl, rfl⟩

/-! ## Ends -/

theorem Ended.append {reply? : Option InvocationReply} (e : Ended h n reply?) (h' : History) :
    Ended (h ++ h') n reply? := by
  obtain ⟨m, hm, rest⟩ := e
  exact ⟨m, List.mem_append_left _ hm, rest⟩

/-- A delivery gives one reply, in its own name, and then it is no more. -/
theorem Move.replies (m : Move s st l left es) : (∀ c r, Effect.reply c r ∉ es) ∨
    ∃ r, (∀ c r', Effect.reply c r' ∈ es ↔ c = l.id ∧ r' = r) ∧ left.delivery? = none ∧
      ∀ c, l ≠ .drop c := by
  cases m with
  | @unnamed _ i _ _ =>
    refine .inr ⟨failedReply i.id Invalid.emptyInvocationId.message, fun _ _ => ?_, rfl, by simp⟩
    simp [Label.id]
  | @again _ _ reply _ _ _ => exact .inr ⟨reply, fun _ _ => by simp [Label.id], rfl, by simp⟩
  | await _ _ _ => exact .inl (by simp)
  | @refuse _ i cause _ _ _ _ =>
    refine .inr ⟨failedReply i.id cause.message, fun _ _ => ?_, rfl, by simp⟩
    simp [Label.id, not_mem_wakes]
  | apply _ _ _ _ => exact .inl (by simp [not_mem_correlationLines])
  | @fail _ _ a fault _ =>
    refine .inr ⟨failedReply a.id fault.message, fun _ _ => ?_, rfl, by simp⟩
    simp [Label.id, not_mem_wakes]
  | @complete _ _ a _ =>
    refine .inr ⟨appliedReply a, fun _ _ => ?_, rfl, by simp⟩
    simp [Label.id, not_mem_wakes, not_mem_stops]
  | @resume _ x reply? _ =>
    exact .inr ⟨reply?.getD (interruptedReply x), fun _ _ => by simp [Label.id], rfl, by simp⟩
  | @expire _ _ x _ =>
    exact .inr ⟨unfinishedReply s x, fun _ _ => by simp [Label.id], rfl, by simp⟩
  | interrupt _ => exact .inl fun _ _ => not_mem_wakes (by simp) _ _
  | leave _ _ => exact .inl (by simp)

theorem Move.dropped (m : Move s st l left es) {c : CallId} (hl : l = .drop c) :
    left.delivery? = none := by
  cases m with
  | interrupt _ => rfl
  | leave _ _ => rfl
  | _ => exact absurd hl (by simp)

theorem Move.ends (m : Move s st l left es) {reply? : Option InvocationReply}
    (e : Ends l es reply?) : left.delivery? = none := by
  cases reply? with
  | none =>
    obtain ⟨c, hl⟩ := e
    exact m.dropped hl
  | some r =>
    obtain ⟨c, hr⟩ := e
    rcases m.replies with none | ⟨r', -, gone, -⟩
    · exact absurd hr (none c r)
    · exact gone

theorem Move.ends_unique (m : Move s st l left es) {reply? reply?' : Option InvocationReply}
    (e : Ends l es reply?) (e' : Ends l es reply?') : reply? = reply?' := by
  rcases m.replies with none | ⟨r, only, -, undropped⟩
  · cases reply? with
    | none => cases reply?' with
      | none => rfl
      | some r' =>
        obtain ⟨c, hr⟩ := e'
        exact absurd hr (none c r')
    | some r' =>
      obtain ⟨c, hr⟩ := e
      exact absurd hr (none c r')
  · have eq : ∀ {q : Option InvocationReply}, Ends l es q → q = some r := by
      intro q hq
      cases q with
      | none =>
        obtain ⟨c, hl⟩ := hq
        exact absurd hl (undropped c)
      | some r' =>
        obtain ⟨c, hr⟩ := hq
        rw [((only c r').mp hr).2]
    rw [eq e, eq e']

/-- A delivery that releases others hands on its own end to them. -/
theorem Move.release_ends (m : Move s st l left es) {reply? : Option InvocationReply}
    (hr : left.release? = some reply?) : Ends l es reply? := by
  cases m with
  | @refuse id _ _ _ _ _ _ =>
    obtain rfl := Option.some.inj hr
    exact ⟨id, by simp⟩
  | @fail id _ _ _ _ =>
    obtain rfl := Option.some.inj hr
    exact ⟨id, by simp⟩
  | @complete id _ _ _ =>
    obtain rfl := Option.some.inj hr
    exact ⟨id, by simp⟩
  | @interrupt id _ _ _ =>
    obtain rfl := Option.some.inj hr
    exact ⟨id, rfl⟩
  | _ => exact absurd hr (by simp)

/-- With its end a delivery is over. -/
theorem last_ends : (machine s).Last fun l es => ∃ reply?, Ends l es reply? := by
  intro st l st' es hs ⟨reply?, e⟩
  have hs : step s st l = some (st', es) := hs
  obtain ⟨left, m, after⟩ := step_move hs
  change st'.deliveries.contains l.id = false
  rw [Table.contains, after.deliveries, if_pos rfl, m.ends e]
  rfl

/-- **A delivery ends in one way.** -/
theorem ended_unique (run : (machine s).Run h st) {reply? reply?' : Option InvocationReply}
    (e : Ended h n reply?) (e' : Ended h n reply?') : reply? = reply?' := by
  obtain ⟨m, hm, call, e⟩ := e
  obtain ⟨m', hm', call', e'⟩ := e'
  obtain rfl := run.end_unique last_ends hm hm' (call.trans call'.symm) ⟨_, e⟩ ⟨_, e'⟩
  obtain ⟨pre, post, split⟩ := List.append_of_mem hm
  obtain ⟨-, -, st₁, hs⟩ := Machine.Run.before (split ▸ run)
  obtain ⟨left, move, -⟩ := step_move hs
  exact move.ends_unique e e'

/-- A delivery in progress has not ended. -/
theorem not_ended (run : (machine s).Run h st) {c : CallId} {d : Delivery}
    (at_ : st.deliveries.get? c = some d) (reply? : Option InvocationReply) :
    ¬Ended h ((machine s).numberOf h c) reply? := by
  rintro ⟨m, hm, call, e⟩
  exact run.not_ended last_ends (busy_of_get? s at_) hm call ⟨reply?, e⟩

/-! ## Waiting -/

theorem Waited.append (w : Waited s h n o) (h' : History) : Waited s (h ++ h') n o := by
  obtain ⟨pre, m, post, split, rest⟩ := w
  exact ⟨pre, m, post ++ h', by rw [split, List.append_assoc, List.cons_append], rest⟩

/-- A delivery waits from when it comes in. -/
theorem Waited.of_concat (w : Waited s (h ++ [m]) n o) :
    Waited s h n o ∨ m.call = n ∧ Finds s h m o := by
  obtain ⟨pre, m', post, split, rest⟩ := w
  rcases Moment.split_concat split with ⟨rfl, rfl⟩ | ⟨post, rfl⟩
  · exact .inr rest
  · exact .inl ⟨pre, m', post, rfl, rest⟩

theorem Finds.request? (f : Finds s h m o) : ((machine s).request? m.label).isSome = true := by
  obtain ⟨c, i, owner, hl, -⟩ := f
  rw [hl]
  rfl

theorem Finds.unique {o' : Nat} (f : Finds s h m o) (f' : Finds s h m o') : o = o' := by
  obtain ⟨c, i, owner, hl, -, seen, rfl⟩ := f
  obtain ⟨c', i', owner', hl', -, seen', rfl⟩ := f'
  obtain ⟨-, rfl⟩ := Label.arrive.inj (hl.symm.trans hl')
  rw [Seen.inFlight.inj (Option.some.inj (seen.symm.trans seen'))]

/-- **A delivery waits for one other.** -/
theorem Waited.unique (run : (machine s).Run h st) {o' : Nat} (w : Waited s h n o)
    (w' : Waited s h n o') : o = o' := by
  obtain ⟨pre, m, post, split, call, f⟩ := w
  obtain ⟨pre', m', post', split', call', f'⟩ := w'
  have same : m.call = m'.call := call.trans call'.symm
  obtain ⟨rfl, rfl⟩ := run.arrival_unique split split' f.request? f'.request? same
  exact f.unique f'

/-- The one it waits for came in before. -/
theorem Waited.lt (run : (machine s).Run h st) (w : Waited s h n o) : o < n := by
  obtain ⟨pre, m, post, split, rfl, c, i, owner, hl, -, seen, rfl⟩ := w
  obtain ⟨run, hm, -⟩ := Machine.Run.before (split ▸ run)
  have hr : (machine s).request? m.label = some i := by rw [hl]; rfl
  have call : m.call = ((machine s).arrivals pre).length := by
    rw [hm]
    exact Machine.callOf_some hr
  rw [call]
  obtain ⟨a, at_⟩ := (orderly_of_run run).owner.mp seen
  exact run.number_lt (busy_of_get? s at_)

/-- At any later moment of a call it is known for whom it waited. -/
theorem Waited.before (run : (machine s).Run h st) {pre post : History}
    (split : h = pre ++ m :: post) (w : Waited s h m.call o) :
    Finds s pre m o ∨ Waited s pre m.call o := by
  obtain ⟨pre', m', post', split', call, f⟩ := w
  rcases run.arrival_before split' split f.request? call with ⟨rfl, rfl⟩ | ⟨mid, rfl⟩
  · exact .inl f
  · exact .inr ⟨pre', m', mid, rfl, call, f⟩

theorem Waited.call_lt (run : (machine s).Run h st) (w : Waited s h n o) :
    n < ((machine s).arrivals h).length := by
  obtain ⟨pre, m, post, rfl, rfl, -⟩ := w
  exact run.call_lt (by simp)

/-! ## Replies of a step -/

/-- **Replies are earned**, at the step `l` of a delivery with the id `x`. -/
theorem Traced.earned (t : Traced s h st) (ord : Orderly st) (m : Move s st l left es)
    {c : CallId} {r : InvocationReply} (hr : .reply c r ∈ es) {x : String}
    (new : ∀ i, l.request? = some i → i.id = x)
    (old : ∀ d, st.deliveries.get? l.id = some d → d.id = x) :
    Earned (h ++ [next s h st l es]) x r := by
  cases m with
  | @unnamed id i _ _ =>
    obtain ⟨-, rfl⟩ : c = id ∧ r = failedReply i.id _ := by simpa using hr
    rw [← new i rfl]
    exact earned_failed _ _ _
  | @again id i reply _ _ seen =>
    obtain ⟨-, rfl⟩ : c = id ∧ r = reply := by simpa using hr
    rw [← new i rfl]
    exact (t.remembered seen).append _
  | await _ _ _ => exact absurd hr (by simp)
  | @refuse id i cause _ _ _ _ =>
    obtain ⟨-, rfl⟩ : c = id ∧ r = failedReply i.id cause.message := by
      simpa [not_mem_wakes] using hr
    rw [← new i rfl]
    exact earned_failed _ _ _
  | apply _ _ _ _ => exact absurd hr (by simp [not_mem_correlationLines])
  | @fail id y a fault at_ =>
    obtain ⟨-, rfl⟩ : c = id ∧ r = failedReply a.id fault.message := by
      simpa [not_mem_wakes] using hr
    rw [← old _ at_, ord.id_eq at_]
    exact earned_failed _ _ _
  | @complete id y a at_ =>
    obtain ⟨-, rfl⟩ : c = id ∧ r = appliedReply a := by
      simpa [not_mem_wakes, not_mem_stops] using hr
    rw [← old _ at_, ← ord.id_eq at_]
    refine earned_applied ?_
    rw [applied_concat, applied?_eq_some (m := next s h st (.answer id .taken) _) rfl at_]
    simp
  | @resume id y reply? at_ =>
    obtain ⟨-, rfl⟩ : c = id ∧ r = reply?.getD (interruptedReply y) := by simpa using hr
    rw [← old _ at_]
    cases reply? with
    | none => exact earned_failed _ _ _
    | some r => exact ((t.released at_).2 r rfl).append _
  | @expire id owner y at_ =>
    obtain ⟨-, rfl⟩ : c = id ∧ r = unfinishedReply s y := by simpa using hr
    rw [← old _ at_]
    exact earned_failed _ _ _
  | interrupt _ => exact absurd hr (not_mem_wakes (by simp) _ _)
  | leave _ _ => exact absurd hr (by simp)

/-- The invocation that the delivery of a step came in with. -/
theorem Traced.request (t : Traced s h st) (hs : step s st l = some (st', es)) : ∃ i,
    ((machine s).arrivals (h ++ [next s h st l es]))[(machine s).callOf h l]? = some (l.id, i) ∧
      (∀ i', l.request? = some i' → i'.id = i.id) ∧
      ∀ d, st.deliveries.get? l.id = some d → d.id = i.id := by
  cases hr : l.request? with
  | some i =>
    refine ⟨i, Machine.arrivals_next (M := machine s) hr, fun i' hi => ?_, fun d hd => ?_⟩
    · rw [Option.some.inj hi]
    · exact absurd (hr.symm.trans (request?_eq_none hs hd)) (by simp)
  | none =>
    obtain ⟨d, hd⟩ := exists_delivery hs hr
    obtain ⟨i, hi, id_eq⟩ := t.arrived hd
    refine ⟨i, ?_, fun i' hi' => absurd hi' (by simp), fun d' hd' => ?_⟩
    · rw [Machine.arrivals_concat_none (M := machine s) (next s h st l es) hr,
        Machine.callOf_none (M := machine s) hr]
      exact hi
    · rw [← Option.some.inj (hd.symm.trans hd'), id_eq]

/-! ## Every step keeps replies traced -/

/-- A delivery that is there after its own step has come in with it. -/
theorem Move.stays (m : Move s st l left es) {d : Delivery} (hd : left.delivery? = some d) :
    ∃ c i, l = .arrive c i ∧ i.id = d.id ∧
      ((∃ a, d.phase = .applying a) ∧ st.window.seen? i.id = none ∨
        ∃ owner, d.phase = .awaiting owner ∧ i.id ≠ "" ∧
          st.window.seen? i.id = some (.inFlight owner)) := by
  cases m with
  | @await id owner i _ named seen =>
    obtain rfl := Option.some.inj hd
    exact ⟨id, i, rfl, rfl, .inr ⟨owner, rfl, named, seen⟩⟩
  | @apply id i a _ _ unseen _ =>
    obtain rfl := Option.some.inj hd
    exact ⟨id, i, rfl, rfl, .inl ⟨⟨a, rfl⟩, unseen⟩⟩
  | _ => exact absurd hd (by simp)

theorem Left.keep_id (left : Left) (id : CallId) (d : Delivery) : (left.keep id d).id = d.id := by
  unfold Left.keep
  cases left.release? with
  | none => rfl
  | some reply? =>
    simp only [Delivery.release]
    split
    · rfl
    · rfl

/-- A released delivery was released before, or it is released now. -/
theorem Left.keep_released (left : Left) (id : CallId) {d : Delivery} {x : String}
    {reply? : Option InvocationReply} (h : left.keep id d = ⟨x, .released reply?⟩) :
    d = ⟨x, .released reply?⟩ ∨ d = ⟨x, .awaiting id⟩ ∧ left.release? = some reply? := by
  unfold Left.keep at h
  cases hr : left.release? with
  | none =>
    rw [hr] at h
    exact .inl h
  | some q =>
    simp only [hr, Delivery.release] at h
    split at h
    · next hw =>
      obtain ⟨hx, hp⟩ := Delivery.mk.inj h
      refine .inr ⟨?_, by rw [Phase.released.inj hp]⟩
      rw [← hx, ← hw]
    · exact .inl h

theorem After.old (after : After st l.id left st') {c : CallId} (hc : c ≠ l.id) {d : Delivery}
    (h : st'.deliveries.get? c = some d) :
    ∃ d', st.deliveries.get? c = some d' ∧ left.keep l.id d' = d := by
  rw [after.deliveries, if_neg hc] at h
  exact Option.map_eq_some_iff.mp h

/-- A step of a delivery in progress is one of its call. -/
theorem callOf_old (hs : step s st l = some (st', es)) {d : Delivery}
    (at_ : st.deliveries.get? l.id = some d) :
    (machine s).callOf h l = (machine s).numberOf h l.id :=
  Machine.callOf_none (M := machine s) (request?_eq_none hs at_)

/-- A delivery in progress keeps its number. -/
theorem number_kept (hs : step s st l = some (st', es)) {c : CallId} {d : Delivery}
    (hd : st.deliveries.get? c = some d) :
    (machine s).numberOf (h ++ [next s h st l es]) c = (machine s).numberOf h c := by
  refine Machine.numberOf_next (M := machine s) c ?_
  by_cases hc : c = l.id
  · exact .inl (request?_eq_none hs (hc ▸ hd))
  · exact .inr hc

/-- Nobody begins to wait but the delivery that comes in. -/
theorem Waited.old (run : (machine s).Run h st) (hs : step s st l = some (st', es)) {c : CallId}
    {d : Delivery} (hc : c ≠ l.id) (hd : st.deliveries.get? c = some d)
    (w : Waited s (h ++ [next s h st l es]) ((machine s).numberOf h c) o) :
    Waited s h ((machine s).numberOf h c) o := by
  rcases w.of_concat with w | ⟨same, -⟩
  · exact w
  · exact absurd same (run.callOf_ne hs (busy_of_get? s hd) hc)

/-- Whoever comes in waits from then on, or not at all. -/
theorem Waited.fresh (run : (machine s).Run h st) {c : CallId} {i : Wire.Invocation}
    (w : Waited s (h ++ [next s h st (.arrive c i) es])
      ((machine s).callOf h (.arrive c i)) o) : Finds s h (next s h st (.arrive c i) es) o := by
  rcases w.of_concat with w | ⟨-, f⟩
  · have lt := w.call_lt run
    rw [Machine.callOf_some (M := machine s) (show (machine s).request? (.arrive c i) = some i
      from rfl)] at lt
    exact absurd lt (Nat.lt_irrefl _)
  · exact f

/-- What is remembered after a step. -/
theorem Traced.remembered_step (t : Traced s h st) (ord : Orderly st) (m : Move s st l left es)
    {x : String} {r : InvocationReply} (seen : left.window.seen? x = some (.done r)) :
    Earned (h ++ [next s h st l es]) x r := by
  rcases m.completes ord with ⟨-, done, -⟩ | ⟨y, a, hl, at_, window⟩
  · exact (t.remembered ((done x r).mp seen)).append _
  · have new := ord.not_completed (ord.owner.mpr ⟨a, at_⟩)
    rw [window, Window.seen?_complete (remembered_pos s) ord.nodup new] at seen
    split at seen
    · next hx =>
      obtain rfl := Seen.done.inj (Option.some.inj seen)
      rw [hx, ← ord.id_eq at_]
      refine earned_applied ?_
      rw [applied_concat, applied?_eq_some (m := next s h st l es) hl at_]
      simp
    · split at seen
      · exact absurd seen (by simp)
      · exact (t.remembered seen).append _

/-- What those are handed who are released at a step. -/
theorem Traced.released_step (t : Traced s h st) (ord : Orderly st) (m : Move s st l left es)
    (hs : step s st l = some (st', es)) {c : CallId} {x : String}
    {reply? : Option InvocationReply} (at_ : st.deliveries.get? c = some ⟨x, .awaiting l.id⟩)
    (hr : left.release? = some reply?) :
    (∃ o, Waited s (h ++ [next s h st l es]) ((machine s).numberOf h c) o ∧
      Ended (h ++ [next s h st l es]) o reply?) ∧
    ∀ r, reply? = some r → Earned (h ++ [next s h st l es]) x r := by
  obtain ⟨a, owner⟩ := ord.owner.mp (ord.awaits at_)
  have old := request?_eq_none hs owner
  refine ⟨⟨_, (t.awaiting at_).append _, next s h st l es, by simp, ?_, m.release_ends hr⟩,
    fun r eq => ?_⟩
  · exact Machine.callOf_none (M := machine s) old
  · subst eq
    obtain ⟨c', made⟩ := m.release_ends hr
    refine t.earned ord m made (fun i hi => ?_) fun d hd => ?_
    · exact absurd (old.symm.trans hi) (by simp)
    · rw [← Option.some.inj (owner.symm.trans hd)]

/-- **Every step keeps replies traced.** -/
theorem Traced.step (run : (machine s).Run h st) (t : Traced s h st)
    (hs : step s st l = some (st', es)) : Traced s (h ++ [next s h st l es]) st' := by
  obtain ⟨left, m, after⟩ := step_move hs
  have ord := orderly_of_run run
  have own : ∀ {d}, st'.deliveries.get? l.id = some d → left.delivery? = some d := by
    intro d hd
    rwa [after.deliveries, if_pos rfl] at hd
  have number : (machine s).numberOf (h ++ [next s h st l es]) l.id = (machine s).callOf h l :=
    Machine.numberOf_next_name
  constructor
  case remembered =>
    intro x r seen
    rw [after.window] at seen
    exact t.remembered_step ord m seen
  case arrived =>
    intro c d hd
    by_cases hc : c = l.id
    · subst hc
      obtain ⟨c, i, rfl, id_eq, -⟩ := m.stays (own hd)
      exact ⟨i, Machine.arrivals_next_self (M := machine s) rfl, id_eq⟩
    · obtain ⟨d', hd', rfl⟩ := after.old hc hd
      obtain ⟨i, hi, id_eq⟩ := t.arrived hd'
      rw [number_kept hs hd', left.keep_id]
      exact ⟨i, Machine.arrivals_mono _ _ hi, id_eq⟩
  case applying =>
    intro c x a hd o w
    by_cases hc : c = l.id
    · subst hc
      obtain ⟨c, i, rfl, -, ⟨-, unseen⟩ | ⟨owner, phase, -⟩⟩ := m.stays (own hd)
      · rw [number] at w
        obtain ⟨c', i', owner, hl, -, seen, -⟩ := w.fresh run
        obtain ⟨rfl, rfl⟩ := Label.arrive.inj hl
        exact absurd (unseen.symm.trans seen) (by simp)
      · exact absurd phase (by simp)
    · have hd' := (after.applying hc).mp hd
      rw [number_kept hs hd'] at w
      exact t.applying hd' o (w.old run hs hc hd')
  case awaiting =>
    intro c x owner hd
    by_cases hc : c = l.id
    · subst hc
      obtain ⟨c, i, rfl, -, ⟨⟨a, phase⟩, -⟩ | ⟨owner', phase, named, seen⟩⟩ := m.stays (own hd)
      · exact absurd phase (by simp)
      · obtain rfl := Phase.awaiting.inj phase
        obtain ⟨a, at_⟩ := ord.owner.mp seen
        rw [number, number_kept hs at_]
        exact ⟨h, _, [], rfl, rfl, c, i, owner, rfl, named, seen, rfl⟩
    · obtain ⟨hd', -⟩ := after.awaiting hc hd
      obtain ⟨a, at_⟩ := ord.owner.mp (ord.awaits hd')
      rw [number_kept hs hd', number_kept hs at_]
      exact (t.awaiting hd').append _
  case released =>
    intro c x reply? hd
    by_cases hc : c = l.id
    · subst hc
      obtain ⟨c, i, -, -, ⟨⟨a, phase⟩, -⟩ | ⟨owner, phase, -⟩⟩ := m.stays (own hd)
      · exact absurd phase (by simp)
      · exact absurd phase (by simp)
    · obtain ⟨d', hd', kept⟩ := after.old hc hd
      rw [number_kept hs hd']
      rcases left.keep_released l.id kept with rfl | ⟨rfl, hr⟩
      · obtain ⟨⟨o, w, e⟩, earned⟩ := t.released hd'
        exact ⟨⟨o, w.append _, e.append _⟩, fun r eq => (earned r eq).append _⟩
      · exact t.released_step ord m hs hd' hr

/-- **Every run leads to traced replies.** -/
theorem traced_of_run (run : (machine s).Run h st) : Traced s h st := by
  induction run with
  | start =>
    constructor
    case remembered => simp [machine, State.start]
    case arrived => simp [machine, State.start]
    case applying => simp [machine, State.start]
    case awaiting => simp [machine, State.start]
    case released => simp [machine, State.start]
  | next run hs t => exact t.step run hs

end ChangeRelay.Reaction
