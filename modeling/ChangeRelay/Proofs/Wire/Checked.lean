import ChangeRelay.Proofs.Text.Order
import ChangeRelay.Wire.Checked

/-!
# Checks are exact, and lose nothing

A check goes through what can be wrong with a message and stops at the first thing that is. So it is
right if it fails for the first of all causes there are, and does not fail where there is none
(`FailsFirst`): how checks are put together from smaller ones is how the lists of causes are put
together. The checks are `try_from` of the wire types, and what goes back is their `from`.

What passes is kept as it is, but for what has no meaning: the order of labels and how often each is
given, and the number that comes with a null.

* **`Wire.events_exact`**: what is said above, for events.
* **`Wire.invocations_exact`**: and for invocations.
-/

namespace ChangeRelay

/-! ## Checks that fail for the first cause -/

/-- A check fails iff there are causes, and then for the first of them. -/
def FailsFirst {ε α : Type} (causes : List ε) (checked : Except ε α) : Prop :=
  ∀ cause, checked = .error cause ↔ causes.head? = some cause

namespace FailsFirst

variable {ε α β γ : Type} {causes causes' : List ε} {checked : Except ε α} {e : ε}

theorem ok (x : α) : FailsFirst ([] : List ε) (.ok x : Except ε α) := fun _ => by simp

theorem error (e : ε) (causes : List ε) : FailsFirst (e :: causes) (.error e : Except ε α) :=
  fun cause => by simp

theorem isOk_iff (h : FailsFirst causes checked) : (∃ x, checked = .ok x) ↔ causes = [] := by
  cases causes with
  | nil =>
    refine iff_of_true ?_ rfl
    cases hc : checked with
    | ok x => exact ⟨x, rfl⟩
    | error e => exact absurd ((h e).mp hc) (by simp)
  | cons e causes =>
    refine iff_of_false ?_ (List.cons_ne_nil _ _)
    rintro ⟨x, hx⟩
    exact absurd (hx.symm.trans ((h e).mpr rfl)) (by simp)

/-- One thing is looked at before the others. -/
theorem guard {p : Prop} [Decidable p] (h : ¬p → FailsFirst causes checked) (e : ε) :
    FailsFirst ((if p then [e] else []) ++ causes) (if p then .error e else checked) := by
  by_cases hp : p
  · rw [if_pos hp, if_pos hp]
    exact error e causes
  · rw [if_neg hp, if_neg hp]
    exact h hp

theorem map (h : FailsFirst causes checked) (f : α → β) : FailsFirst causes (checked.map f) := by
  intro cause
  rw [← h cause]
  cases checked <;> simp [Except.map]

/-- One check after another. -/
theorem bind {f : α → Except ε β} (h : FailsFirst causes checked)
    (h' : ∀ x, FailsFirst causes' (f x)) : FailsFirst (causes ++ causes') (checked >>= f) := by
  cases checked with
  | ok x =>
    have none := h.isOk_iff.mp ⟨x, rfl⟩
    rw [none]
    exact h' x
  | error e =>
    intro cause
    have first := (h e).mp rfl
    rw [List.head?_append, first]
    simp [Bind.bind, Except.bind]

/-- The items of a list are checked one by one. -/
theorem mapM {f : α → Except ε β} {causes : α → List ε} (h : ∀ x, FailsFirst (causes x) (f x)) :
    ∀ xs : List α, FailsFirst (xs.flatMap causes) (xs.mapM f)
  | [] => ok []
  | x :: xs => by
    rw [List.mapM_cons, List.flatMap_cons]
    refine (h x).bind fun y => ?_
    have rest := (mapM h xs).map fun ys => y :: ys
    cases hs : xs.mapM f <;> rw [hs] at rest <;> exact rest

end FailsFirst

/-! ## What passes a check -/

section Passing

variable {ε α β γ : Type} {f : α → Except ε β}

theorem ok_of_guard_ok {p : Prop} [Decidable p] {e : ε} {checked : Except ε β} {y : β}
    (h : (if p then .error e else checked) = .ok y) : checked = .ok y := by
  split at h
  · exact absurd h (by simp)
  · exact h

theorem ok_of_map_ok {g : β → γ} {z : γ} : ∀ {checked : Except ε β},
    checked.map g = .ok z → ∃ y, checked = .ok y ∧ g y = z
  | .ok y, h => ⟨y, rfl, Except.ok.inj h⟩
  | .error _, h => absurd h (by simp [Except.map])

theorem ok_of_bind_ok {g : β → Except ε γ} {z : γ} : ∀ {checked : Except ε β},
    checked >>= g = .ok z → ∃ y, checked = .ok y ∧ g y = .ok z
  | .ok y, h => ⟨y, rfl, h⟩
  | .error _, h => absurd h (by simp [Bind.bind, Except.bind])

/-- What is kept of every item is kept of the list. -/
theorem map_of_mapM {g : β → γ} {h : α → γ} (keeps : ∀ x y, f x = .ok y → g y = h x) :
    ∀ {xs : List α} {ys : List β}, xs.mapM f = .ok ys → ys.map g = xs.map h
  | [], ys, hs => by
    obtain rfl : [] = ys := Except.ok.inj hs
    rfl
  | x :: xs, ys, hs => by
    rw [List.mapM_cons] at hs
    obtain ⟨y, hx, hs⟩ := ok_of_bind_ok hs
    obtain ⟨rest, hr, hs⟩ := ok_of_bind_ok hs
    obtain rfl : y :: rest = ys := Except.ok.inj hs
    rw [List.map_cons, List.map_cons, keeps x y hx, map_of_mapM keeps hr]

/-- A list of items that pass passes. -/
theorem mapM_map_ok {g : β → α} (passes : ∀ y, f (g y) = .ok y) :
    ∀ ys : List β, (ys.map g).mapM f = .ok ys
  | [] => rfl
  | y :: ys => by
    rw [List.map_cons, List.mapM_cons, passes, mapM_map_ok passes ys]
    rfl

end Passing

/-! ## Events -/

namespace Op

theorem ofText?_eq_none_iff {s : String} : ofText? s = none ↔ ¬(s = "c" ∨ s = "u" ∨ s = "d") := by
  unfold ofText?
  by_cases c : s = "c"
  · simp [c]
  · by_cases u : s = "u"
    · simp [u]
    · by_cases d : s = "d"
      · simp [d]
      · simp [c, u, d]

@[simp] theorem ofText?_text (o : Op) : ofText? o.text = some o := ofText?_eq_some_iff.mpr rfl

end Op

namespace Wire

/-- All that is wrong with the relationship of the event `id`, in the order it is looked at. -/
def Relationship.complaints (id : String) (r : Relationship) : List Invalid :=
  (if r.startId = "" then [.incompleteRelationship id .start] else []) ++
    if r.endId = "" then [.incompleteRelationship id .finish] else []

/-- All that is wrong with an event, in the order it is looked at. -/
def Event.complaints (w : Event) : List Invalid :=
  (if w.id = "" then [.emptyId] else []) ++
    ((if w.op = "c" ∨ w.op = "u" ∨ w.op = "d" then [] else [.invalidOp w.op]) ++
      w.relationship.elim [] (Relationship.complaints w.id))

/-- The labels of both ends listed by their bytes, each once. -/
def Relationship.tidied (r : Relationship) : Relationship :=
  { r with startLabels := Text.sorted r.startLabels, endLabels := Text.sorted r.endLabels }

/-- Every list of labels by their bytes, each once, and the rest as it is. -/
def Event.tidied (w : Event) : Event :=
  { w with labels := Text.sorted w.labels, relationship := w.relationship.map Relationship.tidied }

/-! ### What fails -/

theorem Relationship.failsFirst (id : String) (r : Relationship) :
    FailsFirst (r.complaints id) (r.check id) := by
  refine FailsFirst.guard (fun _ => ?_) _
  rw [← List.append_nil (if r.endId = "" then _ else _)]
  exact FailsFirst.guard (fun _ => .ok _) _

theorem Relationship.check?_failsFirst (id : String) : ∀ r? : Option Relationship,
    FailsFirst (r?.elim [] (Relationship.complaints id)) (Relationship.check? id r?)
  | none => .ok none
  | some r => (r.failsFirst id).map some

/-- An event is refused for the first thing that is wrong with it, and for nothing else. -/
theorem Event.failsFirst (w : Event) : FailsFirst w.complaints w.check := by
  refine FailsFirst.guard (fun _ => ?_) _
  cases op : Op.ofText? w.op with
  | none =>
    rw [if_neg (Op.ofText?_eq_none_iff.mp op)]
    exact .error _ _
  | some o =>
    have known : w.op = "c" ∨ w.op = "u" ∨ w.op = "d" := Decidable.byContradiction fun not =>
      absurd (op.symm.trans (Op.ofText?_eq_none_iff.mpr not)) (by simp)
    rw [if_pos known]
    exact (Relationship.check?_failsFirst w.id w.relationship).map _

theorem Event.complaints_eq_nil_iff {w : Event} : w.complaints = [] ↔
    w.id ≠ "" ∧ (w.op = "c" ∨ w.op = "u" ∨ w.op = "d") ∧
      ∀ r, w.relationship = some r → r.startId ≠ "" ∧ r.endId ≠ "" := by
  have known : (if w.op = "c" ∨ w.op = "u" ∨ w.op = "d" then [] else [Invalid.invalidOp w.op]) = [] ↔
      (w.op = "c" ∨ w.op = "u" ∨ w.op = "d") := by
    split <;> simp_all
  have ends : w.relationship.elim [] (Relationship.complaints w.id) = [] ↔
      ∀ r, w.relationship = some r → r.startId ≠ "" ∧ r.endId ≠ "" := by
    cases w.relationship <;> simp [Relationship.complaints]
  rw [Event.complaints, List.append_eq_nil_iff, List.append_eq_nil_iff, known, ends]
  simp

/-! ### What passes -/

theorem Relationship.wire_of_check {id : String} {r : Relationship} {d : ChangeRelay.Relationship}
    (h : r.check id = .ok d) : d.wire = r.tidied := by
  obtain rfl := Except.ok.inj (ok_of_guard_ok (ok_of_guard_ok h))
  simp [ChangeRelay.Relationship.wire, Relationship.tidied, TextSet.toList_ofList_eq]

theorem Relationship.wire_of_check? {id : String} : ∀ {r? : Option Relationship}
    {d? : Option ChangeRelay.Relationship}, Relationship.check? id r? = .ok d? →
      d?.map ChangeRelay.Relationship.wire = r?.map Relationship.tidied
  | none, d?, h => by
    obtain rfl := Except.ok.inj h
    rfl
  | some r, d?, h => by
    obtain ⟨d, hr, rfl⟩ := ok_of_map_ok h
    rw [Option.map_some, Option.map_some, wire_of_check hr]

/-- An event that passes is kept, but for the order of labels and how often each is given. -/
theorem Event.wire_of_check {w : Event} {d : ChangeRelay.Event} (h : w.check = .ok d) :
    d.wire = w.tidied := by
  have passed := ok_of_guard_ok h
  cases op : Op.ofText? w.op with
  | none => rw [op] at passed; exact absurd passed (by simp)
  | some o =>
    rw [op] at passed
    obtain ⟨r, hr, rfl⟩ := ok_of_map_ok passed
    simp [ChangeRelay.Event.wire, Event.tidied, TextSet.toList_ofList_eq,
      Relationship.wire_of_check? hr, Op.ofText?_eq_some_iff.mp op]

end Wire

theorem Relationship.check_wire {id : String} {r : Relationship} (start : r.startId ≠ "")
    (finish : r.endId ≠ "") : r.wire.check id = .ok r := by
  simp [Wire.Relationship.check, Relationship.wire, start, finish, TextSet.ofList_toList]

/-- An event passes in its travelling form, if it has an id and names the nodes it joins. -/
theorem Event.check_wire {d : Event} (id : d.id ≠ "")
    (ends : ∀ r, d.relationship = some r → r.startId ≠ "" ∧ r.endId ≠ "") :
    d.wire.check = .ok d := by
  have passes : Wire.Relationship.check? d.id (d.relationship.map Relationship.wire) =
      .ok d.relationship := by
    cases hr : d.relationship with
    | none => rfl
    | some r =>
      obtain ⟨start, finish⟩ := ends r hr
      simp only [Option.map_some, Wire.Relationship.check?, Relationship.check_wire start finish,
        Except.map]
  simp [Wire.Event.check, Event.wire, id, passes, Except.map, TextSet.ofList_toList]

/-- What a check makes of an event as it travelled. -/
structure Wire.Event.Checked (w : Wire.Event) : Prop where
  /-- What passes. -/
  accepted : (∃ d, w.check = .ok d) ↔ w.id ≠ "" ∧ (w.op = "c" ∨ w.op = "u" ∨ w.op = "d") ∧
    ∀ r, w.relationship = some r → r.startId ≠ "" ∧ r.endId ≠ ""
  /-- The reason to refuse is the first of all there are. -/
  refused : ∀ cause, w.check = .error cause ↔ w.complaints.head? = some cause
  /-- Nothing is changed but the lists of labels. -/
  lossless : ∀ d, w.check = .ok d → d.wire = w.tidied
  /-- A relationship is neither lost nor made up. -/
  present : ∀ d, w.check = .ok d → d.relationship.isSome = w.relationship.isSome

/-- **Checks of events are exact, and lose nothing.** An event passes iff it has an id, a kind of
change and, for a relationship, both ends; else the first thing that is missing is what it is refused
for. What passes travels on as it came, with its labels in order; and every event of a graph that has
an id and names the nodes it joins passes as itself. -/
theorem Wire.events_exact : (∀ w : Wire.Event, w.Checked) ∧
    ∀ d : ChangeRelay.Event, d.id ≠ "" →
      (∀ r, d.relationship = some r → r.startId ≠ "" ∧ r.endId ≠ "") → d.wire.check = .ok d := by
  refine ⟨fun w => ⟨?_, w.failsFirst, fun d => Wire.Event.wire_of_check, fun d h => ?_⟩,
    fun d => ChangeRelay.Event.check_wire⟩
  · exact w.failsFirst.isOk_iff.trans Wire.Event.complaints_eq_nil_iff
  · have same := congrArg Wire.Event.relationship (Wire.Event.wire_of_check h)
    simpa [ChangeRelay.Event.wire, Wire.Event.tidied] using congrArg Option.isSome same

namespace Wire.Sample

/-- A relationship whose labels come in no order, one of them twice. -/
def joining : Wire.Event :=
  { Wire.Event.empty with
    op := "u", id := "likes", labels := ["b", "é", "a", "b"],
    relationship := some ⟨"p", "q", ["y", "x"], []⟩ }

/-- The same, as it passes. -/
def joined : ChangeRelay.Event :=
  { ChangeRelay.Event.between 0 .update "likes" "p" "q" with
    labels := .ofList ["a", "b", "é"], relationship := some ⟨"p", "q", .ofList ["x", "y"], .empty⟩ }

theorem check_joining : joining.check = .ok joined := by
  rfl

end Wire.Sample

/-- The sample passes, and passes again. -/
theorem Wire.events_sample : Sample.joined.wire = Sample.joining.tidied ∧
    Sample.joined.wire.check = .ok Sample.joined := by
  refine ⟨(Wire.events_exact.1 Sample.joining).lossless _ Sample.check_joining,
    Wire.events_exact.2 Sample.joined (by decide) ?_⟩
  rintro r ⟨⟩
  exact ⟨by decide, by decide⟩

/-- Of three things that are wrong the first counts. -/
example : (⟨0, 0, "C", "likes", [], .empty, some ⟨"", "", [], []⟩⟩ : Wire.Event).check =
    .error (.invalidOp "C") := rfl

/-! ## Invocations -/

namespace Wire

/-- The fields of a record without a value, in order of name. -/
def Record.unset (r : Record) : List String :=
  r.entries.flatMap fun p => if p.2 = none then [p.1] else []

/-- The fields without a value: of what was added, then of what was updated, then of what was
deleted. -/
def Payload.unset (p : Payload) : List String :=
  p.added.flatMap Record.unset ++ (p.updated.flatMap Record.unset ++ p.deleted.flatMap Record.unset)

/-- All that is wrong with an invocation, in the order it is looked at. -/
def Invocation.complaints (i : Invocation) : List Invalid :=
  (if i.id = "" then [.emptyInvocationId] else []) ++
    ((if i.query = "" then [.emptyQueryId] else []) ++
      i.payload.elim [.missingPayload] fun p => p.unset.map .emptyValue)

/-- A null with the number 0. -/
def Scalar.zeroed : Scalar → Scalar
  | .null _ => .null 0
  | s => s

def Record.zeroed (r : Record) : Record := r.map (Option.map Scalar.zeroed)

def Payload.zeroed (p : Payload) : Payload :=
  { p with
    added := p.added.map Record.zeroed
    updated := p.updated.map Record.zeroed
    deleted := p.deleted.map Record.zeroed }

/-- Every null with the number 0, and the rest as it is. -/
def Invocation.zeroed (i : Invocation) : Invocation :=
  { i with payload := i.payload.map Payload.zeroed }

/-! ### What fails -/

/-- The values of a record are checked in order of name. -/
theorem Record.failsFirst (r : Record) :
    FailsFirst ((Record.unset r).map .emptyValue) (Record.check r) := by
  have each : ∀ p : String × Value, FailsFirst (if p.2 = none then [.emptyValue p.1] else [])
      ((Value.check p.1 p.2).map fun y => (p.1, y)) := by
    rintro ⟨field, _ | s⟩
    · exact .error _ _
    · exact .ok _
  have all := (FailsFirst.mapM each r.entries).map Dict.ofList
  have fields : (Record.unset r).map Invalid.emptyValue =
      r.entries.flatMap fun p => if p.2 = none then [.emptyValue p.1] else [] := by
    rw [Record.unset, List.map_flatMap]
    congr 1
    funext p
    split <;> rfl
  rw [fields]
  exact all

theorem Payload.failsFirst (p : Payload) :
    FailsFirst (p.unset.map .emptyValue) p.check := by
  have list : ∀ records : List Record, FailsFirst
      ((records.flatMap Record.unset).map .emptyValue) (records.mapM Record.check) := by
    intro records
    rw [List.map_flatMap]
    exact FailsFirst.mapM Record.failsFirst records
  rw [Payload.unset, List.map_append, List.map_append]
  refine (list p.added).bind fun added => (list p.updated).bind fun updated => ?_
  rw [← List.append_nil (List.map _ _)]
  exact (list p.deleted).bind fun deleted => .ok _

/-- An invocation is refused for the first thing that is wrong with it, and for nothing else. -/
theorem Invocation.failsFirst (i : Invocation) : FailsFirst i.complaints i.check := by
  refine FailsFirst.guard (fun _ => FailsFirst.guard (fun _ => ?_) _) _
  cases i.payload with
  | none => exact .error _ _
  | some p => exact p.failsFirst.map _

theorem Record.unset_eq_nil_iff {r : Record} :
    Record.unset r = [] ↔ ∀ field, (field, none) ∉ r.entries := by
  rw [Record.unset, List.flatMap_eq_nil_iff]
  constructor
  · intro h field hf
    exact absurd (h _ hf) (by simp)
  · rintro h ⟨field, _ | s⟩ hp
    · exact absurd hp (h field)
    · rfl

theorem Payload.unset_eq_nil_iff {p : Payload} : p.unset = [] ↔
    ∀ r ∈ p.added ++ p.updated ++ p.deleted, ∀ field, (field, none) ∉ r.entries := by
  simp only [Payload.unset, List.append_eq_nil_iff, List.flatMap_eq_nil_iff,
    Record.unset_eq_nil_iff, List.forall_mem_append, and_assoc]

theorem Invocation.complaints_eq_nil_iff {i : Invocation} : i.complaints = [] ↔
    i.id ≠ "" ∧ i.query ≠ "" ∧ ∃ p, i.payload = some p ∧
      ∀ r ∈ p.added ++ p.updated ++ p.deleted, ∀ field, (field, none) ∉ r.entries := by
  have payload : (i.payload.elim [Invalid.missingPayload] fun p => p.unset.map .emptyValue) = [] ↔
      ∃ p, i.payload = some p ∧
        ∀ r ∈ p.added ++ p.updated ++ p.deleted, ∀ field, (field, none) ∉ r.entries := by
    cases i.payload with
    | none => simp
    | some p =>
      rw [Option.elim_some, List.map_eq_nil_iff, Payload.unset_eq_nil_iff]
      simp
  rw [Invocation.complaints, List.append_eq_nil_iff, List.append_eq_nil_iff, payload]
  simp

/-! ### What passes -/

theorem Scalar.wire_value (s : Scalar) : s.value.wire = some s.zeroed := by cases s <;> rfl

theorem Record.wire_of_check {r : Record} {d : ChangeRelay.Record} (h : Record.check r = .ok d) :
    recordWire d = Record.zeroed r := by
  have each : ∀ (p : String × Value) (q : String × ChangeRelay.Value),
      (Value.check p.1 p.2).map (fun y => (p.1, y)) = .ok q →
        (q.1, q.2.wire) = (p.1, p.2.map Scalar.zeroed) := by
    rintro ⟨field, _ | s⟩ q hq
    · exact absurd hq (by simp [Value.check, Except.map])
    · obtain rfl := Except.ok.inj hq
      rw [Scalar.wire_value]
      rfl
  obtain ⟨entries, hs, rfl⟩ := ok_of_map_ok h
  have kept := map_of_mapM (g := fun q => (q.1, q.2.wire)) each hs
  -- The names are those of the record, so they are in order still.
  have sorted : entries.Pairwise fun p q => p.1 < q.1 := by
    have names : entries.map Prod.fst = r.entries.map Prod.fst := by
      simpa [Function.comp_def] using congrArg (List.map Prod.fst) kept
    have := List.pairwise_map.mpr r.sorted
    rw [← names] at this
    exact List.pairwise_map.mp this
  refine Dict.ext ?_
  change (Dict.ofList entries).entries.map _ = _
  rw [Dict.entries_ofList sorted]
  exact kept

theorem Payload.wire_of_check {p : Payload} {d : ChangeRelay.Payload} (h : p.check = .ok d) :
    d.wire = p.zeroed := by
  have list : ∀ {records : List Record} {ds : List ChangeRelay.Record},
      records.mapM Record.check = .ok ds → ds.map recordWire = records.map Record.zeroed :=
    fun h => map_of_mapM (fun _ _ => Record.wire_of_check) h
  obtain ⟨added, ha, h⟩ := ok_of_bind_ok h
  obtain ⟨updated, hu, h⟩ := ok_of_bind_ok h
  obtain ⟨deleted, hd, h⟩ := ok_of_bind_ok h
  obtain rfl := Except.ok.inj h
  simp only [ChangeRelay.Payload.wire, Payload.zeroed, list ha, list hu, list hd]

/-- An invocation that passes is kept, but for the numbers of nulls. -/
theorem Invocation.wire_of_check {i : Invocation} {d : ChangeRelay.Invocation}
    (h : i.check = .ok d) : d.wire = i.zeroed := by
  have passed := ok_of_guard_ok (ok_of_guard_ok h)
  cases hp : i.payload with
  | none => rw [hp] at passed; exact absurd passed (by simp)
  | some p =>
    rw [hp] at passed
    obtain ⟨payload, hc, rfl⟩ := ok_of_map_ok passed
    simp [ChangeRelay.Invocation.wire, Invocation.zeroed, hp, Payload.wire_of_check hc]

end Wire

theorem Value.check_wire (field : String) (v : Value) : Wire.Value.check field v.wire = .ok v := by
  cases v <;> rfl

theorem Record.check_wire (r : Record) : Wire.Record.check (recordWire r) = .ok r := by
  have entries := mapM_map_ok (ε := Invalid)
    (f := fun p : String × Wire.Value => (Wire.Value.check p.1 p.2).map fun y => (p.1, y))
    (g := fun p : String × Value => (p.1, p.2.wire))
    (fun p => by rw [Value.check_wire]; rfl) r.entries
  rw [Wire.Record.check, Dict.traverse, recordWire, Dict.map, entries]
  exact congrArg Except.ok (Dict.ofList_entries r)

theorem Payload.check_wire (p : Payload) : p.wire.check = .ok p := by
  simp only [Wire.Payload.check, Payload.wire, mapM_map_ok Record.check_wire]
  rfl

/-- An invocation passes in its travelling form, if it has an id and a query. -/
theorem Invocation.check_wire {d : Invocation} (id : d.id ≠ "") (query : d.query ≠ "") :
    d.wire.check = .ok d := by
  simp only [Wire.Invocation.check, Invocation.wire, if_neg id, if_neg query, Payload.check_wire]
  rfl

/-- What a check makes of an invocation as it travelled. -/
structure Wire.Invocation.Checked (i : Wire.Invocation) : Prop where
  /-- What passes. -/
  accepted : (∃ d, i.check = .ok d) ↔ i.id ≠ "" ∧ i.query ≠ "" ∧ ∃ p, i.payload = some p ∧
    ∀ r ∈ p.added ++ p.updated ++ p.deleted, ∀ field, (field, none) ∉ r.entries
  /-- The reason to refuse is the first of all there are. -/
  refused : ∀ cause, i.check = .error cause ↔ i.complaints.head? = some cause
  /-- Nothing is changed but the numbers of nulls. -/
  lossless : ∀ d, i.check = .ok d → d.wire = i.zeroed

/-- **Checks of invocations are exact, and lose nothing.** An invocation passes iff it has an id, a
query and a payload in which every field has a value; else the first thing that is missing is what it
is refused for. What passes travels on as it came, with every null's number 0; and every invocation
that has an id and a query passes as itself. -/
theorem Wire.invocations_exact : (∀ i : Wire.Invocation, i.Checked) ∧
    ∀ d : ChangeRelay.Invocation, d.id ≠ "" → d.query ≠ "" → d.wire.check = .ok d :=
  ⟨fun i => ⟨i.failsFirst.isOk_iff.trans Wire.Invocation.complaints_eq_nil_iff, i.failsFirst,
    fun _ => Wire.Invocation.wire_of_check⟩, fun _ => ChangeRelay.Invocation.check_wire⟩

namespace Wire.Sample

/-- A record came and another went, each with a null. -/
def changing : Wire.Invocation :=
  { Wire.Invocation.empty with
    id := "i", query := "q",
    payload := some ⟨1, [.ofList [("b", some (.null 7)), ("a", some (.integer (-1)))]], [],
      [.ofList [("", some (.null 0))]]⟩ }

/-- The same, as it passes. -/
def changed : ChangeRelay.Invocation :=
  ⟨"i", 0, "q", .empty, ⟨1, [.ofList [("a", .integer (-1)), ("b", .null)]], [], [.ofList [("", .null)]]⟩⟩

theorem check_changing : changing.check = .ok changed := by
  rfl

end Wire.Sample

/-- The sample passes, and passes again. -/
theorem Wire.invocations_sample : Sample.changed.wire = Sample.changing.zeroed ∧
    Sample.changed.wire.check = .ok Sample.changed :=
  ⟨(Wire.invocations_exact.1 Sample.changing).lossless _ Sample.check_changing,
    Wire.invocations_exact.2 Sample.changed (by decide) (by decide)⟩

end ChangeRelay
