import ChangeRelay.Proofs.Json.Compact
import ChangeRelay.Reply.Json
import ChangeRelay.Wire.Json
import Mathlib.Data.List.Forall2

/-!
# Changes are read from JSON as they were written

The JSON form of an event is read as that event, whatever its texts, labels and numbers, and with
its relationship there or not. The body of a request that writes a list of events is read as that
list, and one that writes a single event as that event. So is a reply, whether who reads it asks for
all of its members or not. That the text of a form is read as the message (`Json.Returns`) follows
from two facts about each type: the tree of the form is legible, and it is read as the message.

* **`Event.ofJson?_json`**, **`Batch.ofJson?_json`**: events and batches come back from their forms.
* **`Body.read_many`**, **`Body.read_one`**: so do the events of a body.
* **`DispatchReply.read?_json`**: and so does a reply.
-/

namespace ChangeRelay

namespace Json

variable {l : Limits} {n : Nat}

/-! ## Simple values -/

theorem Limits.HasRoom.mono {m : Nat} (h : l.HasRoom n) (le : m ≤ n) : l.HasRoom m :=
  fun most hd => Nat.lt_of_le_of_lt le (h most hd)

/-- An integer of 64 bits, with or without a sign. -/
theorem legible_int {i : Int} (lower : -0x8000000000000000 ≤ i) (upper : i < 0x10000000000000000) :
    Legible l n (.int i) :=
  .number (Numeral.isProper_ofInt i) fun _ => by rw [Numeral.number?_ofInt lower upper]; rfl

theorem integer?_int {i : Int} (lower : -0x8000000000000000 ≤ i) (upper : i < 0x10000000000000000) :
    (Json.int i).integer? = some i := by
  simp only [integer?, Json.int, Numeral.number?_ofInt lower upper]

theorem toNat_bounds (k : UInt64) :
    -0x8000000000000000 ≤ (k.toNat : Int) ∧ (k.toNat : Int) < 0x10000000000000000 := by
  have := k.toNat_lt
  omega

theorem toInt_bounds (i : Int64) :
    -0x8000000000000000 ≤ i.toInt ∧ i.toInt < 0x8000000000000000 := by
  have lower := i.minValue_le_toInt
  have upper := i.toInt_le
  constructor
  · exact lower
  · exact Int.lt_of_le_of_lt upper (by decide)

@[simp] theorem nat64?_int (k : UInt64) : (Json.int k.toNat).nat64? = some k := by
  unfold nat64?
  rw [integer?_int (toNat_bounds k).1 (toNat_bounds k).2, Option.bind_some,
    if_pos (Int.natCast_nonneg _), Int.toNat_natCast, UInt64.ofNat_toNat]

@[simp] theorem int64?_int (i : Int64) : (Json.int i.toInt).int64? = some i := by
  obtain ⟨lower, upper⟩ := toInt_bounds i
  unfold int64?
  rw [integer?_int lower (by omega), Option.bind_some, if_pos upper, Int64.ofInt_toInt]

@[simp] theorem text?_text (s : String) : (Json.text s).text? = some s := rfl

/-- Forms that are read, in a row. -/
theorem mapM_map {α β γ : Type} {f : β → Option γ} {form : α → β} {g : α → γ} : ∀ {xs : List α},
    (∀ x ∈ xs, f (form x) = some (g x)) → (xs.map form).mapM f = some (xs.map g)
  | [], _ => rfl
  | x :: xs, h => by
    rw [List.map_cons, List.mapM_cons, h x (by simp), mapM_map fun y hy => h y (by simp [hy])]
    rfl

/-- An array of forms, each of which is read. -/
theorem list?_array {α : Type} {f : Json → Option α} {form : α → Json} {xs : List α}
    (h : ∀ x ∈ xs, f (form x) = some x) : (Json.array (xs.map form)).list? f = some xs := by
  have all := mapM_map (g := fun x => x) h
  rwa [List.map_id'] at all

theorem legible_array {α : Type} {form : α → Json} {xs : List α} (room : l.HasRoom n)
    (h : ∀ x ∈ xs, Legible l (n + 1) (form x)) : Legible l n (.array (xs.map form)) := by
  refine .array room fun j hj => ?_
  obtain ⟨x, hx, rfl⟩ := List.mem_map.mp hj
  exact h x hx

/-! ## Records -/

/-- An object with a form under every name, each of which is read. -/
theorem members?_record {α : Type} {f : Json → Option α} {form : α → Json} {ps : List (String × α)}
    (h : ∀ p ∈ ps, f (form p.2) = some p.2) :
    (Json.record (ps.map fun p => (p.1, form p.2))).members? f = some ps := by
  let member (m : Option String × Json) : Option (String × α) := do
    let k ← m.1
    let x ← f m.2
    return (k, x)
  have all : (ps.map fun p => (some p.1, form p.2)).mapM member = some (ps.map fun p => p) := by
    refine mapM_map fun p hp => ?_
    simp [member, h p hp]
  rw [List.map_id'] at all
  unfold record members?
  rwa [List.map_map]

/-- The members of a record, as they stand in its object. -/
theorem member?_record {ms : List (String × Json)} (nodup : (ms.map Prod.fst).Nodup)
    {m : String × Json} (hm : m ∈ ms) :
    member? (ms.map fun m => (some m.1, m.2)) m.1 = some (some m.2) := by
  have one : (ms.map fun m => (some m.1, m.2)).filter (fun m' => m'.1 = some m.1) =
      [(some m.1, m.2)] := by
    induction ms with
    | nil => cases hm
    | cons m' ms ih =>
      rw [List.map_cons, List.nodup_cons] at nodup
      rcases List.mem_cons.mp hm with rfl | hm
      · have others : (ms.map fun m => (some m.1, m.2)).filter (fun m' => m'.1 = some m.1) =
            [] := by
          rw [List.filter_eq_nil_iff]
          intro m' hm' same
          obtain ⟨m'', hm'', rfl⟩ := List.mem_map.mp hm'
          have name : m''.1 = m.1 := by simpa using same
          exact nodup.1 (name ▸ List.mem_map_of_mem hm'')
        simp [others]
      · have other : m'.1 ≠ m.1 := by
          rintro same
          exact nodup.1 (same ▸ List.mem_map_of_mem hm)
        simp [other, ih nodup.2 hm]
  unfold member?
  rw [one]

/-- Members of other names are passed over. -/
theorem member?_append {ms others : List (String × Json)} {name : String}
    (absent : name ∉ others.map Prod.fst) :
    member? ((ms ++ others).map fun m => (some m.1, m.2)) name =
      member? (ms.map fun m => (some m.1, m.2)) name := by
  have none : (others.map fun m => (some m.1, m.2)).filter (fun m => m.1 = some name) = [] := by
    rw [List.filter_eq_nil_iff]
    intro m hm same
    obtain ⟨m', hm', rfl⟩ := List.mem_map.mp hm
    have name : m'.1 = name := by simpa using same
    exact absent (name ▸ List.mem_map_of_mem hm')
  unfold member?
  rw [List.map_append, List.filter_append, none, List.append_nil]

theorem member?_absent {ms : List (String × Json)} {name : String}
    (absent : name ∉ ms.map Prod.fst) :
    member? (ms.map fun m => (some m.1, m.2)) name = some none :=
  @member?_append [] ms name absent

theorem member?_eq_of_mem {ms : List (String × Json)} {name : String} {found : Option Json}
    {j : Json} (h : member? (ms.map fun m => (some m.1, m.2)) name = some found) (hm : (name, j) ∈ ms) :
    found = some j := by
  have there : (some name, j) ∈
      (ms.map fun m => (some m.1, m.2)).filter fun m => m.1 = some name :=
    List.mem_filter.mpr ⟨List.mem_map.mpr ⟨_, hm, rfl⟩, by simp⟩
  unfold member? at h
  split at h
  · next none => simp [none] at there
  · next m one =>
    rw [one, List.mem_singleton] at there
    rw [← Option.some.inj h, ← there]
  · cases h

/-- The members of an object may stand in any order. -/
theorem member?_perm {ms ms' : List (String × Json)} (order : ms.Perm ms') {name : String}
    {found : Option Json} (h : member? (ms'.map fun m => (some m.1, m.2)) name = some found) :
    member? (ms.map fun m => (some m.1, m.2)) name = some found := by
  have same := (order.map fun m => (some m.1, m.2)).filter fun m => m.1 = some name
  unfold member? at h ⊢
  split at h
  · next none =>
    rw [none] at same
    rwa [same.eq_nil]
  · next m one =>
    rw [one] at same
    rwa [same.eq_singleton]
  · cases h

/-- The values of a record, from what stands under each of its names. -/
theorem values?_of_member? {fields ms : List (String × Json)} {names : List String}
    {found : String × Json → Option Json} (named : fields.map Prod.fst = names)
    (h : ∀ m ∈ fields, member? (ms.map fun m => (some m.1, m.2)) m.1 = some (found m)) :
    (Json.record ms).values? names = some (fields.map found) := by
  have keys : ((ms.map fun m => (some m.1, m.2)).all fun m => m.1.isSome) = true := by simp
  subst named
  unfold record values?
  exact (if_pos keys).trans (mapM_map h)

/-- What stands under the names of a record that was read. -/
theorem member?_of_values? {ms : List (String × Json)} {names : List String}
    {vs : List (Option Json)} (h : (Json.record ms).values? names = some vs) :
    List.Forall₂ (fun name v => member? (ms.map fun m => (some m.1, m.2)) name = some v)
      names vs := by
  have keys : ((ms.map fun m => (some m.1, m.2)).all fun m => m.1.isSome) = true := by simp
  unfold record values? at h
  replace h := (if_pos keys).symm.trans h
  induction names generalizing vs with
  | nil =>
    obtain rfl := Option.some.inj h
    exact .nil
  | cons name names ih =>
    simp only [List.mapM_cons, Option.bind_eq_bind, Option.bind_eq_some_iff, Option.pure_def,
      Option.some.injEq] at h
    obtain ⟨v, first, vs, others, rfl⟩ := h
    exact .cons first (ih others)

/-- The values of a record are those of its object, and none under the names that are left out. -/
theorem values?_leading {ms : List (String × Json)} {names : List String} (missing : List String)
    (named : ms.map Prod.fst ++ missing = names) (nodup : names.Nodup) :
    (Json.record ms).values? names =
      some (ms.map (fun m => some m.2) ++ missing.map fun _ => none) := by
  subst named
  obtain ⟨distinct, -, apart⟩ := List.nodup_append.mp nodup
  have keys : ((ms.map fun m => (some m.1, m.2)).all fun m => m.1.isSome) = true := by
    simp
  have there : (ms.map Prod.fst).mapM (member? (ms.map fun m => (some m.1, m.2))) =
      some (ms.map fun m => some m.2) :=
    mapM_map fun m hm => member?_record distinct hm
  have absent : missing.mapM (member? (ms.map fun m => (some m.1, m.2))) =
      some (missing.map fun _ => none) := by
    have all : (missing.map fun name => name).mapM (member? (ms.map fun m => (some m.1, m.2))) =
        some (missing.map fun _ => none) :=
      mapM_map fun name hn => member?_absent fun h => apart _ h _ hn rfl
    rwa [List.map_id'] at all
  have values : (ms.map Prod.fst ++ missing).mapM (member? (ms.map fun m => (some m.1, m.2))) =
      some (ms.map (fun m => some m.2) ++ missing.map fun _ => none) := by
    rw [List.mapM_append, there, absent]
    rfl
  unfold record values?
  exact (if_pos keys).trans values

/-- The values of a record with a member under every name. -/
theorem values?_record {ms : List (String × Json)} {names : List String}
    (named : ms.map Prod.fst = names) (nodup : names.Nodup) :
    (Json.record ms).values? names = some (ms.map fun m => some m.2) := by
  have values := values?_leading [] (by rwa [List.append_nil]) nodup
  rwa [List.map_nil, List.append_nil] at values

/-! ## Whole texts -/

/-- A message comes back from the text that its form writes. -/
def Returns {α : Type} (json : α → Json) (ofJson? : Json → Option α) (a : α) : Prop :=
  (read? (Text.bytes (json a).compact)).bind ofJson? = some a

theorem Returns.of_legible {α : Type} {json : α → Json} {ofJson? : Json → Option α} {a : α}
    (legible : Legible .none 0 (json a)) (h : ofJson? (json a) = some a) :
    Returns json ofJson? a := by
  unfold Returns
  rw [read?_compact legible, Option.bind_some, h]

theorem hasRoom_none : Limits.none.HasRoom n := fun _ h => nomatch h

theorem legible_nat64 (k : UInt64) : Legible .none n (.int k.toNat) :=
  legible_int (toNat_bounds k).1 (toNat_bounds k).2

theorem legible_int64 (i : Int64) : Legible .none n (.int i.toInt) :=
  legible_int (toInt_bounds i).1 (Int.lt_trans (toInt_bounds i).2 (by decide))

end Json

/-! ## Parts of changes -/

namespace Dict

variable {l : Json.Limits} {n : Nat}

@[simp] theorem ofJson?_json (d : Dict String) : Dict.ofJson? d.json = some d := by
  have entries : d.json.members? Json.text? = some d.entries :=
    Json.members?_record fun _ _ => rfl
  unfold ofJson?
  rw [entries, Option.map_some, ofList_entries]

theorem legible_json (room : l.HasRoom n) (d : Dict String) : Json.Legible l n d.json := by
  refine .record room fun m hm => ?_
  obtain ⟨p, -, rfl⟩ := List.mem_map.mp hm
  exact .text p.2

end Dict

namespace Wire

variable {l : Json.Limits} {n : Nat}

@[simp] theorem list?_textsJson (ss : List String) : (textsJson ss).list? Json.text? = some ss :=
  Json.list?_array fun _ _ => rfl

theorem legible_textsJson (room : l.HasRoom n) (ss : List String) :
    Json.Legible l n (textsJson ss) :=
  Json.legible_array room fun s _ => .text s

namespace Relationship

@[simp] theorem ofJson?_json (r : Relationship) : ofJson? r.json = some r := by
  have values : r.json.values? ChangeRelay.Relationship.names = some [some (.text r.startId),
      some (.text r.endId), some (textsJson r.startLabels), some (textsJson r.endLabels)] :=
    Json.values?_record rfl (by decide)
  unfold ofJson?
  rw [values]
  simp [Json.orElse]

theorem legible_json (room : l.HasRoom (n + 1)) (r : Relationship) : Json.Legible l n r.json := by
  refine .record (room.mono (by omega)) ?_
  simp only [List.forall_mem_cons]
  exact ⟨.text _, .text _, legible_textsJson room _, legible_textsJson room _, by simp⟩

end Relationship

namespace Event

/-- A relationship that is there is not taken for one that is not. -/
theorem nullable?_relationship (r? : Option Relationship) :
    Json.nullable? Relationship.ofJson? ((r?.map Relationship.json).getD .null) = some r? := by
  cases r? with
  | none => rfl
  | some r =>
    show (Relationship.ofJson? r.json).map some = _
    rw [Relationship.ofJson?_json]
    rfl

/-- **An event comes back from its form.** -/
theorem ofJson?_json (e : Event) : ofJson? e.json = some e := by
  have values : e.json.values? ChangeRelay.Event.names = some [some (.int e.sequence.toNat),
      some (.int e.timestamp.toInt), some (.text e.op), some (.text e.id),
      some (textsJson e.labels), some e.properties.json,
      some ((e.relationship.map Relationship.json).getD .null)] :=
    Json.values?_record rfl (by decide)
  unfold ofJson?
  rw [values]
  simp [Json.orElse, nullable?_relationship]

theorem legible_json (room : l.HasRoom (n + 2)) (e : Event) : Json.Legible l n e.json := by
  have sequence := Json.toNat_bounds e.sequence
  have timestamp := Json.toInt_bounds e.timestamp
  have inside : l.HasRoom (n + 1) := room.mono (by omega)
  have relationship : Json.Legible l (n + 1) ((e.relationship.map Relationship.json).getD .null) := by
    cases e.relationship with
    | none => exact .null
    | some r => exact Relationship.legible_json room r
  refine .record (room.mono (by omega)) ?_
  simp only [List.forall_mem_cons]
  exact ⟨Json.legible_int sequence.1 sequence.2, Json.legible_int timestamp.1 (by omega), .text _,
    .text _, legible_textsJson inside _, Dict.legible_json inside _, relationship, by simp⟩

end Event

namespace Batch

/-- **A batch comes back from its form.** -/
theorem ofJson?_json (b : Batch) : ofJson? b.json = some b := by
  have values : b.json.values? names = some [some (.text b.source),
      some (.array (b.events.map Event.json)), some b.metadata.json] :=
    Json.values?_record rfl (by decide)
  have events : (Json.array (b.events.map Event.json)).list? Event.ofJson? = some b.events :=
    Json.list?_array fun e _ => Event.ofJson?_json e
  unfold ofJson?
  rw [values]
  simp [Json.orElse, events]

theorem legible_json (room : l.HasRoom (n + 4)) (b : Batch) : Json.Legible l n b.json := by
  have inside : l.HasRoom (n + 1) := room.mono (by omega)
  refine .record (room.mono (by omega)) ?_
  simp only [List.forall_mem_cons]
  exact ⟨.text _, Json.legible_array inside fun e _ => Event.legible_json room e,
    Dict.legible_json inside _, by simp⟩

end Batch

/-! ## Bodies of requests -/

namespace Body

theorem hasRoom (small : n < 127) : limits.HasRoom n := by
  intro most h
  obtain rfl := Option.some.inj h
  exact small

/-- A text that writes a tree is read as what the tree is read as. -/
theorem read_compact {j : Json} {b : Body} (legible : Json.Legible limits 0 j)
    (h : ofJson? j = some b) : read (Text.bytes j.compact) = .ok b := by
  have whole := Json.readPrefix_compact legible Json.Reader.apart_nil
  rw [List.append_nil] at whole
  unfold read
  rw [whole]
  simp only [h]
  rfl

/-- **A body that writes a list of events** is read as that list. -/
theorem read_many (es : List Event) :
    read (Text.bytes (Json.array (es.map Event.json)).compact) = .ok (.many es) := by
  refine read_compact ?_ ?_
  · exact Json.legible_array (hasRoom (by decide)) fun e _ => Event.legible_json
      (hasRoom (by decide)) e
  · unfold ofJson?
    rw [Json.list?_array fun e _ => Event.ofJson?_json e]
    rfl

/-- **A body that writes an event** is read as that event. -/
theorem read_one (e : Event) : read (Text.bytes e.json.compact) = .ok (.one e) := by
  refine read_compact (Event.legible_json (hasRoom (by decide)) e) ?_
  have noList : e.json.list? Event.ofJson? = none := rfl
  unfold ofJson?
  rw [noList, Event.ofJson?_json]
  rfl

end Body

end Wire

/-! ## Replies -/

namespace DispatchReply

variable (r : DispatchReply)

theorem values?_json : r.json.values? names = some [some (.bool r.success),
    some (.text r.message), some (.int r.processed.toNat)] :=
  Json.values?_record rfl (by decide)

theorem ofJson?_json : ofJson? r.json = some r := by
  unfold ofJson?
  rw [values?_json]
  simp [Json.required, Json.bool?]

theorem ofJsonLenient?_json : ofJsonLenient? r.json = some r := by
  unfold ofJsonLenient?
  rw [values?_json]
  simp [Json.orElse, Json.bool?]

theorem legible_json {n : Nat} : Json.Legible .none n r.json := by
  refine .record Json.hasRoom_none ?_
  simp only [List.forall_mem_cons]
  exact ⟨.bool _, .text _, Json.legible_nat64 _, by simp⟩

/-- **A reply comes back** from the text of its form. -/
theorem read?_json : (Json.read? (Text.bytes r.json.compact)).bind ofJson? = some r :=
  Json.Returns.of_legible r.legible_json r.ofJson?_json

end DispatchReply

namespace InvocationReply

variable (r : InvocationReply)

theorem ofJson?_json : ofJson? r.json = some r := by
  have values : r.json.values? names = some [some (.bool r.success), some (.text r.message),
      some (.text r.id)] :=
    Json.values?_record rfl (by decide)
  unfold ofJson?
  rw [values]
  simp [Json.required, Json.bool?]

theorem legible_json {n : Nat} : Json.Legible .none n r.json := by
  refine .record Json.hasRoom_none ?_
  simp only [List.forall_mem_cons]
  exact ⟨.bool _, .text _, .text _, by simp⟩

end InvocationReply

end ChangeRelay
