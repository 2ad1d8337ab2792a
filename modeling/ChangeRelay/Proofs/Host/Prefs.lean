import ChangeRelay.Host.Stored
import ChangeRelay.Proofs.Change.Json
import ChangeRelay.Proofs.Host.Address
import ChangeRelay.Proofs.Json.Pretty
import ChangeRelay.Proofs.Store.Kept

/-!
# Preferences are read leniently

Preferences are kept as an object with a member for each field. `Document` is a text of such an
object as a host of another version may have left it: fields are missing, members are there that no
field is kept under, they stand in any order, and the object is spelled in any way. `without` gives
the fields that are missing their usual values.

* **`Document.read?`**: so such a text is read.
* `read?_write`: what a host writes is the case with no field missing.
* `tells_of_ofJson?`: a member that is `null` says something else than one that is missing.
* **`read_leniently`**: preferences are read from each of their texts and come back from a store.
-/

namespace ChangeRelay.Prefs

/-! ## Fields -/

/-- The members of the object in which preferences are written. -/
def fields (p : Prefs) : List (String × Json) :=
  match p.json with
  | .object ms => ms.filterMap fun m => m.1.map fun name => (name, m.2)
  | _ => []

theorem json_eq (p : Prefs) : p.json = .record p.fields := rfl

theorem names_fields (p : Prefs) : p.fields.map Prod.fst = names := rfl

/-- Preferences with the usual values of some fields in place of their own. -/
def without (p : Prefs) (left : List String) : Prefs where
  dispatcherAddress :=
    if "source_dispatcher_addr" ∈ left then default.dispatcherAddress else p.dispatcherAddress
  reactionAddress :=
    if "reaction_handler_addr" ∈ left then default.reactionAddress else p.reactionAddress
  httpAddress := if "http_addr" ∈ left then default.httpAddress else p.httpAddress
  defaultSource := if "default_source_id" ∈ left then default.defaultSource else p.defaultSource
  maxWorkers := if "max_workers" ∈ left then default.maxWorkers else p.maxWorkers
  requestTimeout :=
    if "request_timeout_secs" ∈ left then default.requestTimeout else p.requestTimeout
  failurePolicy := if "batch_failure_policy" ∈ left then default.failurePolicy else p.failurePolicy
  maxStreams := if "max_source_streams" ∈ left then default.maxStreams else p.maxStreams
  capacity := if "dedup_capacity" ∈ left then default.capacity else p.capacity
  queries := if "query_ids" ∈ left then default.queries else p.queries
  recordIdField := if "record_id_field" ∈ left then default.recordIdField else p.recordIdField
  correlationKey :=
    if "correlation_metadata_key" ∈ left then default.correlationKey else p.correlationKey
  stopAfter := if "stop_after_invocations" ∈ left then default.stopAfter else p.stopAfter

@[simp] theorem addressOfJson?_addressJson (a : Address) :
    addressOfJson? (addressJson a) = some a :=
  Address.ofText?_text a

@[simp] theorem nat64?_natJson (n : UInt64) : (natJson n).nat64? = some n := Json.nat64?_int n

@[simp] theorem policyOfJson?_name (f : FailurePolicy) :
    policyOfJson? (.text f.name) = some f := by
  cases f <;> rfl

/-- A value that is there is not taken for one that is missing. -/
theorem nullable?_optionJson {α : Type} {f : Json → Option α} {form : α → Json}
    (returns : ∀ x, f (form x) = some x) (there : ∀ x, form x ≠ .null) (x? : Option α) :
    Json.nullable? f (optionJson form x?) = some x? := by
  cases x? with
  | none => rfl
  | some x =>
    show Json.nullable? f (form x) = _
    unfold Json.nullable?
    split
    · next h => exact absurd h (there x)
    · rw [returns, Option.map_some]

@[simp] theorem nullable?_address (a? : Option Address) :
    Json.nullable? addressOfJson? (optionJson addressJson a?) = some a? :=
  nullable?_optionJson addressOfJson?_addressJson (fun _ => nofun) a?

@[simp] theorem nullable?_text (s? : Option String) :
    Json.nullable? Json.text? (optionJson .text s?) = some s? :=
  nullable?_optionJson Json.text?_text (fun _ => nofun) s?

@[simp] theorem nullable?_nat (n? : Option UInt64) :
    Json.nullable? Json.nat64? (optionJson natJson n?) = some n? :=
  nullable?_optionJson nat64?_natJson (fun _ => nofun) n?

/-- A field is read, or has its usual value where it is left out. -/
theorem bind_field {α : Type} {f : Json → Option α} {j : Json} {x usual : α} (h : f j = some x)
    {left : Prop} [Decidable left] {k : α → Option Prefs} {q : Prefs}
    (others : k (if left then usual else x) = some q) :
    (Json.orElse usual f (if left then none else some j) >>= k) = some q := by
  by_cases out : left
  · rw [if_pos out] at others ⊢
    exact others
  · rw [if_neg out] at others ⊢
    show (f j).bind k = _
    rw [h]
    exact others

/-- **Fields are read from an object** with some of them, whatever else is in it. -/
theorem ofJson?_record (p : Prefs) (left : List String) {members : List (String × Json)}
    (h : ∀ m ∈ p.fields, Json.member? (members.map fun m => (some m.1, m.2)) m.1 =
      some (if m.1 ∈ left then none else some m.2)) :
    ofJson? (.record members) = some (p.without left) := by
  have values := Json.values?_of_member? p.names_fields h
  unfold ofJson?
  rw [values]
  refine bind_field (addressOfJson?_addressJson _) ?_
  refine bind_field (addressOfJson?_addressJson _) ?_
  refine bind_field (nullable?_address _) ?_
  refine bind_field (Json.text?_text _) ?_
  refine bind_field (nat64?_natJson _) ?_
  refine bind_field (nat64?_natJson _) ?_
  refine bind_field (policyOfJson?_name _) ?_
  refine bind_field (nat64?_natJson _) ?_
  refine bind_field (nat64?_natJson _) ?_
  refine bind_field (TextSet.ofJson?_json _) ?_
  refine bind_field (Json.text?_text _) ?_
  refine bind_field (nullable?_text _) ?_
  refine bind_field (nullable?_nat _) ?_
  rfl

/-! ## Texts -/

/-- A text of an object with the fields of `p` but those of some names, and with other members that
no preference is kept under, in any order. -/
structure Document (p : Prefs) (left : List String) where
  unknown : List (String × Json)
  foreign : ∀ m ∈ unknown, m.1 ∉ names
  members : List (String × Json)
  order : members.Perm ((p.fields.filter fun m => m.1 ∉ left) ++ unknown)
  /-- The object with the blanks around it. -/
  text : Json.Slot
  tree : text.tree = .record members
  spells : Json.Spells .none 0 text.tree text.core

namespace Document

variable {p : Prefs} {left : List String}

/-- Under the name of a field stands the field, or nothing if it is left out. -/
theorem member?_field (d : p.Document left) : ∀ m ∈ p.fields,
    Json.member? (d.members.map fun m => (some m.1, m.2)) m.1 =
      some (if m.1 ∈ left then none else some m.2) := by
  intro m hm
  have foreign : m.1 ∉ d.unknown.map Prod.fst := by
    intro known
    obtain ⟨u, hu, same⟩ := List.mem_map.mp known
    apply d.foreign u hu
    rw [same, ← p.names_fields]
    exact List.mem_map_of_mem hm
  refine Json.member?_perm d.order ?_
  rw [Json.member?_append foreign]
  by_cases out : m.1 ∈ left
  · rw [if_pos out]
    refine Json.member?_absent fun there => ?_
    obtain ⟨m', hm', same⟩ := List.mem_map.mp there
    have kept : m'.1 ∉ left := by simpa using (List.mem_filter.mp hm').2
    exact kept (same ▸ out)
  · rw [if_neg out]
    have nodup : (p.fields.map Prod.fst).Nodup := by
      rw [names_fields]
      decide
    exact Json.member?_record ((List.filter_sublist.map Prod.fst).nodup nodup)
      (List.mem_filter.mpr ⟨hm, by simpa using out⟩)

/-- **A document is read** as the preferences with the usual values of the fields left out. -/
theorem read? (d : p.Document left) : Prefs.read? d.text.bytes = some (p.without left) := by
  unfold Prefs.read?
  rw [Json.read?_of_spells d.spells, Option.bind_some, d.tree]
  exact p.ofJson?_record left d.member?_field

end Document

theorem legible_json (p : Prefs) : Json.Legible .none 0 p.json := by
  have address (a : Address) : Json.Legible .none 1 (addressJson a) := .text a.text
  have number (n : UInt64) : Json.Legible .none 1 (natJson n) := Json.legible_nat64 n
  have option {α : Type} {form : α → Json} (h : ∀ x, Json.Legible .none 1 (form x))
      (x? : Option α) : Json.Legible .none 1 (optionJson form x?) := by
    cases x? with
    | none => exact .null
    | some x => exact h x
  refine .record Json.hasRoom_none ?_
  simp only [List.forall_mem_cons]
  exact ⟨address _, address _, option address _, .text _, number _, number _, .text _, number _,
    number _, TextSet.legible_json _, .text _, option .text _, option number _, by simp⟩

/-- The text in which preferences are written, with no field left out. -/
def written (p : Prefs) : p.Document [] where
  unknown := []
  foreign := nofun
  members := p.fields
  order := by rw [List.append_nil, List.filter_eq_self.mpr (by simp)]
  text := ⟨.none, p.json, Text.bytes p.json.pretty, .none⟩
  tree := p.json_eq
  spells := Json.Reader.spells_pretty p.legible_json

/-- **Preferences come back** from the text in which they are written. -/
theorem read?_write (p : Prefs) : read? p.write = some p := by
  have text : p.written.text.bytes = p.write := List.append_nil _
  have all : p.without [] = p := by simp [without]
  have whole := p.written.read?
  rwa [text, all] at whole

theorem write_ne_nil (p : Prefs) : p.write ≠ [] := by
  obtain ⟨b, r, starts, -⟩ := Json.Reader.starts p.written.spells
  have text : p.write = b :: r := starts
  simp [text]

/-! ## Missing values -/

/-- What preferences can do without is read from its own member. -/
theorem fields_of_ofJson? {ms : List (String × Json)} {q : Prefs}
    (h : ofJson? (.record ms) = some q) : ∃ http key,
      Json.member? (ms.map fun m => (some m.1, m.2)) "http_addr" = some http ∧
      Json.orElse default.httpAddress (Json.nullable? addressOfJson?) http = some q.httpAddress ∧
      Json.member? (ms.map fun m => (some m.1, m.2)) "correlation_metadata_key" = some key ∧
      Json.orElse default.correlationKey (Json.nullable? Json.text?) key =
        some q.correlationKey := by
  unfold ofJson? at h
  obtain ⟨vs, values, h⟩ := Option.bind_eq_some_iff.mp h
  split at h
  · obtain ⟨_, -, h⟩ := Option.bind_eq_some_iff.mp h
    obtain ⟨_, -, h⟩ := Option.bind_eq_some_iff.mp h
    obtain ⟨_, http, h⟩ := Option.bind_eq_some_iff.mp h
    obtain ⟨_, -, h⟩ := Option.bind_eq_some_iff.mp h
    obtain ⟨_, -, h⟩ := Option.bind_eq_some_iff.mp h
    obtain ⟨_, -, h⟩ := Option.bind_eq_some_iff.mp h
    obtain ⟨_, -, h⟩ := Option.bind_eq_some_iff.mp h
    obtain ⟨_, -, h⟩ := Option.bind_eq_some_iff.mp h
    obtain ⟨_, -, h⟩ := Option.bind_eq_some_iff.mp h
    obtain ⟨_, -, h⟩ := Option.bind_eq_some_iff.mp h
    obtain ⟨_, -, h⟩ := Option.bind_eq_some_iff.mp h
    obtain ⟨_, key, h⟩ := Option.bind_eq_some_iff.mp h
    obtain ⟨_, -, h⟩ := Option.bind_eq_some_iff.mp h
    obtain rfl := Option.some.inj h
    have there := Json.member?_of_values? values
    simp only [names, List.forall₂_cons] at there
    exact ⟨_, _, there.2.2.1, http, there.2.2.2.2.2.2.2.2.2.2.2.1, key⟩
  · cases h

/-- What the text of an object tells about the values that preferences can do without: `null` that
there is none, and nothing that there is the usual one. -/
structure Tells (members : List (String × Json)) (q : Prefs) : Prop where
  noHttp : ("http_addr", .null) ∈ members → q.httpAddress = none
  usualHttp : "http_addr" ∉ members.map Prod.fst → q.httpAddress = some (.anyHost 9000)
  noKey : ("correlation_metadata_key", .null) ∈ members → q.correlationKey = none
  usualKey : "correlation_metadata_key" ∉ members.map Prod.fst →
    q.correlationKey = some "x-query-sequence"

theorem tells_of_ofJson? {members : List (String × Json)} {q : Prefs}
    (h : ofJson? (.record members) = some q) : Tells members q := by
  obtain ⟨http, key, httpThere, httpRead, keyThere, keyRead⟩ := fields_of_ofJson? h
  constructor
  · intro null
    obtain rfl := Json.member?_eq_of_mem httpThere null
    exact (Option.some.inj httpRead).symm
  · intro absent
    obtain rfl := Option.some.inj (httpThere.symm.trans (Json.member?_absent absent))
    exact (Option.some.inj httpRead).symm
  · intro null
    obtain rfl := Json.member?_eq_of_mem keyThere null
    exact (Option.some.inj keyRead).symm
  · intro absent
    obtain rfl := Option.some.inj (keyThere.symm.trans (Json.member?_absent absent))
    exact (Option.some.inj keyRead).symm

/-! ## Results -/

/-- How preferences last. -/
structure Lasts (p : Prefs) : Prop where
  /-- A text with some of their fields is read as them with the usual values of the others. -/
  read : ∀ (left : List String) (d : p.Document left),
    Prefs.read? d.text.bytes = some (p.without left)
  /-- A store in memory takes them and gives them back. -/
  memory : ∀ (key : String) (s : Dict Blob), ∃ s', kept.save .memory key p s = (.ok (), s') ∧
    kept.load .memory key s' = .ok (some p)
  /-- A store in files gives them back when it took them. -/
  files : ∀ (base : Path) (key : String) (fs fs' : Files),
    kept.save (.files base) key p fs = (.ok (), fs') →
      kept.load (.files base) key fs' = .ok (some p)

theorem lasts (p : Prefs) : p.Lasts where
  read _ d := d.read?
  memory key s := ⟨s.insert key p.write, rfl,
    Kept.load_save Store.keeps_memory p.read?_write p.write_ne_nil rfl⟩
  files base _ _ _ h :=
    Kept.load_save (Store.keeps_files base) p.read?_write p.write_ne_nil h

/-- **Preferences last**, and what a text says about a value that can be missing is told apart from
what it does not say. -/
theorem read_leniently : (∀ p : Prefs, p.Lasts) ∧
    ∀ (text : Json.Slot) (members : List (String × Json)) (q : Prefs),
      text.tree = .record members → Json.Spells .none 0 text.tree text.core →
        read? text.bytes = some q → Tells members q := by
  refine ⟨lasts, fun text members q tree spells h => ?_⟩
  unfold read? at h
  rw [Json.read?_of_spells spells, Option.bind_some, tree] at h
  exact tells_of_ofJson? h

namespace Sample

/-- Preferences without an endpoint for plain requests, and else as usual. -/
def prefs : Prefs := { default with httpAddress := none }

def usual : List String := names.filter (· ≠ "http_addr")

/-- The one member that is not as usual, behind something of a later version. -/
def members : List (String × Json) := [("later", .array [.bool true]), ("http_addr", .null)]

theorem order : members.Perm
    (prefs.fields.filter (fun m => m.1 ∉ usual) ++ [("later", .array [.bool true])]) := by
  have kept : prefs.fields.filter (fun m => m.1 ∉ usual) = [("http_addr", .null)] := by
    simp [prefs, fields, json, Json.record, usual, names, optionJson]
  rw [kept]
  exact List.Perm.swap _ _ _

theorem legible_members : Json.Legible .none 0 (.record members) := by
  refine .record Json.hasRoom_none ?_
  simp only [members, List.forall_mem_cons]
  refine ⟨.array Json.hasRoom_none ?_, .null, by simp⟩
  simpa using Json.Legible.bool true

def document : prefs.Document usual where
  unknown := [("later", .array [.bool true])]
  foreign := by decide
  members := members
  order := order
  text := Json.Reader.tightItem (.record members)
  tree := rfl
  spells := Json.Reader.spells_compact legible_members

theorem bytes_document :
    document.text.bytes = Text.bytes "\x7b\"later\":[true],\"http_addr\":null\x7d" := by
  have item (j : Json) : Json.compactItems [j] = j.compact := by rw [Json.compactItems]
  rw [document, Json.Reader.bytes_tightItem, Json.Reader.bytes_record]
  simp only [members, List.map_cons, List.map_nil, Json.Reader.bytes_members,
    Json.Reader.bytes_member, Json.Reader.bytes_array, item, Json.Reader.bytes_literal]
  decide +kernel

end Sample

open Sample in
theorem read_leniently_sample :
    read? (Text.bytes "\x7b\"later\":[true],\"http_addr\":null\x7d") = some prefs := by
  have whole := (read_leniently.1 prefs).read usual document
  rw [bytes_document] at whole
  exact whole.trans (by decide)

end ChangeRelay.Prefs
