import ChangeRelay.Proofs.Wire.Json

/-!
# Checked changes are read from JSON as they were written

Whoever reads the JSON form of a checked change asks for every member but the relationship, and a
relationship that is not there is not written at all. Sets of labels are written in order, and the
set of a listing in order is the set that was listed.

* **`Event.ofJson?_json`**, **`Batch.ofJson?_json`**: an event comes back, with its relationship there
  or not, and so does a batch.
-/

namespace ChangeRelay

variable {n : Nat}

/-! ## Parts of changes -/

namespace TextSet

@[simp] theorem ofJson?_json (s : TextSet) : ofJson? s.json = some s := by
  have texts : s.json.list? Json.text? = some s.toList := Json.list?_array fun _ _ => rfl
  unfold ofJson?
  rw [texts, Option.map_some, ofList_toList]

theorem legible_json (s : TextSet) : Json.Legible .none n s.json :=
  Json.legible_array Json.hasRoom_none fun s _ => .text s

end TextSet

namespace Op

@[simp] theorem ofJson?_json (o : Op) : ofJson? o.json = some o :=
  ofText?_eq_some_iff.mpr rfl

theorem legible_json (o : Op) : Json.Legible .none n o.json := .text o.text

end Op

namespace Relationship

@[simp] theorem ofJson?_json (r : Relationship) : ofJson? r.json = some r := by
  have values : r.json.values? names = some [some (.text r.startId), some (.text r.endId),
      some r.startLabels.json, some r.endLabels.json] :=
    Json.values?_record rfl (by decide)
  unfold ofJson?
  rw [values]
  simp [Json.required]

theorem legible_json (r : Relationship) : Json.Legible .none n r.json := by
  refine .record Json.hasRoom_none ?_
  simp only [List.forall_mem_cons]
  exact ⟨.text _, .text _, TextSet.legible_json _, TextSet.legible_json _, by simp⟩

end Relationship

namespace Event

variable (e : Event)

/-- The member of a relationship is left out where there is none. -/
theorem values?_json : e.json.values? names = some [some (.int e.sequence.toNat),
    some (.int e.timestamp.toInt), some e.op.json, some (.text e.id), some e.labels.json,
    some e.properties.json, e.relationship.map Relationship.json] := by
  unfold json
  cases e.relationship with
  | none => exact Json.values?_leading ["relationship"] rfl (by decide)
  | some r => exact Json.values?_record rfl (by decide)

theorem orElse_relationship (r? : Option Relationship) :
    Json.orElse none (Json.nullable? Relationship.ofJson?) (r?.map Relationship.json) = some r? := by
  cases r? with
  | none => rfl
  | some r =>
    show (Relationship.ofJson? r.json).map some = _
    rw [Relationship.ofJson?_json, Option.map_some]

/-- **An event comes back from its form.** -/
@[simp] theorem ofJson?_json : ofJson? e.json = some e := by
  unfold ofJson?
  rw [values?_json]
  simp [Json.required, orElse_relationship]

theorem legible_json : Json.Legible .none n e.json := by
  refine .record Json.hasRoom_none (List.forall_mem_append.mpr ⟨?_, ?_⟩)
  · simp only [List.forall_mem_cons]
    exact ⟨Json.legible_nat64 _, Json.legible_int64 _, Op.legible_json _, .text _,
      TextSet.legible_json _, Dict.legible_json Json.hasRoom_none _, by simp⟩
  · cases e.relationship with
    | none => simp
    | some r => simpa using Relationship.legible_json r

end Event

namespace Batch

/-- **A batch comes back from its form.** -/
theorem ofJson?_json (b : Batch) : ofJson? b.json = some b := by
  have values : b.json.values? names = some [some (.text b.source), some b.metadata.json,
      some (.array (b.events.map Event.json))] :=
    Json.values?_record rfl (by decide)
  have events : (Json.array (b.events.map Event.json)).list? Event.ofJson? = some b.events :=
    Json.list?_array fun e _ => Event.ofJson?_json e
  unfold ofJson?
  rw [values]
  simp [Json.required, events]

theorem legible_json (b : Batch) : Json.Legible .none n b.json := by
  refine .record Json.hasRoom_none ?_
  simp only [List.forall_mem_cons]
  exact ⟨.text _, Dict.legible_json Json.hasRoom_none _,
    Json.legible_array Json.hasRoom_none fun e _ => Event.legible_json e, by simp⟩

end Batch

end ChangeRelay
