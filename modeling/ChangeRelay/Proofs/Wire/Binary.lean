import ChangeRelay.Proofs.Binary.Field
import ChangeRelay.Wire.Binary

/-!
# Messages are read as they were written

What is written of a message leaves out what is zero, empty, false or not there, and still nothing
of it is lost. `Leads` says of a row of fields that it takes a message from one form to another; the
fields of a message lead from the empty message to it. There is one lemma for each way to write a
part of a message (`Leads.text`, `Leads.nat`, `Leads.parts`, …), and one for each type of message,
put together from these.

A message inside another is read with one level of depth less, so the lemma of a type says how many
levels it needs.

* **`formats_faithful`**: whatever is written of a message of any type gives the message back.
-/

namespace ChangeRelay.Wire

/-- Every message comes back from what is written of it. Lengths are written as 64-bit numbers, so
no message has more bytes than these can count. -/
def Format.Faithful {α : Type} (F : Format α) : Prop :=
  ∀ m, (F.write m).length < UInt64.size → F.read (F.write m) = some m

/-- Plain fields that, taken one after the other, lead from the message `m` to `m'`. -/
structure Leads {α : Type} (F : Format α) (limit : Nat) (m : α) (fs : List Field) (m' : α) :
    Prop where
  plain : ∀ f ∈ fs, f.Plain F.entries
  takes : fs.foldlM (F.take limit) m = some m'

variable {α β : Type} {F : Format α} {limit : Nat} {m m' m'' : α} {n : Nat}
variable {fs fs' : List Field}

/-! ## Rows of fields -/

theorem Leads.nil : Leads F limit m [] m := ⟨by simp, rfl⟩

theorem Leads.append (h : Leads F limit m fs m') (h' : Leads F limit m' fs' m'') :
    Leads F limit m (fs ++ fs') m'' where
  plain := List.forall_mem_append.mpr ⟨h.plain, h'.plain⟩
  takes := by
    rw [List.foldlM_append, h.takes]
    exact h'.takes

theorem Leads.single {f : Field} (plain : f.Plain F.entries)
    (takes : F.take limit m f = some m') : Leads F limit m [f] m' where
  plain := by
    intro g hg
    rw [List.mem_singleton.mp hg]
    exact plain
  takes := by
    rw [List.foldlM_cons, takes]
    rfl

/-- Fields for the items of a list, where `g` gives the message with the items so far. -/
theorem Leads.row {f : β → Field} {g : List β → α} {xs : List β} (zero : g [] = m)
    (plain : ∀ x ∈ xs, (f x).Plain F.entries)
    (takes : ∀ done, ∀ x ∈ xs, F.take limit (g done) (f x) = some (g (done ++ [x]))) :
    Leads F limit m (xs.map f) (g xs) := by
  subst zero
  suffices h : ∀ done, Leads F limit (g done) (xs.map f) (g (done ++ xs)) from h []
  induction xs with
  | nil =>
    intro done
    rw [List.append_nil]
    exact .nil
  | cons x xs ih =>
    intro done
    have first := Leads.single (plain x (by simp)) (takes done x (by simp))
    have rest := ih (fun y hy => plain y (by simp [hy])) (fun d y hy => takes d y (by simp [hy]))
      (done ++ [x])
    rw [List.append_assoc] at rest
    exact first.append rest

/-! ## Parts of a message -/

/-- A number that a field may have. -/
def IsNumber (n : Nat) : Prop := 0 < n ∧ n < 0x20000000

instance (n : Nat) : Decidable (IsNumber n) := inferInstanceAs (Decidable (_ ∧ _))

theorem plain_delimited {counted : List Nat} (number : IsNumber n) (bs : List UInt8) :
    Field.Plain counted ⟨n, .delimited bs⟩ :=
  ⟨number.1, number.2, by simp, fun _ => ⟨bs, rfl⟩⟩

theorem plain_varint {counted : List Nat} (number : IsNumber n) (free : n ∉ counted)
    (k : UInt64) : Field.Plain counted ⟨n, .varint k⟩ :=
  ⟨number.1, number.2, by simp, fun h => absurd h free⟩

@[simp] theorem text?_bytes (n : Nat) (s : String) :
    text? ⟨n, .delimited (Text.bytes s)⟩ = some s := Text.ofBytes?_bytes s

theorem Leads.text {s : String} {g : String → α} (number : IsNumber n) (zero : g "" = m)
    (takes : F.take limit m ⟨n, .delimited (Text.bytes s)⟩ = some (g s)) :
    Leads F limit m (textField n s) (g s) := by
  unfold textField
  split
  · next empty =>
    rw [empty, zero]
    exact .nil
  · exact .single (plain_delimited number _) takes

theorem Leads.nat {k : UInt64} {g : UInt64 → α} (number : IsNumber n) (free : n ∉ F.entries)
    (zero : g 0 = m) (takes : F.take limit m ⟨n, .varint k⟩ = some (g k)) :
    Leads F limit m (natField n k) (g k) := by
  unfold natField
  split
  · next none =>
    rw [none, zero]
    exact .nil
  · exact .single (plain_varint number free _) takes

theorem Leads.int {i : Int64} {g : Int64 → α} (number : IsNumber n) (free : n ∉ F.entries)
    (zero : g 0 = m) (takes : F.take limit m ⟨n, .varint i.toUInt64⟩ = some (g i)) :
    Leads F limit m (intField n i) (g i) := by
  have h := Leads.nat (g := fun k => g k.toInt64) number free zero
    (takes.trans (by rw [Int64.toInt64_toUInt64]))
  rwa [Int64.toInt64_toUInt64] at h

theorem Leads.bool {b : Bool} {g : Bool → α} (number : IsNumber n) (free : n ∉ F.entries)
    (zero : g false = m) (takes : F.take limit m ⟨n, .varint 1⟩ = some (g true)) :
    Leads F limit m (boolField n b) (g b) := by
  cases b with
  | false =>
    rw [zero]
    exact .nil
  | true => exact .single (plain_varint number free _) takes

theorem Leads.texts {ss : List String} {g : List String → α} (number : IsNumber n)
    (zero : g [] = m) (takes : ∀ done s,
      F.take limit (g done) ⟨n, .delimited (Text.bytes s)⟩ = some (g (done ++ [s]))) :
    Leads F limit m (textFields n ss) (g ss) :=
  .row zero (fun _ _ => plain_delimited number _) fun done s _ => takes done s

/-! ## From fields to bytes -/

/-- The bytes of fields that lead to a message add up to it. -/
theorem Leads.extend (h : Leads F limit m fs m') (pos : 0 < limit)
    (short : (Field.writeAll fs).length < UInt64.size) :
    F.extend limit m (Field.writeAll fs) = some m' := by
  unfold Format.extend
  rw [Field.readAll_writeAll pos h.plain short, Option.bind_some]
  exact h.takes

/-- A part whose fields lead to it is read where it stands. -/
theorem Leads.extendPart (h : Leads F (limit - 1) m fs m') (pos : 1 < limit)
    (short : (Field.writeAll fs).length < UInt64.size) :
    F.extendPart limit m (partField n fs) = some m' :=
  h.extend (Nat.sub_pos_of_lt pos) short

/-- Whatever parts stand in a row are not longer than the row. -/
theorem short_part {gs whole : List Field} (short : (Field.writeAll whole).length < UInt64.size)
    (part : partField n gs ∈ whole) : (Field.writeAll gs).length < UInt64.size :=
  Nat.lt_of_le_of_lt (Field.length_bytes_le part rfl) short

section

variable {P : Format β} {fields : β → List Field} {whole : List Field}

/-- A part that may be missing. -/
theorem Leads.part {part? : Option β} {g : Option β → α} (number : IsNumber n) (deep : 1 < limit)
    (zero : g none = m) (short : (Field.writeAll whole).length < UInt64.size)
    (within : (part?.map fun p => partField n (fields p)).toList ⊆ whole)
    (takes : ∀ fs, F.take limit m (partField n fs) =
      (P.extendPart limit P.empty (partField n fs)).map fun p => g (some p))
    (leads : ∀ p, (Field.writeAll (fields p)).length < UInt64.size →
      Leads P (limit - 1) P.empty (fields p) p) :
    Leads F limit m (part?.map fun p => partField n (fields p)).toList (g part?) := by
  cases part? with
  | none =>
    rw [zero]
    exact .nil
  | some p =>
    have size := short_part short (within (List.mem_singleton.mpr rfl))
    refine .single (plain_delimited number _) ?_
    rw [takes, (leads p size).extendPart deep size]
    rfl

/-- A list of parts. -/
theorem Leads.parts {ps : List β} {g : List β → α} (number : IsNumber n) (deep : 1 < limit)
    (zero : g [] = m) (short : (Field.writeAll whole).length < UInt64.size)
    (within : (ps.map fun p => partField n (fields p)) ⊆ whole)
    (takes : ∀ done fs, F.take limit (g done) (partField n fs) =
      (P.extendPart limit P.empty (partField n fs)).map fun p => g (done ++ [p]))
    (leads : ∀ p, (Field.writeAll (fields p)).length < UInt64.size →
      Leads P (limit - 1) P.empty (fields p) p) :
    Leads F limit m (ps.map fun p => partField n (fields p)) (g ps) := by
  refine .row zero (fun _ _ => plain_delimited number _) fun done p hp => ?_
  have size := short_part short (within (List.mem_map.mpr ⟨p, hp, rfl⟩))
  rw [takes, (leads p size).extendPart deep size]
  rfl

/-- One more entry, written behind the others. -/
theorem ofList_concat (done : List (String × β)) (e : String × β) :
    Dict.ofList (done ++ [e]) = (Dict.ofList done).insert e.1 e.2 := by
  simp [Dict.ofList, List.foldl_append]

/-- A dictionary, each entry as a part. -/
theorem Leads.entries {P : Format (String × β)} {fields : String × β → List Field} {d : Dict β}
    {g : Dict β → α} (number : IsNumber n) (deep : 1 < limit) (zero : g .empty = m)
    (short : (Field.writeAll whole).length < UInt64.size)
    (within : (d.entries.map fun e => partField n (fields e)) ⊆ whole)
    (takes : ∀ done fs, F.take limit (g done) (partField n fs) =
      (P.extendPart limit P.empty (partField n fs)).map fun e => g (done.insert e.1 e.2))
    (leads : ∀ e, (Field.writeAll (fields e)).length < UInt64.size →
      Leads P (limit - 1) P.empty (fields e) e) :
    Leads F limit m (d.entries.map fun e => partField n (fields e)) (g d) := by
  have h : Leads F limit m (d.entries.map fun e => partField n (fields e))
      (g (.ofList d.entries)) := by
    refine .parts (g := fun done => g (.ofList done)) number deep zero short within ?_ leads
    intro done fs
    rw [takes]
    simp only [ofList_concat]
  rwa [Dict.ofList_entries] at h

end

/-- A format is faithful if the fields of every message lead to it at the outermost level. -/
theorem Format.Faithful.of_leads
    (h : ∀ m, (F.write m).length < UInt64.size → Leads F 100 F.empty (F.fields m) m) :
    F.Faithful := fun m short => (h m short).extend (by decide) short

/-! ## Dictionaries of texts -/

theorem leads_entry (limit : Nat) (e : String × String) :
    Leads entry limit ("", "") (textField 1 e.1 ++ textField 2 e.2) e := by
  have key : Leads entry limit ("", "") (textField 1 e.1) (e.1, "") :=
    .text (g := fun s => (s, "")) (by decide) rfl (by simp [entry, takeEntry])
  exact key.append (.text (g := fun s => (e.1, s)) (by decide) rfl (by simp [entry, takeEntry]))

/-- Properties, or metadata. -/
theorem Leads.entryFields {d : Dict String} {g : Dict String → α} {whole : List Field}
    (number : IsNumber n) (deep : 1 < limit) (zero : g .empty = m)
    (short : (Field.writeAll whole).length < UInt64.size) (within : entryFields n d ⊆ whole)
    (takes : ∀ done fs, F.take limit (g done) (partField n fs) =
      (addEntry limit done (partField n fs)).map g) :
    Leads F limit m (entryFields n d) (g d) := by
  refine .entries number deep zero short within (P := entry) ?_ fun e _ => leads_entry _ e
  intro done fs
  rw [takes, addEntry, Option.map_map]
  rfl

/-! ## Changes -/

theorem leads_relationship (limit : Nat) (r : Relationship) :
    Leads Relationship.format limit .empty r.fields r := by
  have startId : Leads Relationship.format limit .empty (textField 1 r.startId)
      ⟨r.startId, "", [], []⟩ :=
    .text (g := fun s => Relationship.mk s "" [] []) (by decide) rfl
      (by simp [Relationship.format, Relationship.take, Relationship.empty])
  have endId : Leads Relationship.format limit ⟨r.startId, "", [], []⟩ (textField 2 r.endId)
      ⟨r.startId, r.endId, [], []⟩ :=
    .text (g := fun s => Relationship.mk r.startId s [] []) (by decide) rfl
      (by simp [Relationship.format, Relationship.take])
  have startLabels : Leads Relationship.format limit ⟨r.startId, r.endId, [], []⟩
      (textFields 3 r.startLabels) ⟨r.startId, r.endId, r.startLabels, []⟩ :=
    .texts (g := fun ss => Relationship.mk r.startId r.endId ss []) (by decide) rfl
      (by simp [Relationship.format, Relationship.take])
  have endLabels : Leads Relationship.format limit ⟨r.startId, r.endId, r.startLabels, []⟩
      (textFields 4 r.endLabels) r :=
    .texts (g := fun ss => Relationship.mk r.startId r.endId r.startLabels ss) (by decide) rfl
      (by simp [Relationship.format, Relationship.take])
  exact ((startId.append endId).append startLabels).append endLabels

/-- Its relationship stands one level below an event. -/
theorem leads_event (deep : 1 < limit) (e : Event)
    (short : (Field.writeAll e.fields).length < UInt64.size) :
    Leads Event.format limit .empty e.fields e := by
  have sequence : Leads Event.format limit .empty (natField 1 e.sequence)
      { Event.empty with sequence := e.sequence } :=
    .nat (g := fun k => { Event.empty with sequence := k }) (by decide) (by decide) rfl rfl
  have timestamp : Leads Event.format limit { Event.empty with sequence := e.sequence }
      (intField 2 e.timestamp) ⟨e.sequence, e.timestamp, "", "", [], .empty, none⟩ :=
    .int (g := fun i => Event.mk e.sequence i "" "" [] .empty none) (by decide) (by decide) rfl
      (by simp [Event.format, Event.take, Field.int64?, Field.nat64?, Event.empty])
  have op : Leads Event.format limit ⟨e.sequence, e.timestamp, "", "", [], .empty, none⟩
      (textField 3 e.op) ⟨e.sequence, e.timestamp, e.op, "", [], .empty, none⟩ :=
    .text (g := fun s => Event.mk e.sequence e.timestamp s "" [] .empty none) (by decide) rfl
      (by simp [Event.format, Event.take])
  have id : Leads Event.format limit ⟨e.sequence, e.timestamp, e.op, "", [], .empty, none⟩
      (textField 4 e.id) ⟨e.sequence, e.timestamp, e.op, e.id, [], .empty, none⟩ :=
    .text (g := fun s => Event.mk e.sequence e.timestamp e.op s [] .empty none) (by decide) rfl
      (by simp [Event.format, Event.take])
  have labels : Leads Event.format limit ⟨e.sequence, e.timestamp, e.op, e.id, [], .empty, none⟩
      (textFields 5 e.labels) ⟨e.sequence, e.timestamp, e.op, e.id, e.labels, .empty, none⟩ :=
    .texts (g := fun ss => Event.mk e.sequence e.timestamp e.op e.id ss .empty none) (by decide)
      rfl (by simp [Event.format, Event.take])
  have properties : Leads Event.format limit
      ⟨e.sequence, e.timestamp, e.op, e.id, e.labels, .empty, none⟩ (entryFields 6 e.properties)
      { e with relationship := none } :=
    .entryFields (g := fun d => { e with properties := d, relationship := none }) (by decide) deep
      rfl short (fun f hf => by simp [Event.fields, hf]) fun _ _ => rfl
  have relationship : Leads Event.format limit { e with relationship := none }
      (e.relationship.map fun r => partField 7 r.fields).toList e :=
    .part (n := 7) (P := Relationship.format) (g := fun r? => { e with relationship := r? })
      (by decide) deep rfl short (fun f hf => List.mem_append_right _ hf) (fun _ => rfl)
      fun r _ => leads_relationship _ r
  exact (((((sequence.append timestamp).append op).append id).append labels).append
    properties).append relationship

/-- Entries and relationships stand two levels below a batch. -/
theorem leads_batch (deep : 2 < limit) (b : Batch)
    (short : (Field.writeAll b.fields).length < UInt64.size) :
    Leads Batch.format limit .empty b.fields b := by
  have source : Leads Batch.format limit .empty (textField 1 b.source) ⟨b.source, [], .empty⟩ :=
    .text (g := fun s => Batch.mk s [] .empty) (by decide) rfl
      (by simp [Batch.format, Batch.take, Batch.empty])
  have events : Leads Batch.format limit ⟨b.source, [], .empty⟩
      (b.events.map fun e => partField 2 e.fields) ⟨b.source, b.events, .empty⟩ :=
    .parts (n := 2) (P := Event.format) (g := fun es => Batch.mk b.source es .empty) (by decide)
      (by omega) rfl short (fun f hf => by simp only [Batch.fields, List.mem_append, hf]; simp)
      (fun _ _ => rfl) fun e size => leads_event (by omega) e size
  have metadata : Leads Batch.format limit ⟨b.source, b.events, .empty⟩ (entryFields 3 b.metadata)
      b :=
    .entryFields (g := fun d => Batch.mk b.source b.events d) (by decide) (by omega) rfl short
      (fun f hf => List.mem_append_right _ hf) fun _ _ => rfl
  exact (source.append events).append metadata

/-! ## Results -/

/-- The lowest 32 bits of a code that was written with 64 are the code. -/
theorem code_toUInt64 (code : Int32) : code.toInt64.toUInt64.toUInt32.toInt32 = code := by
  rw [← Int32.toBitVec_inj]
  ext i narrow
  have wide : i < 64 := by omega
  simp [wide, BitVec.getElem_signExtend, narrow]

/-- The field of a set value stands, whatever the value holds. -/
theorem leads_value (limit : Nat) (v : Value) :
    Leads Value.format limit none (Value.fields v) v := by
  cases v with
  | none => exact .nil
  | some s =>
    refine .single ?_ ?_
    · cases s <;> exact ⟨by simp [Scalar.field], by simp [Scalar.field], by simp [Scalar.field],
        fun h => absurd h (by simp [Value.format])⟩
    · cases s with
      | string s => simp [Value.format, Value.take, Scalar.field]
      | double d => simp [Value.format, Value.take, Scalar.field, Field.fixed64?]
      | integer i => simp [Value.format, Value.take, Scalar.field, Field.int64?, Field.nat64?]
      | boolean b => cases b <;> rfl
      | null code =>
        simp [Value.format, Value.take, Scalar.field, Field.int32?, Field.nat64?, code_toUInt64]

namespace Record

/-- A value that is unset is left out, and one that is set is there whatever it holds. -/
theorem leads_entry (deep : 1 < limit) (e : String × Value)
    (short : (Field.writeAll (entry.fields e)).length < UInt64.size) :
    Leads entry limit ("", none) (entry.fields e) e := by
  obtain ⟨k, v⟩ := e
  have key : Leads entry limit ("", none) (textField 1 k) (k, none) :=
    .text (g := fun s => (s, none)) (by decide) rfl (by simp [entry, takeEntry])
  cases v with
  | none => exact key.append .nil
  | some s =>
    have part : (Field.writeAll (Value.fields (some s))).length < UInt64.size :=
      short_part short (n := 2) (by simp [entry])
    have value : Leads entry limit (k, none) [partField 2 (Value.fields (some s))] (k, some s) := by
      refine .single (plain_delimited (n := 2) (by decide) _) ?_
      show (Value.format.extendPart limit none (partField 2 _)).map _ = _
      rw [(leads_value (limit - 1) (some s)).extendPart deep part]
      rfl
    exact key.append value

theorem leads (deep : 2 < limit) (r : Record)
    (short : (Field.writeAll (fields r)).length < UInt64.size) :
    Leads format limit .empty (fields r) r :=
  .entries (n := 1) (P := entry) (g := fun d => d) (by decide) (by omega) rfl short
    (fun _ hf => hf) (fun _ _ => rfl) fun e size => leads_entry (by omega) e size

end Record

namespace Payload

/-- One of the three lists of a payload. -/
theorem leads_records {p : Payload} {g : List Record → Payload} {records : List Record}
    (number : IsNumber n) (deep : 3 < limit) (zero : g [] = p) {whole : List Field}
    (short : (Field.writeAll whole).length < UInt64.size) (within : recordFields n records ⊆ whole)
    (takes : ∀ done fs, format.take limit (g done) (partField n fs) =
      (Record.format.extendPart limit .empty (partField n fs)).map fun r => g (done ++ [r])) :
    Leads format limit p (recordFields n records) (g records) :=
  .parts (P := Record.format) number (by omega) zero short within takes
    fun r size => Record.leads (by omega) r size

theorem leads (deep : 3 < limit) (p : Payload)
    (short : (Field.writeAll p.fields).length < UInt64.size) :
    Leads format limit .empty p.fields p := by
  have sequence : Leads format limit .empty (natField 1 p.sequence) ⟨p.sequence, [], [], []⟩ :=
    .nat (g := fun k => Payload.mk k [] [] []) (by decide) (by decide) rfl rfl
  have added : Leads format limit ⟨p.sequence, [], [], []⟩ (recordFields 2 p.added)
      ⟨p.sequence, p.added, [], []⟩ :=
    leads_records (g := fun rs => ⟨p.sequence, rs, [], []⟩) (by decide) deep rfl short
      (fun f hf => by simp [fields, hf]) fun _ _ => rfl
  have updated : Leads format limit ⟨p.sequence, p.added, [], []⟩ (recordFields 3 p.updated)
      ⟨p.sequence, p.added, p.updated, []⟩ :=
    leads_records (g := fun rs => ⟨p.sequence, p.added, rs, []⟩) (by decide) deep rfl short
      (fun f hf => by simp [fields, hf]) fun _ _ => rfl
  have deleted : Leads format limit ⟨p.sequence, p.added, p.updated, []⟩
      (recordFields 4 p.deleted) p :=
    leads_records (g := fun rs => ⟨p.sequence, p.added, p.updated, rs⟩) (by decide) deep rfl short
      (fun f hf => List.mem_append_right _ hf) fun _ _ => rfl
  exact ((sequence.append added).append updated).append deleted

end Payload

/-- Values stand four levels below an invocation. -/
theorem leads_invocation (deep : 4 < limit) (i : Invocation)
    (short : (Field.writeAll i.fields).length < UInt64.size) :
    Leads Invocation.format limit .empty i.fields i := by
  have id : Leads Invocation.format limit .empty (textField 1 i.id) ⟨i.id, 0, "", .empty, none⟩ :=
    .text (g := fun s => Invocation.mk s 0 "" .empty none) (by decide) rfl
      (by simp [Invocation.format, Invocation.take, Invocation.empty])
  have timestamp : Leads Invocation.format limit ⟨i.id, 0, "", .empty, none⟩
      (intField 2 i.timestamp) ⟨i.id, i.timestamp, "", .empty, none⟩ :=
    .int (g := fun t => Invocation.mk i.id t "" .empty none) (by decide) (by decide) rfl
      (by simp [Invocation.format, Invocation.take, Field.int64?, Field.nat64?])
  have query : Leads Invocation.format limit ⟨i.id, i.timestamp, "", .empty, none⟩
      (textField 3 i.query) ⟨i.id, i.timestamp, i.query, .empty, none⟩ :=
    .text (g := fun s => Invocation.mk i.id i.timestamp s .empty none) (by decide) rfl
      (by simp [Invocation.format, Invocation.take])
  have metadata : Leads Invocation.format limit ⟨i.id, i.timestamp, i.query, .empty, none⟩
      (entryFields 4 i.metadata) ⟨i.id, i.timestamp, i.query, i.metadata, none⟩ :=
    .entryFields (g := fun d => Invocation.mk i.id i.timestamp i.query d none) (by decide)
      (by omega) rfl short (fun f hf => by simp [Invocation.fields, hf]) fun _ _ => rfl
  have payload : Leads Invocation.format limit ⟨i.id, i.timestamp, i.query, i.metadata, none⟩
      (i.payload.map fun p => partField 5 p.fields).toList i :=
    .part (n := 5) (P := Payload.format) (g := fun p? => { i with payload := p? }) (by decide)
      (by omega) rfl short (fun f hf => List.mem_append_right _ hf) (fun _ => rfl)
      fun p size => Payload.leads (by omega) p size
  exact (((id.append timestamp).append query).append metadata).append payload

/-! ## Replies -/

theorem leads_dispatchReply (limit : Nat) (r : DispatchReply) :
    Leads DispatchReply.format limit ⟨false, "", 0⟩ (DispatchReply.fields r) r := by
  have success : Leads DispatchReply.format limit ⟨false, "", 0⟩ (boolField 1 r.success)
      ⟨r.success, "", 0⟩ :=
    .bool (g := fun b => DispatchReply.mk b "" 0) (by decide) (by decide) rfl rfl
  have message : Leads DispatchReply.format limit ⟨r.success, "", 0⟩ (textField 2 r.message)
      ⟨r.success, r.message, 0⟩ :=
    .text (g := fun s => DispatchReply.mk r.success s 0) (by decide) rfl
      (by simp [DispatchReply.format, DispatchReply.take])
  have processed : Leads DispatchReply.format limit ⟨r.success, r.message, 0⟩
      (natField 3 r.processed) r :=
    .nat (g := fun k => DispatchReply.mk r.success r.message k) (by decide) (by decide) rfl rfl
  exact (success.append message).append processed

theorem leads_invocationReply (limit : Nat) (r : InvocationReply) :
    Leads InvocationReply.format limit ⟨false, "", ""⟩ (InvocationReply.fields r) r := by
  have success : Leads InvocationReply.format limit ⟨false, "", ""⟩ (boolField 1 r.success)
      ⟨r.success, "", ""⟩ :=
    .bool (g := fun b => InvocationReply.mk b "" "") (by decide) (by decide) rfl rfl
  have message : Leads InvocationReply.format limit ⟨r.success, "", ""⟩ (textField 2 r.message)
      ⟨r.success, r.message, ""⟩ :=
    .text (g := fun s => InvocationReply.mk r.success s "") (by decide) rfl
      (by simp [InvocationReply.format, InvocationReply.take])
  have id : Leads InvocationReply.format limit ⟨r.success, r.message, ""⟩ (textField 3 r.id) r :=
    .text (g := fun s => InvocationReply.mk r.success r.message s) (by decide) rfl
      (by simp [InvocationReply.format, InvocationReply.take])
  exact (success.append message).append id

/-! ## The whole format -/

theorem faithful_event : Event.format.Faithful :=
  .of_leads fun e short => leads_event (by decide) e short

theorem faithful_batch : Batch.format.Faithful :=
  .of_leads fun b short => leads_batch (by decide) b short

theorem faithful_dispatchReply : DispatchReply.format.Faithful :=
  .of_leads fun r _ => leads_dispatchReply 100 r

/-- **Whatever is written of a message gives the message back**, for every type of message. -/
theorem formats_faithful :
    Relationship.format.Faithful ∧ Event.format.Faithful ∧ Batch.format.Faithful ∧
      DispatchReply.format.Faithful ∧ Value.format.Faithful ∧ Record.format.Faithful ∧
      Payload.format.Faithful ∧ Invocation.format.Faithful ∧ InvocationReply.format.Faithful :=
  ⟨.of_leads fun r _ => leads_relationship 100 r,
    faithful_event,
    faithful_batch,
    faithful_dispatchReply,
    .of_leads fun v _ => leads_value 100 v,
    .of_leads fun r short => Record.leads (by decide) r short,
    .of_leads fun p short => Payload.leads (by decide) p short,
    .of_leads fun i short => leads_invocation (by decide) i short,
    .of_leads fun r _ => leads_invocationReply 100 r⟩

namespace Sample

/-- A relationship without any content is not a missing one. -/
def event : Event := { Event.empty with timestamp := -1, relationship := some .empty }

/-- A value that is unset, and one under the empty key that is set to nothing. -/
def record : Record := .ofList [("a", none), ("", some (.null 0))]

end Sample

/-- The samples are short enough, and come back. -/
theorem formats_sample : Event.format.read (Event.format.write Sample.event) = some Sample.event ∧
    Record.format.read (Record.format.write Sample.record) = some Sample.record := by
  obtain ⟨-, event, -, -, -, record, -⟩ := formats_faithful
  exact ⟨event Sample.event (by decide +kernel), record Sample.record (by decide +kernel)⟩

end ChangeRelay.Wire
