import ChangeRelay.Proofs.Change.Json
import ChangeRelay.Proofs.Number.Layout
import ChangeRelay.Result.Json

/-!
# Results are read from JSON as they were written

A value is written without its kind, so its kind has to be read off its text: an integer has neither
point nor exponent, and a double always has one of them. Texts, integers and truth values come back
without further ado. A double comes back if it is a finite number and reading its numeral, which
rounds, gives the bits that were written (`Double.Survives`); a double that is read as another one
is still read as a double.

* **`Value.read_json`**: a value comes back from its text, if its double does.
* **`Value.isDouble_of_read`**: a finite double is never read as anything but a double.
* **`Payload.ofJson?_json`**, **`Invocation.ofJson?_json`**: payloads and invocations come back.
-/

namespace ChangeRelay

/-- A finite double whose numeral is read as that double. -/
structure Double.Survives (d : Double) : Prop where
  finite : d.isFinite = true
  bits : (d.numeral .json).double? = some d

instance (d : Double) : Decidable d.Survives :=
  decidable_of_iff (d.isFinite = true ∧ (d.numeral .json).double? = some d)
    ⟨fun h => ⟨h.1, h.2⟩, fun h => ⟨h.finite, h.bits⟩⟩

/-! ## The doubles in a result -/

def Value.doubles : Value → List Double
  | .double d => [d]
  | _ => []

def recordDoubles (r : Record) : List Double := r.entries.flatMap fun p => p.2.doubles

def Payload.doubles (p : Payload) : List Double :=
  (p.added ++ p.updated ++ p.deleted).flatMap recordDoubles

/-! ## Values -/

namespace Value

variable {n : Nat} {v : Value} {d : Double}

theorem json_double (h : d.isFinite = true) : (Value.double d).json = .number (d.numeral .json) :=
  if_pos h

/-- A finite double stands for a double, if for anything. -/
theorem ofJson_double (h : d.isFinite = true) : ofJson (Value.double d).json =
    match (d.numeral .json).double? with
    | some d' => .ok (.double d')
    | none => .error .malformed := by
  rw [json_double h, ofJson, Double.number?_numeral]
  cases (d.numeral .json).double? <;> rfl

theorem ofJson_integer (i : Int64) : ofJson (Value.integer i).json = .ok (.integer i) := by
  obtain ⟨lower, upper⟩ := Json.toInt_bounds i
  rw [json, Json.int, ofJson, Numeral.number?_ofInt lower (Int.lt_trans upper (by decide))]
  simp only [ofNumber, if_pos upper, Int64.ofInt_toInt]

/-- A value comes back from its form. -/
theorem ofJson_json (h : ∀ d ∈ v.doubles, d.Survives) : ofJson v.json = .ok v := by
  cases v with
  | double d =>
    have survives := h d (by simp [doubles])
    rw [ofJson_double survives.finite, survives.bits]
  | integer i => exact ofJson_integer i
  | _ => rfl

theorem ofJson?_json (h : ∀ d ∈ v.doubles, d.Survives) : ofJson? v.json = some v := by
  rw [ofJson?, ofJson_json h]
  rfl

theorem legible_json (v : Value) : Json.Legible .none n v.json := by
  cases v with
  | string s => exact .text s
  | double d =>
    rw [json, Json.double]
    split
    · exact .number (d.isProper_numeral .json) (fun h => nomatch h)
    · exact .null
  | integer i => exact Json.legible_int64 i
  | boolean b => exact .bool b
  | null => exact .null

/-! ### Values as texts of their own -/

/-- What is written of a value starts neither an array nor an object. -/
theorem text_starts (v : Value) : ∃ b bs, Text.bytes v.json.compact = b :: bs ∧
    Json.Reader.isBlank b = false ∧ b ≠ 0x5B ∧ b ≠ 0x7B := by
  have numeral {k : Numeral} (proper : k.IsProper) :
      ∃ b bs, Text.bytes (Json.number k).compact = b :: bs ∧
        Json.Reader.isBlank b = false ∧ b ≠ 0x5B ∧ b ≠ 0x7B := by
    obtain ⟨b, bs, text, first⟩ := Json.Reader.text_starts proper
    obtain ⟨blank, array, object, -⟩ := Json.Reader.only_numeral first
    exact ⟨b, bs, by rw [Json.compact, text], blank, array, object⟩
  have null : ∃ b bs, Text.bytes Json.null.compact = b :: bs ∧
      Json.Reader.isBlank b = false ∧ b ≠ 0x5B ∧ b ≠ 0x7B :=
    ⟨_, _, rfl, by decide, by decide, by decide⟩
  cases v with
  | string s => exact ⟨_, _, Json.Reader.bytes_text s, by decide, by decide, by decide⟩
  | double d =>
    rw [json, Json.double]
    split
    · exact numeral (d.isProper_numeral .json)
    · exact null
  | integer i => exact numeral (Numeral.isProper_ofInt i.toInt)
  | boolean b =>
    cases b with
    | true => exact ⟨_, _, rfl, by decide, by decide, by decide⟩
    | false => exact ⟨_, _, rfl, by decide, by decide, by decide⟩
  | null => exact null

/-- The text of a value is read as its form is. -/
theorem read_compact (v : Value) : read (Text.bytes v.json.compact) = ofJson v.json := by
  obtain ⟨b, bs, text, blank, array, object⟩ := v.text_starts
  have whole := Json.readPrefix_compact v.legible_json Json.Reader.apart_nil
  rw [List.append_nil, text] at whole
  unfold read
  rw [text, Json.Reader.skipBlanks_cons blank]
  split
  · next h => exact absurd (List.cons.inj h).1 array
  · next h => exact absurd (List.cons.inj h).1 object
  · rw [whole]
    dsimp only
    cases ofJson v.json <;> rfl

/-- **A value comes back from its text.** -/
theorem read_json (h : ∀ d ∈ v.doubles, d.Survives) : read (Text.bytes v.json.compact) = .ok v := by
  rw [read_compact, ofJson_json h]

/-- **A finite double is read as a double**, also where it is not read as itself and where it is a
whole number. -/
theorem isDouble_of_read (finite : d.isFinite = true)
    (h : read (Text.bytes (Value.double d).json.compact) = .ok v) : ∃ d', v = .double d' := by
  rw [read_compact, ofJson_double finite] at h
  cases hd : (d.numeral .json).double? with
  | none =>
    rw [hd] at h
    cases h
  | some d' =>
    rw [hd] at h
    exact ⟨d', (Except.ok.inj h).symm⟩

/-- The numbers three and three, of two kinds. -/
example : (Value.double ⟨0x4008000000000000⟩).json.compact = "3.0" ∧
    (Value.integer 3).json.compact = "3" := by
  constructor <;> cbv

end Value

/-! ## Records, payloads and invocations -/

variable {n : Nat}

theorem recordOfJson?_json {r : Record} (h : ∀ d ∈ recordDoubles r, d.Survives) :
    recordOfJson? (recordJson r) = some r := by
  have entries : (recordJson r).members? Value.ofJson? = some r.entries :=
    Json.members?_record fun p hp => Value.ofJson?_json fun d hd =>
      h d (List.mem_flatMap.mpr ⟨p, hp, hd⟩)
  unfold recordOfJson?
  rw [entries, Option.map_some, Dict.ofList_entries]

theorem legible_recordJson (r : Record) : Json.Legible .none n (recordJson r) := by
  refine .record Json.hasRoom_none fun m hm => ?_
  obtain ⟨p, -, rfl⟩ := List.mem_map.mp hm
  exact p.2.legible_json

namespace Payload

variable {p : Payload}

theorem list?_recordsJson {rs : List Record} (h : ∀ d ∈ rs.flatMap recordDoubles, d.Survives) :
    (recordsJson rs).list? recordOfJson? = some rs :=
  Json.list?_array fun r hr => recordOfJson?_json fun d hd =>
    h d (List.mem_flatMap.mpr ⟨r, hr, hd⟩)

theorem legible_recordsJson (rs : List Record) : Json.Legible .none n (recordsJson rs) :=
  Json.legible_array Json.hasRoom_none fun r _ => legible_recordJson r

/-- **A payload comes back from its form.** -/
theorem ofJson?_json (h : ∀ d ∈ p.doubles, d.Survives) : ofJson? p.json = some p := by
  have values : p.json.values? names = some [some (.int p.sequence.toNat),
      some (recordsJson p.added), some (recordsJson p.updated), some (recordsJson p.deleted)] :=
    Json.values?_record rfl (by decide)
  simp only [doubles, List.flatMap_append, List.forall_mem_append] at h
  unfold ofJson?
  rw [values]
  simp [Json.required, list?_recordsJson h.1.1, list?_recordsJson h.1.2, list?_recordsJson h.2]

theorem legible_json (p : Payload) : Json.Legible .none n p.json := by
  refine .record Json.hasRoom_none ?_
  simp only [List.forall_mem_cons]
  exact ⟨Json.legible_nat64 _, legible_recordsJson _, legible_recordsJson _, legible_recordsJson _,
    by simp⟩

end Payload

namespace Invocation

/-- **An invocation comes back from its form.** -/
theorem ofJson?_json {i : Invocation} (h : ∀ d ∈ i.payload.doubles, d.Survives) :
    ofJson? i.json = some i := by
  have values : i.json.values? names = some [some (.text i.id), some (.int i.timestamp.toInt),
      some (.text i.query), some i.metadata.json, some i.payload.json] :=
    Json.values?_record rfl (by decide)
  unfold ofJson?
  rw [values]
  simp [Json.required, Payload.ofJson?_json h]

theorem legible_json (i : Invocation) : Json.Legible .none n i.json := by
  refine .record Json.hasRoom_none ?_
  simp only [List.forall_mem_cons]
  exact ⟨.text _, Json.legible_int64 _, .text _, Dict.legible_json Json.hasRoom_none _,
    Payload.legible_json _, by simp⟩

end Invocation

end ChangeRelay
