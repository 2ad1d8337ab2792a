import ChangeRelay.Proofs.Json.Grammar

/-!
# Trees are read as they were written

A tree written without blanks is read back, with whatever follows it. `Legible` says for which trees
that holds: numerals are those of the grammar, strings are texts, and arrays and objects do not
stand deeper than the reader goes.

* **`spells_compact`**: what is written of a legible tree is a text of the grammar.
* **`readPrefix_compact`**, **`read?_compact`**: so a legible tree is what its text is read as.
-/

namespace ChangeRelay.Json

/-- A tree that can be read from what is written of it inside `n` arrays and objects. -/
inductive Legible (l : Limits) : Nat → Json → Prop
  | null {n : Nat} : Legible l n .null
  | bool {n : Nat} (b : Bool) : Legible l n (.bool b)
  | number {n : Nat} {k : Numeral} (proper : k.IsProper)
      (means : l.meaningful = true → k.number?.isSome = true) : Legible l n (.number k)
  | text {n : Nat} (s : String) : Legible l n (.text s)
  | array {n : Nat} {items : List Json} (room : l.HasRoom n)
      (inside : ∀ j ∈ items, Legible l (n + 1) j) : Legible l n (.array items)
  | record {n : Nat} {members : List (String × Json)} (room : l.HasRoom n)
      (inside : ∀ m ∈ members, Legible l (n + 1) m.2) : Legible l n (.record members)

namespace Reader

open Piece

variable {l : Limits} {n : Nat} {j : Json}

/-! ## What is written of a tree -/

theorem text_starts {k : Numeral} (p : k.IsProper) :
    ∃ b bs, Text.bytes k.text = b :: bs ∧ StartsNumeral b := by
  rw [bytes_numeral]
  exact starts_numeral p _

theorem bytes_text (s : String) : Text.bytes (compact (.text s)) =
    0x22 :: ((s.toList.flatMap fun c => Text.bytes (escape c)) ++ [0x22]) := by
  rw [text, compact]
  exact bytes_literal s

theorem bytes_array (items : List Json) : Text.bytes (compact (.array items)) =
    0x5B :: (Text.bytes (compactItems items) ++ [0x5D]) := by
  rw [compact, Text.bytes_append, Text.bytes_append]
  rfl

theorem bytes_record (members : List (String × Json)) : Text.bytes (compact (.record members)) =
    0x7B :: (Text.bytes (compactMembers (members.map fun m => (some m.1, m.2))) ++ [0x7D]) := by
  rw [record, compact, Text.bytes_append, Text.bytes_append]
  rfl

theorem bytes_items (j j' : Json) (js : List Json) : Text.bytes (compactItems (j :: j' :: js)) =
    Text.bytes j.compact ++ 0x2C :: Text.bytes (compactItems (j' :: js)) := by
  rw [compactItems, Text.bytes_append, Text.bytes_append, List.append_assoc]
  · rfl
  · simp

theorem bytes_member (s : String) (j : Json) : Text.bytes (compactMembers [(some s, j)]) =
    Text.bytes (literal s) ++ 0x3A :: Text.bytes j.compact := by
  rw [compactMembers, Text.bytes_append, Text.bytes_append, List.append_assoc]
  rfl

theorem bytes_members (s : String) (j : Json) (m : Option String × Json)
    (ms : List (Option String × Json)) : Text.bytes (compactMembers ((some s, j) :: m :: ms)) =
      Text.bytes (literal s) ++
        0x3A :: (Text.bytes j.compact ++ 0x2C :: Text.bytes (compactMembers (m :: ms))) := by
  rw [compactMembers]
  · simp only [Text.bytes_append, List.append_assoc]
    rfl
  · simp

/-! ## It is of the grammar -/

/-- The pieces in which a text is written. -/
noncomputable def pieces (s : String) : List Piece := (exists_pieces s).choose

theorem quoted_pieces (s : String) : quoted (pieces s) = Text.bytes (literal s) :=
  (exists_pieces s).choose_spec.1

@[simp] theorem spelled?_pieces (s : String) : spelled? (pieces s) = some s :=
  (exists_pieces s).choose_spec.2

theorem spells_text (s : String) : Spells l n (.text s) (Text.bytes (literal s)) := by
  have spells : Spells l n (.string (spelled? (pieces s))) (quoted (pieces s)) :=
    .string _ fun _ => by rw [spelled?_pieces, Option.isSome_some]
  rwa [quoted_pieces, spelled?_pieces] at spells

theorem spells_number {k : Numeral} (proper : k.IsProper)
    (means : l.meaningful = true → k.number?.isSome = true) :
    Spells l n (.number k) (Text.bytes k.text) := by
  rw [bytes_numeral]
  exact .number proper (.inl rfl) means

theorem spells_array {items : List Json} {slots : List Slot} (room : l.HasRoom n)
    (some : slots ≠ []) (trees : slots.map Slot.tree = items)
    (inside : ∀ i ∈ slots, Spells l (n + 1) i.tree i.core) :
    Spells l n (.array items) (0x5B :: (commas (slots.map Slot.bytes) ++ [0x5D])) := by
  rw [← trees]
  exact .array room some inside

/-- The names of a record are texts, so any reader takes them. -/
theorem spells_record {fields : List (String × Json)} {members : List Member}
    (room : l.HasRoom n) (some : members ≠ [])
    (entries : members.map Member.entry = fields.map fun m => (.some m.1, m.2))
    (inside : ∀ m ∈ members, Spells l (n + 1) m.value.tree m.value.core) :
    Spells l n (.record fields) (0x7B :: (commas (members.map Member.bytes) ++ [0x7D])) := by
  have names : ∀ m ∈ members, l.meaningful = true → (spelled? m.name).isSome = true := by
    intro m hm _
    have there : m.entry ∈ fields.map fun m => (Option.some m.1, m.2) :=
      entries ▸ List.mem_map_of_mem hm
    obtain ⟨field, -, same⟩ := List.mem_map.mp there
    have name : spelled? m.name = .some field.1 := (congrArg Prod.fst same).symm
    rw [name, Option.isSome_some]
  rw [record, ← entries]
  exact .object room some names inside

/-- An item of an array without blanks. -/
def tightItem (j : Json) : Slot := ⟨.none, j, Text.bytes j.compact, .none⟩

/-- A member of an object without blanks. -/
noncomputable def tightMember (m : String × Json) : Member :=
  ⟨.none, pieces m.1, .none, tightItem m.2⟩

theorem bytes_tightItem (j : Json) : (tightItem j).bytes = Text.bytes j.compact :=
  List.append_nil _

theorem bytes_tightMember (m : String × Json) : (tightMember m).bytes =
    Text.bytes (literal m.1) ++ 0x3A :: Text.bytes m.2.compact := by
  rw [← quoted_pieces, ← bytes_tightItem]
  rfl

theorem entry_tightMember (m : String × Json) : (tightMember m).entry = (some m.1, m.2) := by
  rw [Member.entry, tightMember, spelled?_pieces]
  rfl

theorem commas_tightItems : ∀ js : List Json,
    commas ((js.map tightItem).map Slot.bytes) = Text.bytes (compactItems js)
  | [] => rfl
  | [j] => by
    rw [compactItems]
    exact bytes_tightItem j
  | j :: j' :: js => by
    rw [bytes_items, ← commas_tightItems (j' :: js), ← bytes_tightItem j]
    rfl

theorem commas_tightMembers : ∀ ms : List (String × Json),
    commas ((ms.map tightMember).map Member.bytes) =
      Text.bytes (compactMembers (ms.map fun m => (some m.1, m.2)))
  | [] => rfl
  | [m] => by
    show (tightMember m).bytes = Text.bytes (compactMembers [(some m.1, m.2)])
    rw [bytes_member, bytes_tightMember]
  | m :: m' :: ms => by
    have others := commas_tightMembers (m' :: ms)
    simp only [List.map_cons] at others ⊢
    rw [bytes_members, ← others, commas, bytes_tightMember, List.append_assoc]
    rfl

/-- **What is written of a legible tree** is a text of the grammar. -/
theorem spells_compact (h : Legible l n j) : Spells l n j (Text.bytes j.compact) := by
  induction h with
  | null => exact .null
  | bool b =>
    cases b with
    | true => exact .true
    | false => exact .false
  | number proper means =>
    rw [compact]
    exact spells_number proper means
  | text s =>
    rw [text, compact]
    exact spells_text s
  | @array n items room inside ih =>
    rw [bytes_array, ← commas_tightItems]
    cases items with
    | nil => exact .noItems room .none
    | cons j js =>
      have trees : ((j :: js).map tightItem).map Slot.tree = j :: js := by
        rw [List.map_map]
        exact List.map_id _
      exact spells_array room (by simp) trees (List.forall_mem_map.mpr ih)
  | @record n members room inside ih =>
    rw [bytes_record, ← commas_tightMembers]
    cases members with
    | nil => exact .noMembers room .none
    | cons m ms =>
      have entries : ((m :: ms).map tightMember).map Member.entry =
          (m :: ms).map fun m => (some m.1, m.2) := by
        rw [List.map_map]
        exact List.map_congr_left fun m _ => entry_tightMember m
      exact spells_record room (by simp) entries (List.forall_mem_map.mpr ih)

end Reader

open Reader

variable {l : Limits} {j : Json} {rest : List UInt8}

/-- **A legible tree is read back** from its text, with whatever follows it. -/
theorem readPrefix_compact (h : Legible l 0 j) (apart : Apart rest) :
    readPrefix l (Text.bytes j.compact ++ rest) = some (j, rest) :=
  readPrefix_of_spells (spells_compact h) apart

theorem read?_compact (h : Legible .none 0 j) : read? (Text.bytes j.compact) = some j := by
  rw [← bytes_tightItem]
  exact read?_of_spells (spells_compact h : Spells .none 0 (tightItem j).tree (tightItem j).core)

end ChangeRelay.Json
