import ChangeRelay.Proofs.Json.Compact

/-!
# Trees with one item on a line

A tree written with one item on a line is a text of the grammar as well: line breaks and indents are
blanks, which stand before every item, and behind the last.

* **`spells_pretty`**: what is written of a legible tree is a text of the grammar.
* **`read?_pretty`**: so a legible tree is what its text is read as.
-/

namespace ChangeRelay.Json

namespace Reader

open Piece

variable {l : Limits} {n : Nat} {j : Json}

/-! ## Blanks of the layout -/

theorem bytes_newline (depth : Nat) :
    Text.bytes (newline depth) = 0x0A :: List.replicate (2 * depth) 0x20 := by
  have spaces (s : String) (k : Nat) :
      Text.bytes (s.pushn ' ' k) = Text.bytes s ++ List.replicate k 0x20 := by
    induction k with
    | zero => exact (List.append_nil _).symm
    | succ k ih =>
      have push (t : String) : Text.bytes (t.push ' ') = Text.bytes t ++ [0x20] := by
        simp only [Text.bytes_eq, String.toList_push, List.flatMap_append]
        rfl
      show Text.bytes ((s.pushn ' ' k).push ' ') = _
      rw [push, ih, List.append_assoc, List.replicate_succ']
  exact spaces "\n" (2 * depth)

theorem isBlank_newline {depth : Nat} : ∀ b ∈ Text.bytes (newline depth), isBlank b = true := by
  intro b hb
  rw [bytes_newline] at hb
  rcases List.mem_cons.mp hb with rfl | hb
  · rfl
  · rw [List.eq_of_mem_replicate hb]
    rfl

/-- A line break and the indent behind it. -/
def lineBreak (depth : Nat) : Blanks := ⟨Text.bytes (newline depth), isBlank_newline⟩

def space : Blanks := ⟨[0x20], List.forall_mem_singleton.mpr rfl⟩

/-- Things in a row, the last of them with blanks behind it. -/
def closing {α β : Type} (f : Blanks → α → β) (last : Blanks) : List α → List β
  | [] => []
  | [a] => [f last a]
  | a :: b :: as => f .none a :: closing f last (b :: as)

section Closing

variable {α β γ : Type} {f : Blanks → α → β} {last : Blanks}

theorem map_closing {g : β → γ} {k : α → γ} (h : ∀ ws a, g (f ws a) = k a) :
    ∀ as : List α, (closing f last as).map g = as.map k
  | [] => rfl
  | [a] => congrArg (fun c => [c]) (h last a)
  | a :: b :: as => congr (congrArg List.cons (h .none a)) (map_closing h (b :: as))

theorem forall_closing {p : β → Prop} :
    ∀ {as : List α}, (∀ a ∈ as, ∀ ws, p (f ws a)) → ∀ b ∈ closing f last as, p b
  | [], _ => nofun
  | [a], h => List.forall_mem_singleton.mpr (h a (by simp) last)
  | a :: b :: as, h => List.forall_mem_cons.mpr ⟨h a (by simp) .none,
      forall_closing fun c hc => h c (List.mem_cons_of_mem a hc)⟩

theorem closing_ne_nil : ∀ {as : List α}, as ≠ [] → closing f last as ≠ []
  | [], h => absurd rfl h
  | [_], _ => List.cons_ne_nil _ _
  | _ :: _ :: _, _ => List.cons_ne_nil _ _

end Closing

/-! ## What is written of a tree -/

variable (depth : Nat)

/-- An item of an array on a line of its own. -/
def lineItem (behind : Blanks) (j : Json) : Slot :=
  ⟨lineBreak (depth + 1), j, Text.bytes (prettyAt (depth + 1) j), behind⟩

/-- A member of an object on a line of its own. -/
noncomputable def lineMember (behind : Blanks) (m : String × Json) : Member :=
  ⟨lineBreak (depth + 1), pieces m.1, .none,
    ⟨space, m.2, Text.bytes (prettyAt (depth + 1) m.2), behind⟩⟩

theorem entry_lineMember (behind : Blanks) (m : String × Json) :
    (lineMember depth behind m).entry = (some m.1, m.2) := by
  rw [Member.entry, lineMember, spelled?_pieces]

theorem bytes_lineMember (behind : Blanks) (m : String × Json) :
    (lineMember depth behind m).bytes = Text.bytes (newline (depth + 1)) ++
      (Text.bytes (literal m.1) ++ 0x3A :: 0x20 ::
        (Text.bytes (prettyAt (depth + 1) m.2) ++ behind.val)) := by
  rw [← quoted_pieces]
  rfl

/-- The items of an array with its last line break are what is written between its brackets. -/
theorem commas_lineItems : ∀ (j : Json) (js : List Json),
    commas ((closing (lineItem depth) (lineBreak depth) (j :: js)).map Slot.bytes) =
      Text.bytes (newline (depth + 1)) ++
        (Text.bytes (prettyItems (depth + 1) (j :: js)) ++ Text.bytes (newline depth))
  | j, [] => by
    rw [prettyItems]
    rfl
  | j, j' :: js => by
    have others := commas_lineItems j' js
    have first : (lineItem depth .none j).bytes =
        Text.bytes (newline (depth + 1)) ++ Text.bytes (prettyAt (depth + 1) j) :=
      congrArg (_ ++ ·) (List.append_nil _)
    have written : prettyItems (depth + 1) (j :: j' :: js) = prettyAt (depth + 1) j ++ "," ++
        newline (depth + 1) ++ prettyItems (depth + 1) (j' :: js) := by
      rw [prettyItems]
      simp
    rw [closing, List.map_cons, commas_cons_of_ne_nil _ (by simp [closing_ne_nil]), first, others,
      written]
    simp only [Text.bytes_append, List.append_assoc]
    rfl

/-- So it is with the members of an object. -/
theorem commas_lineMembers : ∀ (m : String × Json) (ms : List (String × Json)),
    commas ((closing (lineMember depth) (lineBreak depth) (m :: ms)).map Member.bytes) =
      Text.bytes (newline (depth + 1)) ++
        (Text.bytes (prettyMembers (depth + 1) ((m :: ms).map fun m => (some m.1, m.2))) ++
          Text.bytes (newline depth))
  | m, [] => by
    show (lineMember depth (lineBreak depth) m).bytes = Text.bytes (newline (depth + 1)) ++
      (Text.bytes (prettyMembers (depth + 1) [(some m.1, m.2)]) ++ Text.bytes (newline depth))
    rw [bytes_lineMember, prettyMembers]
    simp only [Text.bytes_append, List.append_assoc]
    rfl
  | m, m' :: ms => by
    have others := commas_lineMembers m' ms
    have written : prettyMembers (depth + 1) ((m :: m' :: ms).map fun m => (some m.1, m.2)) =
        literal? (some m.1) ++ ": " ++ prettyAt (depth + 1) m.2 ++ "," ++ newline (depth + 1) ++
          prettyMembers (depth + 1) ((m' :: ms).map fun m => (some m.1, m.2)) := by
      rw [List.map_cons, prettyMembers]
      simp
    rw [closing, List.map_cons, commas_cons_of_ne_nil _ (by simp [closing_ne_nil]),
      bytes_lineMember, others, written]
    simp only [Text.bytes_append, List.append_assoc, List.cons_append]
    rfl

variable {depth}

/-- **What is written of a legible tree** with one item on a line is a text of the grammar. -/
theorem spells_pretty (h : Legible l n j) : Spells l n j (Text.bytes (prettyAt depth j)) := by
  induction h generalizing depth with
  | null =>
    rw [prettyAt]
    exact .null
  | bool b =>
    cases b with
    | true =>
      rw [prettyAt]
      exact .true
    | false =>
      rw [prettyAt]
      exact .false
  | number proper means =>
    rw [prettyAt]
    exact spells_number proper means
  | text s =>
    rw [text, prettyAt]
    exact spells_text s
  | @array n items room inside ih =>
    cases items with
    | nil =>
      rw [prettyAt]
      exact .noItems room .none
    | cons j js =>
      have written : Text.bytes (prettyAt depth (.array (j :: js))) =
          0x5B :: (commas ((closing (lineItem depth) (lineBreak depth) (j :: js)).map Slot.bytes) ++
            [0x5D]) := by
        rw [prettyAt, commas_lineItems]
        simp only [Text.bytes_append, List.append_assoc]
        rfl
      have trees : (closing (lineItem depth) (lineBreak depth) (j :: js)).map Slot.tree = j :: js :=
        (map_closing (f := lineItem depth) (fun _ _ => rfl) _).trans (List.map_id _)
      rw [written]
      exact spells_array room (closing_ne_nil (by simp)) trees
        (forall_closing fun j hj _ => ih j hj)
  | @record n members room inside ih =>
    cases members with
    | nil =>
      rw [record, List.map_nil, prettyAt]
      exact .noMembers room .none
    | cons m ms =>
      have written : Text.bytes (prettyAt depth (.record (m :: ms))) =
          0x7B :: (commas ((closing (lineMember depth) (lineBreak depth)
            (m :: ms)).map Member.bytes) ++ [0x7D]) := by
        rw [commas_lineMembers, record, List.map_cons, prettyAt]
        simp only [Text.bytes_append, List.append_assoc]
        rfl
      have entries : (closing (lineMember depth) (lineBreak depth) (m :: ms)).map Member.entry =
          (m :: ms).map fun m => (some m.1, m.2) :=
        map_closing (entry_lineMember depth) _
      rw [written]
      exact spells_record room (closing_ne_nil (by simp)) entries
        (forall_closing fun m hm _ => ih m hm)

end Reader

open Reader

variable {l : Limits} {j : Json}

/-- **A legible tree is read back** from its text with one item on a line. -/
theorem read?_pretty (h : Legible .none 0 j) : read? (Text.bytes j.pretty) = some j := by
  let whole : Slot := ⟨.none, j, Text.bytes (prettyAt 0 j), .none⟩
  have bytes : whole.bytes = Text.bytes j.pretty := List.append_nil _
  have read : read? whole.bytes = some whole.tree := read?_of_spells (spells_pretty h)
  rwa [bytes] at read

end ChangeRelay.Json
