import ChangeRelay.Proofs.Wire.Json
import Mathlib.Data.List.Forall2

/-!
# What the shape of a body says

A body is meant to be told by its shape: an array is a batch with an event of each of its items, and
an object is a single event. Every body that is accepted is read so, except that an array of no
events may still be the values of one event in the order of its names. `Shaped` and `Positional` are
the two ways of reading a tree as an `EventsBody`, and what stands first in an array decides between
them: an event is never a number, and the first value of an event always is one.

* **`ofJson?_iff`**: a tree is a body in the way that its first item asks for, and in no other.
* **`read_iff`**: so is a text that is accepted.
* **`not_by_shape`**: hence there are arrays that are no batch.
-/

namespace ChangeRelay

namespace Json

variable {j : Json}

/-- Whether the tree is an array with a number as its first item. -/
def numberFirst : Json → Bool
  | .array (.number _ :: _) => true
  | _ => false

theorem numberFirst_of_nat64? {k : UInt64} (h : j.nat64? = some k) (js : List Json) :
    (Json.array (j :: js)).numberFirst = true := by
  cases j with
  | number n => rfl
  | _ => exact absurd h (by simp [nat64?, integer?])

/-- The items of an array, read one by one and in order. -/
theorem forall₂_of_mapM {α : Type} {f : Json → Option α} : ∀ {js : List Json} {xs : List α},
    js.mapM f = some xs ↔ List.Forall₂ (fun j x => f j = some x) js xs
  | [], xs => by simp [eq_comm]
  | j :: js, xs => by
    simp only [List.mapM_cons, Option.bind_eq_bind, Option.bind_eq_some_iff, Option.pure_def,
      Option.some.injEq, forall₂_of_mapM, List.forall₂_cons_left_iff]
    constructor
    · rintro ⟨x, hx, ys, hys, rfl⟩
      exact ⟨x, ys, hx, hys, rfl⟩
    · rintro ⟨x, ys, hx, hys, rfl⟩
      exact ⟨x, hx, ys, hys, rfl⟩

/-- By position, the first item is the first value. -/
theorem head_of_values? {names : List String} {js : List Json} {vs : List (Option Json)}
    (h : (Json.array (j :: js)).values? names = some vs) : ∃ rest, vs = some j :: rest := by
  unfold values? at h
  simp only [Option.ite_none_right_eq_some, Option.some.injEq] at h
  exact ⟨_, h.2.symm⟩

end Json

namespace Wire

/-! ## What an event is read from -/

namespace Event

variable {j : Json} {js : List Json} {e : Event}

@[simp] theorem ofJson?_number (n : Numeral) : ofJson? (.number n) = none := rfl

/-- An event is read from an object by name, or from an array by position. -/
theorem isRecord_of_ofJson? (h : ofJson? j = some e) :
    (∃ ms, j = .object ms) ∨ ∃ js, j = .array js := by
  cases j with
  | object ms => exact .inl ⟨ms, rfl⟩
  | array js => exact .inr ⟨js, rfl⟩
  | _ => exact absurd h (by simp [ofJson?, Json.values?])

/-- By position, the number of an event in its stream comes first. -/
theorem sequence_of_ofJson? (h : ofJson? (.array (j :: js)) = some e) :
    j.nat64? = some e.sequence := by
  unfold ofJson? at h
  simp only [Option.bind_eq_bind, Option.bind_eq_some_iff] at h
  obtain ⟨vs, hvs, h⟩ := h
  obtain ⟨rest, rfl⟩ := Json.head_of_values? hvs
  split at h
  · next sequence _ _ _ _ _ _ same =>
    obtain rfl := (List.cons.inj same).1
    simp only [Option.bind_eq_some_iff, Option.pure_def, Option.some.injEq] at h
    obtain ⟨k, hk, -, -, -, -, -, -, -, -, -, -, -, -, rfl⟩ := h
    exact hk
  · simp at h

end Event

/-! ## The two ways of reading a body -/

namespace Body

variable {j : Json} {b : Body}

/-- A body read by the shape of its tree. -/
inductive Shaped : Json → Body → Prop
  /-- An array is a batch with the event of each item, in order. -/
  | many {items : List Json} {es : List Event}
      (each : List.Forall₂ (fun j e => Event.ofJson? j = some e) items es) :
      Shaped (.array items) (.many es)
  /-- An object is a single event. -/
  | one {members : List (Option String × Json)} {e : Event}
      (event : Event.ofJson? (.object members) = some e) : Shaped (.object members) (.one e)

/-- A body read from the values of one event, in the order of their names. -/
inductive Positional : Json → Body → Prop
  | one {items : List Json} {e : Event} (event : Event.ofJson? (.array items) = some e) :
      Positional (.array items) (.one e)

/-- An array that starts with a number is no array of events. -/
theorem list?_of_numberFirst (h : j.numberFirst = true) : j.list? Event.ofJson? = none := by
  unfold Json.numberFirst at h
  split at h
  · next n js =>
    simp only [Json.list?, List.mapM_cons, Event.ofJson?_number]
    rfl
  · cases h

/-- An array that starts with anything else is not an event. -/
theorem numberFirst_of_event {i : Json} {js : List Json} {e : Event}
    (h : Event.ofJson? (.array (i :: js)) = some e) : (Json.array (i :: js)).numberFirst = true :=
  Json.numberFirst_of_nat64? (Event.sequence_of_ofJson? h) js

/-- An array that does not start with a number is a batch, if it is anything. -/
theorem ofJson?_array {items : List Json} (h : (Json.array items).numberFirst = false) :
    ofJson? (.array items) = (items.mapM Event.ofJson?).map many := by
  unfold ofJson?
  cases items with
  | nil => rfl
  | cons i js =>
    have noEvent : Event.ofJson? (.array (i :: js)) = none := by
      cases he : Event.ofJson? (.array (i :: js)) with
      | none => rfl
      | some e => exact absurd (numberFirst_of_event he) (by simp [h])
    rw [noEvent, Option.map_none, Option.or_none, Json.list?]

theorem ofJson?_object (members : List (Option String × Json)) :
    ofJson? (.object members) = (Event.ofJson? (.object members)).map one := rfl

/-- **A tree is a body in the way that its first item asks for**, and in no other. -/
theorem ofJson?_iff : ofJson? j = some b ↔
    if j.numberFirst then Positional j b else Shaped j b := by
  cases hn : j.numberFirst with
  | true =>
    rw [if_pos rfl, ofJson?, list?_of_numberFirst hn, Option.map_none, Option.none_or,
      Option.map_eq_some_iff]
    constructor
    · rintro ⟨e, event, rfl⟩
      rcases Event.isRecord_of_ofJson? event with ⟨ms, rfl⟩ | ⟨js, rfl⟩
      · cases hn
      · exact .one event
    · rintro ⟨event⟩
      exact ⟨_, event, rfl⟩
  | false =>
    rw [if_neg Bool.false_ne_true]
    constructor
    · intro h
      cases j with
      | array items =>
        rw [ofJson?_array hn, Option.map_eq_some_iff] at h
        obtain ⟨es, each, rfl⟩ := h
        exact .many (Json.forall₂_of_mapM.mp each)
      | object members =>
        rw [ofJson?_object, Option.map_eq_some_iff] at h
        obtain ⟨e, event, rfl⟩ := h
        exact .one event
      | _ => cases h
    · intro h
      cases h with
      | many each => rw [ofJson?_array hn, Json.forall₂_of_mapM.mpr each, Option.map_some]
      | one event => rw [ofJson?_object, event, Option.map_some]

/-- **How a text is read** that is accepted as a body: as a batch with an event of each item if it
is an array, in order, and as a single event if it is an object, unless it is an array with a number
as its first item; then it is read as the values of one event. -/
theorem read_iff {bs : List UInt8} : read bs = .ok b ↔ ∃ j rest,
    Json.readPrefix limits bs = some (j, rest) ∧ Json.onlyBlanks rest = true ∧
      if j.numberFirst then Positional j b else Shaped j b := by
  simp only [← ofJson?_iff]
  unfold read
  cases hj : Json.readPrefix limits bs with
  | none => simp
  | some p =>
    obtain ⟨j, rest⟩ := p
    cases hb : ofJson? j with
    | none => simp [hb]
    | some b' =>
      cases hr : Json.onlyBlanks rest <;> simp [hb, hr]

/-- **Not every array is a batch**: the first four values of an event are that event, and no batch
of four. -/
theorem not_by_shape : ∃ items e,
    Json.read? (Text.bytes "[1,0,\"c\",\"n1\"]") = some (.array items) ∧
      read (Text.bytes "[1,0,\"c\",\"n1\"]") = .ok (.one e) ∧ ¬ Shaped (.array items) (.one e) := by
  let items : List Json := [.int 1, .int 0, .text "c", .text "n1"]
  refine ⟨items, ⟨1, 0, "c", "n1", [], .empty, none⟩, ?_, by decide +kernel, fun h => nomatch h⟩
  have legible : Json.Legible .none 0 (.array items) := by
    refine .array (fun _ h => absurd h (by simp [Json.Limits.none])) ?_
    simp only [items, List.forall_mem_cons]
    exact ⟨Json.legible_int (by decide) (by decide), Json.legible_int (by decide) (by decide),
      .text _, .text _, by simp⟩
  have text : (Json.array items).compact = "[1,0,\"c\",\"n1\"]" := by
    simp only [items, Json.int, Json.text, Json.compact, Json.compactItems, Json.literal?,
      Json.literal, String.foldl_eq_foldl_toList]
    decide +kernel
  rw [← text]
  exact Json.read?_compact legible

end Body

end Wire

end ChangeRelay
