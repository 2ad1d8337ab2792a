/-!
# Dictionaries

Finite maps from texts. A dictionary keeps its entries in increasing order of key, by code point,
and no key twice, so two dictionaries with the same look-ups are equal and every listing of one
comes out in the same order.

The `BTreeMap` fields of events, batches, records and invocations are dictionaries.

* `get?_insert`: a write is seen under its key and under no other.
* `ofList_entries`: a dictionary is the dictionary of its entries.
-/

namespace ChangeRelay

universe u v

/-- A finite map from texts, in order of key. -/
structure Dict (α : Type u) where
  entries : List (String × α)
  sorted : entries.Pairwise fun p q => p.1 < q.1

namespace Dict

variable {α : Type u} {β : Type v}

@[ext] theorem ext {a b : Dict α} (h : a.entries = b.entries) : a = b := by
  obtain ⟨_, _⟩ := a
  obtain ⟨_, _⟩ := b
  cases h
  rfl

instance [DecidableEq α] : DecidableEq (Dict α) := fun a b =>
  decidable_of_iff (a.entries = b.entries) ⟨ext, fun h => h ▸ rfl⟩

instance [Repr α] : Repr (Dict α) := ⟨fun d n => reprPrec d.entries n⟩

/-- No entries. -/
def empty : Dict α := ⟨[], .nil⟩

instance : Inhabited (Dict α) := ⟨empty⟩

/-- The value under a key. -/
def get? (d : Dict α) (k : String) : Option α := d.entries.lookup k

def contains (d : Dict α) (k : String) : Bool := (d.get? k).isSome

def size (d : Dict α) : Nat := d.entries.length

/-- Puts an entry at its place among entries in order, over an entry with the same key. -/
def place (k : String) (x : α) : List (String × α) → List (String × α)
  | [] => [(k, x)]
  | p :: ps =>
    if k < p.1 then (k, x) :: p :: ps
    else if p.1 < k then p :: place k x ps
    else (k, x) :: ps

theorem mem_place {k : String} {x : α} {q : String × α} :
    ∀ {ps : List (String × α)}, q ∈ place k x ps → q = (k, x) ∨ q ∈ ps
  | [], h => by simpa [place] using h
  | p :: ps, h => by
    unfold place at h
    split at h
    · simpa using h
    · split at h
      · rcases List.mem_cons.mp h with rfl | h
        · simp
        · rcases mem_place h with rfl | h <;> simp_all
      · rcases List.mem_cons.mp h with rfl | h <;> simp_all

theorem key_eq_of_not_lt {a b : String} (h : ¬a < b) (h' : ¬b < a) : a = b :=
  String.le_antisymm (String.not_lt.mp h') (String.not_lt.mp h)

theorem sorted_place (k : String) (x : α) : ∀ {ps : List (String × α)},
    ps.Pairwise (fun p q => p.1 < q.1) → (place k x ps).Pairwise fun p q => p.1 < q.1
  | [], _ => by simp [place]
  | p :: ps, h => by
    have hp := List.pairwise_cons.mp h
    unfold place
    split
    · next hk =>
      refine List.pairwise_cons.mpr ⟨fun q hq => ?_, h⟩
      rcases List.mem_cons.mp hq with rfl | hq
      · exact hk
      · exact String.lt_trans hk (hp.1 q hq)
    · split
      · next hk =>
        refine List.pairwise_cons.mpr ⟨fun q hq => ?_, sorted_place k x hp.2⟩
        rcases mem_place hq with rfl | hq
        · exact hk
        · exact hp.1 q hq
      · next h₁ h₂ =>
        have e : p.1 = k := key_eq_of_not_lt h₂ h₁
        exact List.pairwise_cons.mpr ⟨fun q hq => e ▸ hp.1 q hq, hp.2⟩

/-- Writes a value under a key. -/
def insert (d : Dict α) (k : String) (x : α) : Dict α :=
  ⟨place k x d.entries, sorted_place k x d.sorted⟩

/-- Writes a value under a key that has none, and else changes nothing. -/
def insertIfNew (d : Dict α) (k : String) (x : α) : Dict α :=
  if d.contains k then d else d.insert k x

/-- The dictionary of entries in any order; of several under one key the last counts. -/
def ofList (ps : List (String × α)) : Dict α :=
  ps.foldl (fun d p => d.insert p.1 p.2) empty

/-- Every value changed by a function. -/
def map (f : α → β) (d : Dict α) : Dict β :=
  ⟨d.entries.map fun p => (p.1, f p.2),
    List.pairwise_map.mpr (d.sorted.imp fun h => h)⟩

/-- Every value changed by a function that may refuse; the first refusal in key order counts. -/
def traverse {ε : Type v} (f : String → α → Except ε β) (d : Dict α) : Except ε (Dict β) :=
  (d.entries.mapM fun p => (f p.1 p.2).map fun y => (p.1, y)).map ofList

/-! ## Laws -/

theorem lookup_place (k : String) (x : α) (k' : String) : ∀ {ps : List (String × α)},
    ps.Pairwise (fun p q => p.1 < q.1) →
      (place k x ps).lookup k' = if k' = k then some x else ps.lookup k'
  | [], _ => by
    simp only [place, List.lookup_cons, List.lookup_nil]
    by_cases h : k' = k
    · simp [h]
    · simp [h, beq_false_of_ne h]
  | p :: ps, h => by
    have hp := List.pairwise_cons.mp h
    unfold place
    split
    · rw [List.lookup_cons]
      by_cases hk : k' = k
      · simp [hk]
      · simp [hk, beq_false_of_ne hk]
    · split
      · next h₁ h₂ =>
        rw [List.lookup_cons, List.lookup_cons, lookup_place k x k' hp.2]
        by_cases hk : k' = p.1
        · have : k' ≠ k := fun e => String.lt_irrefl k (by rw [← hk, e] at h₂; exact h₂)
          simp [hk ▸ this, hk]
        · simp [beq_false_of_ne hk]
      · next h₁ h₂ =>
        have e : p.1 = k := key_eq_of_not_lt h₂ h₁
        rw [List.lookup_cons, List.lookup_cons, e]
        by_cases hk : k' = k
        · simp [hk]
        · simp [hk, beq_false_of_ne hk]

/-- A write is seen under its key and under no other. -/
theorem get?_insert (d : Dict α) (k : String) (x : α) (k' : String) :
    (d.insert k x).get? k' = if k' = k then some x else d.get? k' :=
  lookup_place k x k' d.sorted

@[simp] theorem get?_empty (k : String) : (empty : Dict α).get? k = none := rfl

theorem place_of_last {k : String} {x : α} : ∀ {ps : List (String × α)},
    (∀ p ∈ ps, p.1 < k) → place k x ps = ps ++ [(k, x)]
  | [], _ => rfl
  | p :: ps, h => by
    have hp := h p (by simp)
    have hn : ¬k < p.1 := String.lt_asymm hp
    simp only [place, hn, hp, if_true, if_false, List.cons_append]
    rw [place_of_last fun q hq => h q (by simp [hq])]

theorem foldl_insert_entries : ∀ (ps : List (String × α)) (d : Dict α),
    (d.entries ++ ps).Pairwise (fun p q => p.1 < q.1) →
      (ps.foldl (fun d p => d.insert p.1 p.2) d).entries = d.entries ++ ps
  | [], d, _ => by simp
  | p :: ps, d, h => by
    have hlast : ∀ q ∈ d.entries, q.1 < p.1 := by
      intro q hq
      exact (List.pairwise_append.mp h).2.2 q hq p (by simp)
    have he : (d.insert p.1 p.2).entries = d.entries ++ [p] := place_of_last hlast
    rw [List.foldl_cons, foldl_insert_entries ps (d.insert p.1 p.2)]
    · rw [he, List.append_assoc, List.singleton_append]
    · rw [he, List.append_assoc, List.singleton_append]
      exact h

/-- The dictionary of entries that are in order keeps them as they are. -/
theorem entries_ofList {ps : List (String × α)} (h : ps.Pairwise fun p q => p.1 < q.1) :
    (ofList ps).entries = ps := by
  simpa [ofList, empty] using foldl_insert_entries ps empty (by simpa [empty] using h)

/-- A dictionary is the dictionary of its entries. -/
theorem ofList_entries (d : Dict α) : ofList d.entries = d :=
  ext (entries_ofList d.sorted)

end Dict

end ChangeRelay
