/-!
# Sets of texts

Finite sets of texts, kept as lists in increasing order without repeats, so that equal sets are
equal values and are listed in one order.

The `BTreeSet` fields, such as the labels of a `SourceChangeEvent`, are such sets.

* `mem_ofList`: a list's set holds the list's members.
* `ofList_toList`: a set is the set of its listing.
-/

namespace ChangeRelay

/-- A finite set of texts, listed in order. -/
structure TextSet where
  toList : List String
  sorted : toList.Pairwise (· < ·)

namespace TextSet

@[ext] theorem ext {a b : TextSet} (h : a.toList = b.toList) : a = b := by
  obtain ⟨_, _⟩ := a
  obtain ⟨_, _⟩ := b
  cases h
  rfl

instance : DecidableEq TextSet := fun a b =>
  decidable_of_iff (a.toList = b.toList) ⟨ext, fun h => h ▸ rfl⟩

instance : Repr TextSet := ⟨fun d n => reprPrec d.toList n⟩

/-- No members. -/
def empty : TextSet := ⟨[], .nil⟩

instance : Inhabited TextSet := ⟨empty⟩

instance : Membership String TextSet := ⟨fun s x => x ∈ s.toList⟩

def contains (s : TextSet) (x : String) : Bool := s.toList.contains x

def isEmpty (s : TextSet) : Bool := s.toList.isEmpty

/-- Puts a text at its place in a list in order, unless it is there. -/
def place (x : String) : List String → List String
  | [] => [x]
  | y :: ys => if x < y then x :: y :: ys else if y < x then y :: place x ys else y :: ys

theorem mem_place {x z : String} : ∀ {ys : List String}, z ∈ place x ys ↔ z = x ∨ z ∈ ys
  | [] => by simp [place]
  | y :: ys => by
    unfold place
    split
    · simp
    · split
      · rw [List.mem_cons, mem_place, List.mem_cons]
        constructor <;> rintro (h | h | h) <;> simp [h]
      · next h₁ h₂ =>
        have e : y = x := String.le_antisymm (String.not_lt.mp h₁) (String.not_lt.mp h₂)
        subst e
        simp

theorem sorted_place (x : String) : ∀ {ys : List String},
    ys.Pairwise (· < ·) → (place x ys).Pairwise (· < ·)
  | [], _ => by simp [place]
  | y :: ys, h => by
    have hy := List.pairwise_cons.mp h
    unfold place
    split
    · next hx =>
      refine List.pairwise_cons.mpr ⟨fun z hz => ?_, h⟩
      rcases List.mem_cons.mp hz with rfl | hz
      · exact hx
      · exact String.lt_trans hx (hy.1 z hz)
    · split
      · next hx =>
        refine List.pairwise_cons.mpr ⟨fun z hz => ?_, sorted_place x hy.2⟩
        rcases mem_place.mp hz with rfl | hz
        · exact hx
        · exact hy.1 z hz
      · exact h

/-- Adds a member. -/
def insert (s : TextSet) (x : String) : TextSet := ⟨place x s.toList, sorted_place x s.sorted⟩

/-- The set of a list's members. -/
def ofList (xs : List String) : TextSet := xs.foldl insert empty

theorem mem_insert {s : TextSet} {x z : String} : z ∈ s.insert x ↔ z = x ∨ z ∈ s := mem_place

theorem mem_foldl_insert {z : String} : ∀ (xs : List String) (s : TextSet),
    z ∈ xs.foldl insert s ↔ z ∈ xs ∨ z ∈ s
  | [], s => by simp
  | x :: xs, s => by
    rw [List.foldl_cons, mem_foldl_insert xs, mem_insert, List.mem_cons]
    rw [← or_assoc, or_comm (a := z ∈ xs) (b := z = x)]

/-- A list's set holds the list's members. -/
theorem mem_ofList {xs : List String} {z : String} : z ∈ ofList xs ↔ z ∈ xs := by
  rw [ofList, mem_foldl_insert]
  exact or_iff_left fun h => List.not_mem_nil h

theorem place_of_last {x : String} : ∀ {ys : List String},
    (∀ y ∈ ys, y < x) → place x ys = ys ++ [x]
  | [], _ => rfl
  | y :: ys, h => by
    have hy := h y (by simp)
    have hn : ¬x < y := String.lt_asymm hy
    simp only [place, hn, hy, if_true, if_false, List.cons_append]
    rw [place_of_last fun z hz => h z (by simp [hz])]

theorem toList_foldl_insert : ∀ (xs : List String) (s : TextSet),
    (s.toList ++ xs).Pairwise (· < ·) → (xs.foldl insert s).toList = s.toList ++ xs
  | [], s, _ => by simp
  | x :: xs, s, h => by
    have hlast : ∀ y ∈ s.toList, y < x := fun y hy =>
      (List.pairwise_append.mp h).2.2 y hy x (by simp)
    have he : (s.insert x).toList = s.toList ++ [x] := place_of_last hlast
    rw [List.foldl_cons, toList_foldl_insert xs (s.insert x)]
    · rw [he, List.append_assoc, List.singleton_append]
    · rw [he, List.append_assoc, List.singleton_append]
      exact h

theorem toList_ofList {xs : List String} (h : xs.Pairwise (· < ·)) : (ofList xs).toList = xs := by
  simpa [ofList, empty] using toList_foldl_insert xs empty (by simpa [empty] using h)

/-- A set is the set of its listing. -/
theorem ofList_toList (s : TextSet) : ofList s.toList = s := ext (toList_ofList s.sorted)

end TextSet

end ChangeRelay
