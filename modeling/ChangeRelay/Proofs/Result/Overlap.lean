import ChangeRelay.Proofs.Result.Order
import ChangeRelay.Result.Payload
import Mathlib.Data.List.Perm.Basic
import Mathlib.Logic.Equiv.Defs

/-!
# Identities that two lists of a payload share

The lists of a payload are gone through in the order in which they stand. The first entry whose
identity stands in an earlier list is reported, with the earliest of the lists that have it. So
nothing is reported exactly if no two lists share an identity, whatever the order of the lists and
of their records is and however often an identity stands in one of them. This is what
`check_disjoint` of `ReactionPayload` is for.

One pass suffices for it: a search tree keeps the list in which each identity was seen first. That
list is the earliest that has the identity, since no entry of a list comes before the entries of an
earlier one; and a list that has an identity twice is not told from itself.

* `overlap?_eq_scan`: what is reported is the first clash among the entries.
* **`overlap?_eq_none_iff`**: nothing is reported exactly if the lists are apart.
* **`overlap?_eq_some_iff`**: what is reported, and when.
* **`overlap?_eq_pass`**: one pass over the entries finds it.
* **`overlap_exact`**: all of this, and that the order of lists and records does not matter.
-/

namespace ChangeRelay

/-! ## Lists in their order -/

namespace RecordSet

/-- The place of a list in a payload. -/
def place : RecordSet → Nat
  | .added => 0
  | .updated => 1
  | .deleted => 2

/-- The lists in their order. -/
def all : List RecordSet := [.added, .updated, .deleted]

theorem mem_all (set : RecordSet) : set ∈ all := by
  cases set <;> decide

theorem place_inj {a b : RecordSet} (h : a.place = b.place) : a = b := by
  cases a <;> cases b <;> simp_all [place]

theorem pairwise_all : all.Pairwise fun a b => a.place < b.place := by
  decide

end RecordSet

namespace Payload

/-- No two lists of a payload share an identity. -/
def Apart (p : Payload) (field : String) : Prop :=
  ∀ a b, a ≠ b → ∀ v ∈ identities field (p.records a), v ∉ identities field (p.records b)

/-- The identities with the lists in which they stand, in the order of the lists. -/
def entries (p : Payload) (field : String) : List (RecordSet × Value) :=
  RecordSet.all.flatMap fun set => (identities field (p.records set)).map (Prod.mk set)

variable {p q : Payload} {field : String} {o : Overlap} {set first : RecordSet} {id : Value}

theorem mem_entries : (set, id) ∈ p.entries field ↔ id ∈ identities field (p.records set) := by
  simp [entries, RecordSet.mem_all]

/-- No entry comes before the entries of an earlier list. -/
theorem pairwise_entries (p : Payload) (field : String) :
    (p.entries field).Pairwise fun a b => a.1.place ≤ b.1.place := by
  refine List.pairwise_flatMap.mpr ⟨fun set _ => ?_, ?_⟩
  · exact List.pairwise_map.mpr (List.pairwise_of_forall fun _ _ => Nat.le_refl _)
  · refine RecordSet.pairwise_all.imp fun before x hx y hy => ?_
    obtain ⟨_, _, rfl⟩ := List.mem_map.mp hx
    obtain ⟨_, _, rfl⟩ := List.mem_map.mp hy
    exact Nat.le_of_lt before

/-! ## The first clash -/

/-- The first of the lists before one that has an identity. -/
def earlier? (p : Payload) (field : String) (set : RecordSet) (id : Value) : Option RecordSet :=
  RecordSet.all.find? fun a => a.place < set.place && id ∈ identities field (p.records a)

/-- What is wrong with an entry: an earlier list has its identity. -/
def clash? (p : Payload) (field : String) (entry : RecordSet × Value) : Option Overlap :=
  (p.earlier? field entry.1 entry.2).map fun first => ⟨entry.2, first, entry.1⟩

theorem earlier?_eq_none_iff : p.earlier? field set id = none ↔
    ∀ a, a.place < set.place → id ∉ identities field (p.records a) := by
  simp [earlier?, RecordSet.mem_all]

theorem earlier?_eq_some_iff : p.earlier? field set id = some first ↔
    first.place < set.place ∧ id ∈ identities field (p.records first) ∧
      ∀ a, id ∈ identities field (p.records a) → first.place ≤ a.place := by
  unfold earlier?
  simp only [List.find?_eq_some_iff_append, Bool.and_eq_true, decide_eq_true_eq]
  constructor
  · rintro ⟨⟨less, held⟩, before, after, e, missed⟩
    refine ⟨less, held, fun a ha => ?_⟩
    have later : ∀ b ∈ after, first.place < b.place :=
      (List.pairwise_cons.mp (List.pairwise_append.mp (e ▸ RecordSet.pairwise_all)).2.1).1
    rcases List.mem_append.mp (e ▸ RecordSet.mem_all a) with ha' | ha'
    · have : ¬a.place < set.place := fun h => by simpa [h, ha] using missed a ha'
      omega
    · rcases List.mem_cons.mp ha' with rfl | ha'
      · exact Nat.le_refl _
      · exact Nat.le_of_lt (later a ha')
  · rintro ⟨less, held, least⟩
    obtain ⟨before, after, e⟩ := List.append_of_mem (RecordSet.mem_all first)
    refine ⟨⟨less, held⟩, before, after, e, fun a ha => ?_⟩
    have : a.place < first.place :=
      (List.pairwise_append.mp (e ▸ RecordSet.pairwise_all)).2.2 a ha first List.mem_cons_self
    have : id ∉ identities field (p.records a) := fun h => by have := least a h; omega
    simp [this]

/-- **What is reported** is the first clash among the entries. -/
theorem overlap?_eq_scan : p.overlap? field = (p.entries field).findSome? (p.clash? field) := by
  have added (id : Value) : p.clash? field (.added, id) = none := rfl
  have updated (id : Value) : p.clash? field (.updated, id) =
      if id ∈ identities field p.added then some ⟨id, .added, .updated⟩ else none := by
    by_cases h : id ∈ identities field p.added <;>
      simp [clash?, earlier?, RecordSet.all, RecordSet.place, records, h]
  have deleted (id : Value) : p.clash? field (.deleted, id) =
      if id ∈ identities field p.added then some ⟨id, .added, .deleted⟩
      else if id ∈ identities field p.updated then some ⟨id, .updated, .deleted⟩
      else none := by
    by_cases h : id ∈ identities field p.added <;> by_cases h' : id ∈ identities field p.updated <;>
      simp [clash?, earlier?, RecordSet.all, RecordSet.place, records, h, h']
  have none_added :
      (identities field p.added).findSome? (fun _ => (none : Option Overlap)) = none :=
    List.findSome?_eq_none_iff.mpr fun _ _ => rfl
  simp only [entries, RecordSet.all, List.flatMap_cons, List.flatMap_nil, List.append_nil,
    List.findSome?_append, List.findSome?_map, Function.comp_def, added, updated, deleted, records,
    none_added, Option.none_or, overlap?]

/-- **Nothing is reported** exactly if the lists are apart. -/
theorem overlap?_eq_none_iff : p.overlap? field = none ↔ p.Apart field := by
  rw [overlap?_eq_scan, List.findSome?_eq_none_iff]
  simp only [clash?, Option.map_eq_none_iff, earlier?_eq_none_iff, Prod.forall, mem_entries]
  constructor
  · intro free a b other id ha hb
    rcases Nat.lt_trichotomy a.place b.place with h | h | h
    · exact free b id hb a h ha
    · exact other (RecordSet.place_inj h)
    · exact free a id ha b h hb
  · intro apart set id held a less ha
    have other : a ≠ set := fun e => Nat.lt_irrefl _ (e ▸ less)
    exact apart a set other id ha held

/-- What is reported of a payload. -/
structure Reported (p : Payload) (field : String) (o : Overlap) : Prop where
  before : o.first.place < o.second.place
  first : o.id ∈ identities field (p.records o.first)
  second : o.id ∈ identities field (p.records o.second)
  /-- No list before the first one has the identity. -/
  earliest : ∀ a, o.id ∈ identities field (p.records a) → o.first.place ≤ a.place
  /-- It is reported of an entry before which no entry has its identity in an earlier list. -/
  foremost : ∃ passed left, p.entries field = passed ++ (o.second, o.id) :: left ∧
    ∀ set id, (set, id) ∈ passed → ∀ a, a.place < set.place → id ∉ identities field (p.records a)

theorem clash?_eq_some_iff {entry : RecordSet × Value} : p.clash? field entry = some o ↔
    p.earlier? field entry.1 entry.2 = some o.first ∧ entry = (o.second, o.id) := by
  obtain ⟨set, id⟩ := entry
  obtain ⟨id', first, second⟩ := o
  simp only [clash?, Option.map_eq_some_iff, Overlap.mk.injEq, Prod.mk.injEq]
  constructor
  · rintro ⟨a, h, rfl, rfl, rfl⟩
    exact ⟨h, rfl, rfl⟩
  · rintro ⟨h, rfl, rfl⟩
    exact ⟨first, h, rfl, rfl, rfl⟩

/-- **What is reported, and when.** -/
theorem overlap?_eq_some_iff : p.overlap? field = some o ↔ p.Reported field o := by
  rw [overlap?_eq_scan, List.findSome?_eq_some_iff]
  constructor
  · rintro ⟨passed, entry, left, e, found, free⟩
    obtain ⟨found, rfl⟩ := clash?_eq_some_iff.mp found
    obtain ⟨before, first, earliest⟩ := earlier?_eq_some_iff.mp found
    refine ⟨before, first, ?_, earliest, passed, left, e, fun set id h => ?_⟩
    · exact mem_entries.mp (e ▸ List.mem_append_right _ List.mem_cons_self)
    · exact earlier?_eq_none_iff.mp (Option.map_eq_none_iff.mp (free _ h))
  · rintro ⟨before, first, -, earliest, passed, left, e, free⟩
    refine ⟨passed, _, left, e, ?_, fun entry h => ?_⟩
    · exact clash?_eq_some_iff.mpr ⟨earlier?_eq_some_iff.mpr ⟨before, first, earliest⟩, rfl⟩
    · exact Option.map_eq_none_iff.mpr (earlier?_eq_none_iff.mpr (free _ _ h))

/-- An identity may stand in one list twice, and an integer is never a double. -/
example :
    let int : Record := .ofList [("id", .integer 1)]
    let double : Record := .ofList [("id", .double (.ofNat 1))]
    (Payload.mk 1 [int, int] [double] []).overlap? "id" = none ∧
      (Payload.mk 2 [int] [double] [double]).overlap? "id" =
        some ⟨.double (.ofNat 1), .updated, .deleted⟩ := by
  decide +kernel

/-! ## One pass -/

/-- One pass over entries, with the list in which each identity was seen first. An identity that
was seen in the list of the entry is passed over. -/
def pass (seen : Std.TreeMap Value RecordSet Value.order) :
    List (RecordSet × Value) → Option Overlap
  | [] => none
  | (set, id) :: left =>
    match seen[id]? with
    | some first => if first = set then pass seen left else some ⟨id, first, set⟩
    | none => pass (seen.insert id set) left

/-- The list of the first entry of an identity. -/
def firstOf (passed : List (RecordSet × Value)) (id : Value) : Option RecordSet :=
  (passed.find? fun entry => entry.2 = id).map Prod.fst

theorem firstOf_concat {passed : List (RecordSet × Value)} {set : RecordSet} {id id' : Value} :
    firstOf (passed ++ [(set, id)]) id' =
      (firstOf passed id').or (if id = id' then some set else none) := by
  unfold firstOf
  rw [List.find?_append]
  cases passed.find? fun entry => entry.2 = id' with
  | some _ => rfl
  | none => by_cases h : id = id' <;> simp [h]

variable {passed left : List (RecordSet × Value)}

theorem firstOf_eq_none_iff : firstOf passed id = none ↔ ∀ a, (a, id) ∉ passed := by
  simp only [firstOf, Option.map_eq_none_iff, List.find?_eq_none, decide_eq_true_eq, Prod.forall]
  exact ⟨fun h a ha => h a id ha rfl, fun h a v ha e => h a (e ▸ ha)⟩

theorem mem_of_firstOf (h : firstOf passed id = some first) : (first, id) ∈ passed := by
  obtain ⟨entry, found, rfl⟩ := Option.map_eq_some_iff.mp h
  have same : entry.2 = id := by simpa using List.find?_some found
  exact same ▸ List.mem_of_find?_eq_some found

/-- The first entry of an identity is in the earliest list that has it. -/
theorem firstOf_earliest (e : p.entries field = passed ++ left)
    (h : firstOf passed id = some first) :
    ∀ a, id ∈ identities field (p.records a) → first.place ≤ a.place := by
  obtain ⟨entry, found, rfl⟩ := Option.map_eq_some_iff.mp h
  obtain ⟨-, before, after, rfl, missed⟩ := List.find?_eq_some_iff_append.mp found
  rw [List.append_assoc, List.cons_append] at e
  have order := e ▸ pairwise_entries p field
  intro a ha
  rcases List.mem_append.mp (e ▸ mem_entries.mpr ha) with h | h
  · simpa using missed _ h
  · rcases List.mem_cons.mp h with rfl | h
    · exact Nat.le_refl _
    · exact (List.pairwise_cons.mp (List.pairwise_append.mp order).2.1).1 _ h

/-- An entry comes behind all those of earlier lists. -/
theorem mem_passed {a : RecordSet} {v : Value}
    (e : p.entries field = passed ++ (set, id) :: left) (less : a.place < set.place)
    (ha : v ∈ identities field (p.records a)) : (a, v) ∈ passed := by
  have order := e ▸ pairwise_entries p field
  have least := (List.pairwise_cons.mp (List.pairwise_append.mp order).2.1).1
  rcases List.mem_append.mp (e ▸ mem_entries.mpr ha) with h | h
  · exact h
  · rcases List.mem_cons.mp h with h | h
    · cases h
      exact absurd less (Nat.lt_irrefl _)
    · exact absurd less (Nat.not_lt.mpr (least _ h))

/-- Before an entry, its identity is seen first in its own list or in the earliest that has it. -/
theorem filter_firstOf (e : p.entries field = passed ++ (set, id) :: left) :
    (firstOf passed id).filter (· ≠ set) = p.earlier? field set id := by
  cases h : firstOf passed id with
  | none =>
    exact (earlier?_eq_none_iff.mpr fun a less ha =>
      firstOf_eq_none_iff.mp h a (mem_passed e less ha)).symm
  | some first =>
    have earliest := firstOf_earliest e h
    have there : id ∈ identities field (p.records first) :=
      mem_entries.mp (e ▸ List.mem_append_left _ (mem_of_firstOf h))
    have here : id ∈ identities field (p.records set) :=
      mem_entries.mp (e ▸ List.mem_append_right _ List.mem_cons_self)
    by_cases same : first = set
    · rw [Option.filter_some_neg (by simp [same])]
      exact (earlier?_eq_none_iff.mpr fun a less ha =>
        Nat.not_lt.mpr (earliest a ha) (same ▸ less)).symm
    · rw [Option.filter_some_pos (by simp [same])]
      have other : first.place ≠ set.place := fun h => same (RecordSet.place_inj h)
      exact (earlier?_eq_some_iff.mpr
        ⟨Nat.lt_of_le_of_ne (earliest set here) other, there, earliest⟩).symm

/-- What a pass finds among the entries that are left. -/
theorem pass_eq_scan {seen : Std.TreeMap Value RecordSet Value.order}
    (e : p.entries field = passed ++ left) (known : ∀ id : Value, seen[id]? = firstOf passed id) :
    pass seen left = left.findSome? (p.clash? field) := by
  induction left generalizing passed seen with
  | nil => rfl
  | cons entry left ih =>
    obtain ⟨set, id⟩ := entry
    have e' : p.entries field = (passed ++ [(set, id)]) ++ left := by simpa using e
    have clash : p.clash? field (set, id) =
        ((firstOf passed id).filter (· ≠ set)).map fun first => ⟨id, first, set⟩ := by
      rw [filter_firstOf e]
      rfl
    rw [List.findSome?_cons, pass, known id]
    cases h : firstOf passed id with
    | none =>
      rw [h, Option.filter_none, Option.map_none] at clash
      rw [clash]
      refine ih e' fun v => ?_
      rw [firstOf_concat, Std.TreeMap.getElem?_insert, known v]
      simp only [Value.order_eq_iff]
      by_cases same : id = v
      · cases same
        simp [h]
      · simp [same]
    | some first =>
      by_cases same : first = set
      · cases same
        rw [h, Option.filter_some_neg (by simp), Option.map_none] at clash
        rw [clash]
        refine (if_pos rfl).trans (ih e' fun v => ?_)
        rw [firstOf_concat, known v]
        by_cases same : id = v
        · cases same
          simp [h]
        · simp [same]
      · rw [h, Option.filter_some_pos (by simp [same]), Option.map_some] at clash
        rw [clash]
        exact if_neg same

/-- **One pass** finds what is reported. -/
theorem overlap?_eq_pass : p.overlap? field = pass ∅ (p.entries field) := by
  rw [overlap?_eq_scan]
  exact (pass_eq_scan (List.nil_append _).symm fun _ => Std.TreeMap.getElem?_emptyc).symm

/-! ## Exactness -/

/-- **Whether something is reported** does not depend on the order of the lists and records. -/
theorem overlap?_regrouped {move : Equiv.Perm RecordSet}
    (same : ∀ set, (q.records (move set)).Perm (p.records set)) :
    q.overlap? field = none ↔ p.overlap? field = none := by
  have mem (set : RecordSet) (v : Value) : v ∈ identities field (q.records (move set)) ↔
      v ∈ identities field (p.records set) := ((same set).filterMap _).mem_iff
  rw [overlap?_eq_none_iff, overlap?_eq_none_iff]
  constructor
  · intro apart a b other v ha hb
    exact apart (move a) (move b) (move.injective.ne other) v ((mem a v).mpr ha) ((mem b v).mpr hb)
  · intro apart a b other v ha hb
    obtain ⟨a, rfl⟩ := move.surjective a
    obtain ⟨b, rfl⟩ := move.surjective b
    exact apart a b (fun e => other (congrArg move e)) v ((mem a v).mp ha) ((mem b v).mp hb)

/-- What is reported is right, and a pass reports it. -/
structure Exact (p : Payload) (field : String) : Prop where
  none_iff : p.overlap? field = none ↔ p.Apart field
  some_iff : ∀ o, p.overlap? field = some o ↔ p.Reported field o
  regrouped : ∀ (q : Payload) (move : Equiv.Perm RecordSet),
    (∀ set, (q.records (move set)).Perm (p.records set)) →
      (q.overlap? field = none ↔ p.overlap? field = none)
  one_pass : p.overlap? field = pass ∅ (p.entries field)

/-- **What is reported of a payload is right**, whatever it is and whatever field is asked for. -/
theorem overlap_exact (p : Payload) (field : String) : p.Exact field where
  none_iff := overlap?_eq_none_iff
  some_iff _ := overlap?_eq_some_iff
  regrouped _ _ := overlap?_regrouped
  one_pass := overlap?_eq_pass

end Payload

end ChangeRelay
