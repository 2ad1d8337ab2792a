/-!
# Tables

Finite maps that keep their entries in the order in which the keys came. A write under a known key
changes its value and not its place.

Tables stand for the hash maps of the source, such as `streams` of `DispatcherCore` and `entries`
of `DedupWindow`, of which nothing depends on the order.

* `get?_set`, `get?_erase`: a write or a removal is seen under its key and under no other.
* `keys_set`: a new key comes last.
* `ext_get?`: keys and look-ups make up a table.
-/

namespace ChangeRelay

universe u v w

/-- A finite map whose keys stand in the order in which they came. -/
structure Table (κ : Type u) (α : Type v) where
  entries : List (κ × α)
  nodup : (entries.map Prod.fst).Nodup

namespace Table

variable {κ : Type u} {α : Type v} {β : Type w}

@[ext] theorem ext {a b : Table κ α} (h : a.entries = b.entries) : a = b := by
  obtain ⟨_, _⟩ := a
  obtain ⟨_, _⟩ := b
  cases h
  rfl

/-- No entries. -/
def empty : Table κ α := ⟨[], .nil⟩

instance : Inhabited (Table κ α) := ⟨empty⟩

def keys (t : Table κ α) : List κ := t.entries.map Prod.fst

def size (t : Table κ α) : Nat := t.entries.length

/-- Every value changed by a function of its key and itself. -/
def map (f : κ → α → β) (t : Table κ α) : Table κ β :=
  ⟨t.entries.map fun p => (p.1, f p.1 p.2), by
    simpa [Function.comp_def] using t.nodup⟩

variable [DecidableEq κ]

instance [DecidableEq α] : DecidableEq (Table κ α) := fun a b =>
  decidable_of_iff (a.entries = b.entries) ⟨ext, fun h => h ▸ rfl⟩

/-- The value under a key. -/
def get? (t : Table κ α) (k : κ) : Option α := t.entries.lookup k

def contains (t : Table κ α) (k : κ) : Bool := (t.get? k).isSome

/-- Writes a value over the one under the key, or behind the others. -/
def put (k : κ) (x : α) : List (κ × α) → List (κ × α)
  | [] => [(k, x)]
  | p :: ps => if p.1 = k then (k, x) :: ps else p :: put k x ps

/-- Takes out the entry under a key. -/
def remove (k : κ) : List (κ × α) → List (κ × α)
  | [] => []
  | p :: ps => if p.1 = k then ps else p :: remove k ps

theorem keys_put (k : κ) (x : α) : ∀ ps : List (κ × α),
    (put k x ps).map Prod.fst =
      if k ∈ ps.map Prod.fst then ps.map Prod.fst else ps.map Prod.fst ++ [k]
  | [] => by simp [put]
  | p :: ps => by
    unfold put
    split
    · next h => simp [h]
    · next h =>
      have hk : ¬k = p.1 := fun e => h e.symm
      simp only [List.map_cons, keys_put k x ps, List.mem_cons, hk, false_or]
      split <;> simp

theorem keys_remove (k : κ) : ∀ ps : List (κ × α),
    (remove k ps).map Prod.fst = (ps.map Prod.fst).erase k
  | [] => rfl
  | p :: ps => by
    unfold remove
    split
    · next h => simp [h]
    · next h => simp [h, keys_remove k ps]

/-- Writes a value under a key. -/
def set (t : Table κ α) (k : κ) (x : α) : Table κ α :=
  ⟨put k x t.entries, by
    rw [keys_put]
    split
    · exact t.nodup
    · next h =>
      rw [List.nodup_append]
      refine ⟨t.nodup, by simp, fun a ha b hb => ?_⟩
      rintro rfl
      exact h (List.mem_singleton.mp hb ▸ ha)⟩

/-- Takes out the entry under a key, if there is one. -/
def erase (t : Table κ α) (k : κ) : Table κ α :=
  ⟨remove k t.entries, by
    rw [keys_remove]
    exact t.nodup.erase k⟩

/-- Changes the value under a key, if there is one. -/
def modify (t : Table κ α) (k : κ) (f : α → α) : Table κ α :=
  t.map fun k' x => if k' = k then f x else x

/-! ## Laws -/

@[simp] theorem get?_empty (k : κ) : (empty : Table κ α).get? k = none := rfl

theorem lookup_put (k : κ) (x : α) (k' : κ) : ∀ ps : List (κ × α),
    (put k x ps).lookup k' = if k' = k then some x else ps.lookup k'
  | [] => by
    by_cases h : k' = k
    · simp [put, h]
    · simp [put, List.lookup_cons, h, beq_false_of_ne h]
  | p :: ps => by
    unfold put
    split
    · next hp =>
      by_cases h : k' = k
      · simp [h]
      · rw [List.lookup_cons, List.lookup_cons, hp, beq_false_of_ne h, if_neg h]
    · next hp =>
      rw [List.lookup_cons, List.lookup_cons, lookup_put k x k' ps]
      by_cases h : k' = k
      · subst h
        simp [beq_false_of_ne (Ne.symm hp)]
      · simp [h]

/-- A write is seen under its key and under no other. -/
theorem get?_set (t : Table κ α) (k : κ) (x : α) (k' : κ) :
    (t.set k x).get? k' = if k' = k then some x else t.get? k' :=
  lookup_put k x k' t.entries

theorem get?_set_self (t : Table κ α) (k : κ) (x : α) : (t.set k x).get? k = some x :=
  (get?_set t k x k).trans (if_pos rfl)

@[simp] theorem contains_set_self (t : Table κ α) (k : κ) (x : α) :
    (t.set k x).contains k = true :=
  congrArg Option.isSome (get?_set_self t k x)

theorem lookup_eq_none_of_not_mem {k : κ} : ∀ {ps : List (κ × α)},
    k ∉ ps.map Prod.fst → ps.lookup k = none
  | [], _ => rfl
  | p :: ps, h => by
    have hp : k ≠ p.1 := fun e => h (by simp [e])
    rw [List.lookup_cons, beq_false_of_ne hp]
    exact lookup_eq_none_of_not_mem fun hk => h (by simp at hk ⊢; exact .inr hk)

theorem lookup_remove (k k' : κ) : ∀ {ps : List (κ × α)}, (ps.map Prod.fst).Nodup →
    (remove k ps).lookup k' = if k' = k then none else ps.lookup k'
  | [], _ => by simp [remove]
  | p :: ps, h => by
    have hp := List.nodup_cons.mp h
    unfold remove
    split
    · next e =>
      by_cases hk : k' = k
      · rw [if_pos hk, hk, ← e]
        exact lookup_eq_none_of_not_mem hp.1
      · rw [List.lookup_cons, e, beq_false_of_ne hk, if_neg hk]
    · next e =>
      rw [List.lookup_cons, List.lookup_cons, lookup_remove k k' hp.2]
      by_cases hk : k' = k
      · subst hk
        simp [beq_false_of_ne (Ne.symm e)]
      · simp [hk]

/-- A removal is seen under its key and under no other. -/
theorem get?_erase (t : Table κ α) (k k' : κ) :
    (t.erase k).get? k' = if k' = k then none else t.get? k' :=
  lookup_remove k k' t.nodup

theorem get?_erase_self (t : Table κ α) (k : κ) : (t.erase k).get? k = none :=
  (get?_erase t k k).trans (if_pos rfl)

theorem lookup_map (f : κ → α → β) (k : κ) : ∀ ps : List (κ × α),
    (ps.map fun p => (p.1, f p.1 p.2)).lookup k = (ps.lookup k).map (f k)
  | [] => rfl
  | p :: ps => by
    rw [List.map_cons, List.lookup_cons, List.lookup_cons, lookup_map f k ps]
    by_cases h : k = p.1
    · simp [h]
    · simp [beq_false_of_ne h]

@[simp] theorem get?_map (f : κ → α → β) (t : Table κ α) (k : κ) :
    (t.map f).get? k = (t.get? k).map (f k) :=
  lookup_map f k t.entries

/-- A change is seen under its key and under no other. -/
theorem get?_modify (t : Table κ α) (k : κ) (f : α → α) (k' : κ) :
    (t.modify k f).get? k' = if k' = k then (t.get? k').map f else t.get? k' := by
  rw [modify, get?_map]
  split <;> simp

theorem eq_of_lookup : ∀ {ps qs : List (κ × α)}, (ps.map Prod.fst).Nodup →
    ps.map Prod.fst = qs.map Prod.fst → (∀ k, ps.lookup k = qs.lookup k) → ps = qs
  | [], [], _, _, _ => rfl
  | p :: ps, q :: qs, nodup, keys, same => by
    obtain ⟨key, keys⟩ := List.cons.inj keys
    have hp := List.nodup_cons.mp nodup
    have value := same p.1
    rw [List.lookup_cons, List.lookup_cons, key, beq_self_eq_true] at value
    have head : p = q := Prod.ext key (Option.some.inj value)
    refine head ▸ congrArg (p :: ·) (eq_of_lookup hp.2 keys fun k => ?_)
    by_cases hk : k = p.1
    · rw [hk, lookup_eq_none_of_not_mem hp.1, lookup_eq_none_of_not_mem (keys ▸ hp.1)]
    · have := same k
      rwa [List.lookup_cons, List.lookup_cons, ← key, beq_false_of_ne hk] at this

/-- Tables with the same keys in the same order and the same look-ups are equal. -/
theorem ext_get? {a b : Table κ α} (keys : a.keys = b.keys) (same : ∀ k, a.get? k = b.get? k) :
    a = b :=
  ext (eq_of_lookup a.nodup keys same)

/-- A new key comes last and a known one keeps its place. -/
theorem keys_set (t : Table κ α) (k : κ) (x : α) :
    (t.set k x).keys = if k ∈ t.keys then t.keys else t.keys ++ [k] :=
  keys_put k x t.entries

omit [DecidableEq κ] in
@[simp] theorem keys_map (f : κ → α → β) (t : Table κ α) : (t.map f).keys = t.keys := by
  simp [keys, map, Function.comp_def]

@[simp] theorem keys_modify (t : Table κ α) (k : κ) (f : α → α) : (t.modify k f).keys = t.keys :=
  keys_map _ t

theorem mem_keys_iff (t : Table κ α) (k : κ) : k ∈ t.keys ↔ (t.get? k).isSome = true := by
  unfold keys get?
  induction t.entries with
  | nil => simp
  | cons p ps ih =>
    rw [List.map_cons, List.mem_cons, List.lookup_cons, ih]
    by_cases h : k = p.1
    · simp [h]
    · simp [h, beq_false_of_ne h]

/-- The last write under a key counts. -/
theorem set_set (t : Table κ α) (k : κ) (x y : α) : (t.set k x).set k y = t.set k y := by
  have known : k ∈ (t.set k x).keys := (mem_keys_iff _ k).mpr (by rw [get?_set, if_pos rfl]; rfl)
  refine ext_get? ?_ fun k' => ?_
  · rw [keys_set, if_pos known, keys_set, keys_set]
  · rw [get?_set, get?_set, get?_set]
    split <;> rfl

/-- Writing what is there changes nothing. -/
theorem set_of_get? {t : Table κ α} {k : κ} {x : α} (h : t.get? k = some x) : t.set k x = t := by
  have known : k ∈ t.keys := (mem_keys_iff t k).mpr (by rw [h]; rfl)
  refine ext_get? ?_ fun k' => ?_
  · rw [keys_set, if_pos known]
  · rw [get?_set]
    split
    · next hk => rw [hk, h]
    · rfl

/-- A change of a value is forgotten with the value. -/
theorem set_modify (t : Table κ α) (k : κ) (f : α → α) (x : α) :
    (t.modify k f).set k x = t.set k x := by
  refine ext_get? ?_ fun k' => ?_
  · rw [keys_set, keys_set, keys_modify]
  · rw [get?_set, get?_set, get?_modify]
    split <;> rfl

/-- A change of the value under a key that is known writes it. -/
theorem modify_eq_set {t : Table κ α} {k : κ} {x : α} (h : t.get? k = some x) (f : α → α) :
    t.modify k f = t.set k (f x) := by
  have known : k ∈ t.keys := (mem_keys_iff t k).mpr (by rw [h]; rfl)
  refine ext_get? ?_ fun k' => ?_
  · rw [keys_modify, keys_set, if_pos known]
  · rw [get?_modify, get?_set]
    split
    · next hk => rw [hk, h, Option.map_some]
    · rfl

end Table

end ChangeRelay
