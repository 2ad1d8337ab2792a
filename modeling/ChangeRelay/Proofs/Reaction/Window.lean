import ChangeRelay.Reaction.Window
import Mathlib.Data.List.Nodup

/-!
# What a window remembers

The laws of the three operations on a window, said by what is known of an id afterwards. A window
forgets by dropping from the front, so it remembers the latest ids that were applied; `latest` is
what remains of a list then.

* **`seen?_complete`**: what is known after one more id was applied.
* `latest_concat`: to keep the latest of the latest is to keep the latest.
-/

namespace ChangeRelay.Reaction

/-- The last `n` of a list. -/
def latest {α : Type} (n : Nat) (xs : List α) : List α := xs.drop (xs.length - n)

section Latest

variable {α : Type} {n : Nat} {xs : List α}

theorem latest_sublist (n : Nat) (xs : List α) : (latest n xs).Sublist xs := List.drop_sublist _ _

theorem length_latest (n : Nat) (xs : List α) : (latest n xs).length = min n xs.length := by
  unfold latest
  rw [List.length_drop]
  omega

theorem latest_concat (n : Nat) (xs : List α) (x : α) :
    latest n (latest n xs ++ [x]) = latest n (xs ++ [x]) := by
  unfold latest
  simp only [List.length_append, List.length_drop, List.length_singleton]
  by_cases h : xs.length ≤ n
  · rw [Nat.sub_eq_zero_of_le h, List.drop_zero, Nat.sub_zero]
  · have hd : xs.length - (xs.length - n) + 1 - n = 1 := by omega
    have hx : xs.length + 1 - n = xs.length - n + 1 := by omega
    have inner : (xs ++ [x]).drop (xs.length - n) = xs.drop (xs.length - n) ++ [x] :=
      List.drop_append_of_le_length (Nat.sub_le _ _)
    rw [hd, hx, ← inner, List.drop_drop]

/-- What stands far enough from the end is not among the latest, and then they all come later. -/
theorem latest_append (xs ys : List α) (h : n ≤ ys.length) : latest n (xs ++ ys) = latest n ys := by
  unfold latest
  have : (xs ++ ys).length - n = xs.length + (ys.length - n) := by
    rw [List.length_append]
    omega
  rw [this, List.drop_append, List.drop_eq_nil_of_le (by omega), List.nil_append]
  congr 1
  omega

theorem mem_latest_append_cons {x : α} {ys : List α} (h : ys.length < n) :
    x ∈ latest n (xs ++ x :: ys) := by
  unfold latest
  rw [List.drop_append, List.length_append, List.length_cons]
  refine List.mem_append_right _ ?_
  rw [show xs.length + (ys.length + 1) - n - xs.length = 0 by omega]
  exact List.mem_cons_self

end Latest

namespace Window

variable {w : Window} {x y : String}

@[simp] theorem seen?_empty (x : String) : Window.empty.seen? x = none := rfl

theorem seen?_begin (w : Window) (x : String) (owner : CallId) (y : String) :
    (w.begin x owner).seen? y = if y = x then some (.inFlight owner) else w.seen? y :=
  Table.get?_set _ _ _ _

theorem seen?_abandon {owner : CallId} (h : w.seen? x = some (.inFlight owner)) (y : String) :
    (w.abandon x).seen? y = if y = x then none else w.seen? y := by
  unfold seen? at h
  simp only [abandon, h, seen?, Table.get?_erase]

theorem completed_abandon (w : Window) (x : String) : (w.abandon x).completed = w.completed := by
  unfold abandon
  split <;> rfl

theorem get?_foldl_erase {α : Type} (ks : List String) (t : Table String α) (k : String) :
    (ks.foldl Table.erase t).get? k = if k ∈ ks then none else t.get? k := by
  induction ks generalizing t with
  | nil => simp
  | cons k' ks ih =>
    rw [List.foldl_cons, ih, Table.get?_erase]
    by_cases hk : k ∈ ks
    · simp [hk]
    · by_cases e : k = k'
      · simp [e]
      · simp [hk, e]

theorem completed_complete (w : Window) (capacity : Nat) (x : String) (reply : InvocationReply) :
    (w.complete capacity x reply).completed = latest capacity (w.completed ++ [x]) := rfl

/-- **What is known after one more id was applied**: of those remembered before, the ones past the
capacity are forgotten. -/
theorem seen?_complete {capacity : Nat} (pos : 0 < capacity) (nodup : w.completed.Nodup)
    (new : x ∉ w.completed) (reply : InvocationReply) (y : String) :
    (w.complete capacity x reply).seen? y =
      if y = x then some (.done reply)
      else if y ∈ w.completed ∧ y ∉ latest capacity (w.completed ++ [x]) then none
      else w.seen? y := by
  have all : (w.completed ++ [x]).Nodup := by
    rw [List.nodup_append]
    refine ⟨nodup, by simp, fun a ha b hb => ?_⟩
    rintro rfl
    exact new (List.mem_singleton.mp hb ▸ ha)
  -- The forgotten ids are those of `w.completed ++ [x]` that are not among the latest.
  have forgotten : ∀ z, z ∈ (w.completed ++ [x]).take ((w.completed ++ [x]).length - capacity) ↔
      z ∈ w.completed ++ [x] ∧ z ∉ latest capacity (w.completed ++ [x]) := by
    intro z
    constructor
    · intro hz
      exact ⟨List.mem_of_mem_take hz, fun hl =>
        List.disjoint_take_drop all (Nat.le_refl _) hz hl⟩
    · rintro ⟨hz, hl⟩
      rw [← List.take_append_drop ((w.completed ++ [x]).length - capacity) (w.completed ++ [x]),
        List.mem_append] at hz
      exact hz.resolve_right hl
  have kept : x ∈ latest capacity (w.completed ++ [x]) := mem_latest_append_cons pos
  unfold complete seen?
  simp only [get?_foldl_erase, forgotten, Table.get?_set]
  by_cases hy : y = x
  · subst hy
    simp [kept]
  · simp [hy]

end Window

end ChangeRelay.Reaction
