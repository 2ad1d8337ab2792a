import ChangeRelay.Proofs.Number.Order
import ChangeRelay.Proofs.Result.Order
import ChangeRelay.Proofs.Text.Order

/-!
# Sorting values

Values are in a total order in which only a value itself is equal to it. So a list of values has one
listing in order, which sorting finds whatever order the list was in.

* `order_swap`, `order_trans`: the order is oriented and transitive, within a kind and across kinds.
* `sort_unique`: a listing in order is the sorted list.
* **`order_lawful`**: the order is lawful and total, goes by kind and then by content, and sorting
  does not depend on the order that was there before.
-/

namespace ChangeRelay.Value

variable {a b c : Value} {vs ws : List Value}

/-! ## Laws -/

theorem order_swap (a b : Value) : order b a = (order a b).swap :=
  Std.OrientedCmp.eq_swap

theorem order_trans (hab : (order a b).isLE = true) (hbc : (order b c).isLE = true) :
    (order a c).isLE = true :=
  Std.TransCmp.isLE_trans hab hbc

theorem le_total (a b : Value) : (le a b || le b a) = true := by
  unfold le
  rw [order_swap a b]
  cases order a b <;> rfl

/-- Values that are not behind each other are the same. -/
theorem le_antisymm (hab : le a b = true) (hba : le b a = true) : a = b := by
  refine order_eq_iff.mp ?_
  unfold le at hab hba
  rw [order_swap a b] at hba
  cases h : order a b with
  | lt => rw [h] at hba; exact absurd hba (by decide)
  | eq => rfl
  | gt => rw [h] at hab; exact absurd hab (by decide)

/-- Kinds go before contents. -/
theorem order_of_kind_lt (h : a.kind < b.kind) : order a b = .lt := by
  rw [order_eq_lex, compareLex, compareOn, Nat.compare_eq_lt.mpr h]
  rfl

/-! ## Within a kind -/

theorem order_string_lt (s t : String) :
    order (.string s) (.string t) = .lt ↔ Text.bytes s < Text.bytes t := by
  have characters : order (.string s) (.string t) = .lt ↔ s < t := compareOfLessAndEq_eq_lt
  rw [characters, ← String.not_le, ← Text.bytes_le_bytes, List.not_le]

theorem order_double_lt (d e : Double) :
    order (.double d) (.double e) = .lt ↔ d.word.toInt < e.word.toInt := by
  rw [Double.toInt_word, Double.toInt_word]
  exact Int.compare_eq_lt

theorem order_integer_lt (i j : Int64) : order (.integer i) (.integer j) = .lt ↔ i < j := by
  rw [Int64.lt_iff_toInt_lt]
  exact Int.compare_eq_lt

theorem order_boolean_lt (p q : Bool) :
    order (.boolean p) (.boolean q) = .lt ↔ p = false ∧ q = true := by
  cases p <;> cases q <;> decide

/-! ## Sorting -/

theorem sort_perm (vs : List Value) : (sort vs).Perm vs :=
  List.mergeSort_perm vs le

theorem pairwise_sort (vs : List Value) : (sort vs).Pairwise fun a b => le a b = true :=
  List.pairwise_mergeSort (fun a b c => order_trans (a := a) (b := b) (c := c)) le_total vs

/-- **A listing in order** is the sorted list. -/
theorem sort_unique (same : ws.Perm vs) (inOrder : ws.Pairwise fun a b => le a b = true) :
    ws = sort vs :=
  (same.trans (sort_perm vs).symm).eq_of_pairwise (fun _ _ _ _ => le_antisymm) inOrder
    (pairwise_sort vs)

/-! ## All of it -/

/-- The order of values is lawful and total. -/
structure Lawful : Prop where
  swap : ∀ a b, order b a = (order a b).swap
  trans : ∀ a b c, (order a b).isLE = true → (order b c).isLE = true → (order a c).isLE = true
  lt_trans : ∀ a b c, order a b = .lt → order b c = .lt → order a c = .lt
  /-- Only the same content of the same kind is equal; a double, only with the same bits. -/
  eq_iff : ∀ a b, order a b = .eq ↔ a = b
  equivalence : Equivalence fun a b => order a b = .eq
  /-- Texts come before doubles, these before integers, these before truth values, these before
  nothing. -/
  kinds : ∀ a b, a.kind < b.kind → order a b = .lt
  /-- Texts go by their bytes, -/
  strings : ∀ s t, order (.string s) (.string t) = .lt ↔ Text.bytes s < Text.bytes t
  /-- doubles by their bits, with those below a set sign turned over, -/
  doubles : ∀ d e, order (.double d) (.double e) = .lt ↔ d.word.toInt < e.word.toInt
  /-- and so as numbers where they are numbers, -/
  numbers : ∀ d e : Double, d.below e = true → order (.double d) (.double e) = .lt
  /-- and integers and truth values by their size. -/
  integers : ∀ i j, order (.integer i) (.integer j) = .lt ↔ i < j
  booleans : ∀ p q, order (.boolean p) (.boolean q) = .lt ↔ p = false ∧ q = true
  sort_perm : ∀ vs, (sort vs).Perm vs
  sort_inOrder : ∀ vs, (sort vs).Pairwise fun a b => (order a b).isLE = true
  /-- Nothing else is a listing in order. -/
  sort_unique : ∀ vs ws, ws.Perm vs → (ws.Pairwise fun a b => (order a b).isLE = true) → ws = sort vs
  sort_congr : ∀ vs ws, ws.Perm vs → sort ws = sort vs

/-- **Values are lawfully and totally ordered**, and sorting does not depend on the order that was
there before. -/
theorem order_lawful : Lawful where
  swap := order_swap
  trans _ _ _ := order_trans
  lt_trans _ _ _ := Std.TransCmp.lt_trans
  eq_iff _ _ := order_eq_iff
  equivalence := by
    simp only [order_eq_iff]
    exact eq_equivalence
  kinds _ _ := order_of_kind_lt
  strings := order_string_lt
  doubles := order_double_lt
  numbers _ _ := Double.order_eq_lt_of_below
  integers := order_integer_lt
  booleans := order_boolean_lt
  sort_perm := sort_perm
  sort_inOrder := pairwise_sort
  sort_unique _ _ := sort_unique
  sort_congr vs ws same := sort_unique ((sort_perm ws).trans same) (pairwise_sort ws)

/-- NaNs are at both ends of the doubles, by their signs, and the zeros are apart. -/
example : sort [.null, .double ⟨0x7FF8000000000001⟩, .integer (-1), .double .zero,
      .double ⟨0xFFF8000000000000⟩, .string "b", .double ⟨0x8000000000000000⟩, .string "B"] =
    [.string "B", .string "b", .double ⟨0xFFF8000000000000⟩, .double ⟨0x8000000000000000⟩,
      .double .zero, .double ⟨0x7FF8000000000001⟩, .integer (-1), .null] :=
  (sort_unique (by decide) (by decide)).symm

end ChangeRelay.Value
