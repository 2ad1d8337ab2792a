import ChangeRelay.Result.Value
import Mathlib.Data.List.Basic

/-!
# The order of values

Values are ordered by kind first and then by what they hold. A value is placed among those of its
kind by a text or by a number, and where it has no text or no number, then neither has any other of
its kind; so the order of values is that of kinds, texts and numbers, one after the other.

* **`order_eq_lex`**: the order of values as the order of these three.
* It is thereby oriented and transitive, and only a value itself is equal to it, so that values can
  be the keys of a search tree.
-/

namespace ChangeRelay.Value

/-- The text by which a value is placed among those of its kind. -/
def text : Value → String
  | .string s => s
  | _ => ""

/-- The number by which a value is placed among those of its kind. -/
def number : Value → Int
  | .double d => d.rank
  | .integer i => i.toInt
  | .boolean b => b.toNat
  | _ => 0

/-- **The order of values** is that of their kinds, then of their texts, then of their numbers. -/
theorem order_eq_lex :
    order = compareLex (compareOn kind) (compareLex (compareOn text) (compareOn number)) := by
  funext a b
  cases a <;> cases b
  case string.string => simp [order, compareLex, compareOn, kind, text, number]
  case double.double => simp [order, Double.order, compareLex, compareOn, kind, text, number]
  case integer.integer => simp [order, compareLex, compareOn, kind, text, number]
  case boolean.boolean a b => cases a <;> cases b <;> rfl
  -- Values of different kinds are told apart by the kinds alone.
  all_goals rfl

instance : Std.TransCmp order :=
  order_eq_lex ▸ inferInstance

instance : Std.LawfulEqCmp order where
  compare_self := order_eq_iff.mpr rfl
  eq_of_compare := order_eq_iff.mp

end ChangeRelay.Value
