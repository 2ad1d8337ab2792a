import ChangeRelay.Number.Layout
import ChangeRelay.Text.Quoted

/-!
# Values

A field of a query's result holds a text, a number, a truth value or nothing. Values are in a total
order: first by kind, in the order of the constructors, then by what they hold; doubles by the
total order of all bit patterns.

Model of `Value`, with `rank` (`kind`) and `cmp` (`order`).

* `order_eq_iff`: values compare as equal only when they are the same.
-/

namespace ChangeRelay

/-- What a field of a record holds. -/
inductive Value
  | string (s : String)
  | double (d : Double)
  | integer (i : Int64)
  | boolean (b : Bool)
  | null
deriving DecidableEq, Repr, Inhabited

namespace Value

/-- The place of a value's kind among the kinds. -/
def kind : Value → Nat
  | .string _ => 0
  | .double _ => 1
  | .integer _ => 2
  | .boolean _ => 3
  | .null => 4

/-- The order of values: by kind, then by content. -/
def order : Value → Value → Ordering
  | .string a, .string b => compare a b
  | .double a, .double b => Double.order a b
  | .integer a, .integer b => compare a.toInt b.toInt
  | .boolean a, .boolean b => compare a.toNat b.toNat
  | a, b => compare a.kind b.kind

/-- Whether `a` is not behind `b`. -/
def le (a b : Value) : Bool := (order a b).isLE

/-- Values in order; equal ones stay as they were. -/
def sort (vs : List Value) : List Value := vs.mergeSort le

def isNull : Value → Bool
  | .null => true
  | _ => false

/-- The text that a value holds, if it holds one. -/
def text? : Value → Option String
  | .string s => some s
  | _ => none

def word (b : Bool) : String := if b then "true" else "false"

/-- A value in a message: texts quoted, doubles without exponents. -/
def display : Value → String
  | .string s => Text.quote s
  | .double d => d.text .plain
  | .integer i => decimal i.toInt
  | .boolean b => word b
  | .null => "null"

/-- A value with its kind, for inspection. -/
def inspect : Value → String
  | .string s => "String(" ++ Text.quote s ++ ")"
  | .double d => "Double(" ++ d.text .inspected ++ ")"
  | .integer i => "Integer(" ++ decimal i.toInt ++ ")"
  | .boolean b => "Boolean(" ++ word b ++ ")"
  | .null => "Null"

/-! ## Laws of the order -/

/-- Values compare as equal only when they are the same. -/
theorem order_eq_iff {a b : Value} : order a b = .eq ↔ a = b := by
  constructor
  · intro h
    cases a <;> cases b <;>
      simp only [order, kind, Double.order_eq_iff, Std.LawfulEqOrd.compare_eq_iff_eq,
        reduceCtorEq, Nat.reduceEqDiff, Nat.zero_ne_one] at h
    · exact congrArg _ h
    · exact congrArg _ h
    · exact congrArg _ (Int64.toInt_inj.mp h)
    · next a b => cases a <;> cases b <;> simp_all
    · rfl
  · rintro rfl
    cases a <;> simp [order, kind, Double.order_eq_iff]

end Value

end ChangeRelay
