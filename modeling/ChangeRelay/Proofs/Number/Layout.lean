import ChangeRelay.Number.Layout
import ChangeRelay.Number.Reading
import ChangeRelay.Proofs.Json.Numeral

/-!
# What numerals of doubles look like

The shortest decimal of a double has no digits that would be lost: only the decimal zero has no
digit other than zero, and then no exponent. So every layout gives a proper numeral, and a layout
that ends whole numbers in `.0` gives one with a point or an exponent. Such a numeral never stands
for an integer, whatever double it is read as.

* **`Double.isProper_numeral`**: the numeral of a double is one of the grammar.
* **`Double.number?_numeral`**: in JSON it stands for a double or for nothing.
-/

namespace ChangeRelay

/-! ## The search for the shortest decimal -/

/-- A decimal with digits that start with no zero, or zero itself. -/
def Decimal.Normal (d : Decimal) : Prop := d.digits = 0 → d.exponent = 0

theorem Decimal.digits_trim_ne_zero {n : Nat} (h : n ≠ 0) :
    ∀ (fuel : Nat) (e : Int), (trim fuel n e).digits ≠ 0 := by
  intro fuel
  induction fuel generalizing n with
  | zero => exact fun _ => h
  | succ fuel ih =>
    intro e
    unfold trim
    split
    · next full => exact ih (by omega) _
    · exact h

namespace Shortest

variable {tie : Tie} {i : Interval}

/-- The points of a grid are its positive multiples. -/
theorem onGrid_ne_zero {e : Int} {n : Nat} (h : onGrid tie i e = some n) : n ≠ 0 := by
  unfold onGrid at h
  extract_lets up down below above belowFits aboveFits toBelow toAbove at h
  have isAbove : above ≠ 0 := Nat.succ_ne_zero below
  have isBelow (fits : belowFits = true) : below ≠ 0 := by
    have positive := (Bool.and_eq_true_iff.mp fits).1
    exact Nat.ne_of_gt (of_decide_eq_true positive)
  split at h
  · next both =>
    have isBelow := isBelow (Bool.and_eq_true_iff.mp both).1
    -- whichever of the two is nearer, neither of them is zero
    repeat' split at h
    all_goals
      obtain rfl := Option.some.inj h
      assumption
  · split at h
    · next fits =>
      obtain rfl := Option.some.inj h
      exact isBelow fits
    · split at h
      · obtain rfl := Option.some.inj h
        exact isAbove
      · cases h

theorem digits_search {top : Int} {d : Decimal} : ∀ {fuel digits : Nat},
    search tie i top digits fuel = some d → d.digits ≠ 0
  | 0, _, h => by cases h
  | fuel + 1, digits, h => by
    rw [search] at h
    cases found : onGrid tie i (top - digits) with
    | none =>
      rw [found] at h
      exact digits_search h
    | some n =>
      rw [found] at h
      obtain rfl := Option.some.inj h
      exact Decimal.digits_trim_ne_zero (onGrid_ne_zero found) _ _

end Shortest

theorem Double.normal_shortest (tie : Shortest.Tie) (d : Double) : (d.shortest tie).Normal := by
  unfold shortest
  extract_lets i top
  cases found : Shortest.search tie i top 1 17 with
  | none => exact fun _ => rfl
  | some s => exact fun zero => absurd zero (Shortest.digits_search found)

/-! ## Layouts -/

namespace Decimal

variable {d : Decimal}

/-- The digits of a decimal start as those of a whole number do. -/
theorem Normal.digits (h : d.Normal) :
    ∃ a as, Digits.ofNat d.digits = a :: as ∧ (a = .zero → as = [] ∧ d.exponent = 0) := by
  by_cases zero : d.digits = 0
  · exact ⟨.zero, [], by rw [zero, Digits.ofNat_zero], fun _ => ⟨rfl, h zero⟩⟩
  · obtain ⟨a, as, digits, head⟩ := Digits.ofNat_head zero
    exact ⟨a, as, digits, fun e => absurd e head⟩

theorem isProper_positional (l : Layout) (negative : Bool) (h : d.Normal) :
    (d.positional l negative).IsProper := by
  obtain ⟨a, as, digits, head⟩ := h.digits
  unfold positional
  dsimp only
  rw [digits]
  split
  · refine ⟨⟨a, _, rfl, fun zero => ?_⟩, fun _ _ e => nomatch e⟩
    rw [(head zero).1, (head zero).2]
    rfl
  · next small =>
    split
    · next fits =>
      -- the point stands inside the digits, of which at least one is before it
      obtain ⟨k, before⟩ : ∃ k, (a :: as).length - (-d.exponent).toNat = k + 1 :=
        Nat.exists_eq_add_one.mpr (by omega)
      refine ⟨⟨a, as.take k, ?_, fun zero => ?_⟩, fun _ _ e => nomatch e⟩
      · simp only [before, List.take_succ_cons]
      · exact absurd (head zero).2 (by omega)
    · exact ⟨⟨.zero, [], rfl, fun _ => rfl⟩, fun _ _ e => nomatch e⟩

theorem isProper_scientific (l : Layout) (negative : Bool) :
    (d.scientific l negative).IsProper := by
  obtain ⟨a, as, digits⟩ := List.exists_cons_of_ne_nil (Digits.ofNat_ne_nil d.digits)
  unfold scientific
  rw [digits]
  refine ⟨⟨a, [], rfl, fun _ => rfl⟩, fun sign ds e => ?_⟩
  obtain ⟨-, rfl⟩ := Prod.mk.inj (Option.some.inj e)
  exact Digits.ofNat_ne_nil _

end Decimal

namespace Numeral

/-- A numeral with neither point nor exponent. -/
def IsWhole (n : Numeral) : Prop := n.fraction = [] ∧ n.exponent = none

/-- Any other numeral stands for no integer. -/
theorem number?_of_not_isWhole {n : Numeral} (h : ¬ n.IsWhole) :
    n.number? = n.double?.map .double := by
  unfold number?
  split
  next whole left _ =>
  exact if_neg fun all => h all.2

end Numeral

namespace Decimal

variable {d : Decimal}

theorem not_isWhole_positional {l : Layout} (negative : Bool) (point : l.pointZero = true) :
    ¬ (d.positional l negative).IsWhole := by
  have some := Digits.ofNat_ne_nil d.digits
  rintro ⟨fraction, -⟩
  unfold positional at fraction
  dsimp only at fraction
  split at fraction
  · simp [Layout.wholeFraction, point] at fraction
  · next small =>
    split at fraction
    · next fits =>
      have length := congrArg List.length fraction
      simp only [List.length_drop, List.length_nil] at length
      omega
    · exact some (List.append_eq_nil_iff.mp fraction).2

theorem not_isWhole_scientific (l : Layout) (negative : Bool) :
    ¬ (d.scientific l negative).IsWhole :=
  fun h => nomatch h.2

end Decimal

namespace Double

variable {l : Layout}

/-- **The numeral of a double is one of the grammar**, in every layout. -/
theorem isProper_numeral (l : Layout) (d : Double) : (d.numeral l).IsProper := by
  unfold numeral
  dsimp only
  split
  · exact ⟨⟨.zero, [], rfl, fun _ => rfl⟩, fun _ _ e => nomatch e⟩
  · split
    · exact Decimal.isProper_positional l _ (normal_shortest _ d)
    · exact Decimal.isProper_scientific l _

theorem not_isWhole_numeral (point : l.pointZero = true) (d : Double) :
    ¬ (d.numeral l).IsWhole := by
  unfold numeral
  dsimp only
  split
  · rintro ⟨fraction, -⟩
    simp [Layout.wholeFraction, point] at fraction
  · split
    · exact Decimal.not_isWhole_positional _ point
    · exact Decimal.not_isWhole_scientific l _

/-- **In JSON the numeral of a double stands for no integer**, even if the double is a whole
number. -/
theorem number?_numeral (d : Double) :
    (d.numeral .json).number? = (d.numeral .json).double?.map .double :=
  Numeral.number?_of_not_isWhole (not_isWhole_numeral rfl d)

end Double

end ChangeRelay
