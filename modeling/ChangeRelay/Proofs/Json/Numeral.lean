import ChangeRelay.Json.Reader

/-!
# Numerals in a text

Numerals as they stand in a JSON text, with more text behind them: a numeral ends where no numeral
goes on. `Numeral.IsProper` says which numerals the grammar has.

* **`numeral_bytes`**: a proper numeral is read back, with what follows it, whichever letter stands
  before its exponent.
-/

namespace ChangeRelay

/-- A numeral of the grammar: there are digits before the point, the first of several is not a zero,
and an exponent has digits. -/
structure Numeral.IsProper (n : Numeral) : Prop where
  whole : ∃ d ds, n.whole = d :: ds ∧ (d = .zero → ds = [])
  exponent : ∀ sign ds, n.exponent = some (sign, ds) → ds ≠ []

theorem Numeral.isProper_ofInt (i : Int) : (Numeral.ofInt i).IsProper where
  whole := by
    by_cases zero : i.natAbs = 0
    · refine ⟨.zero, [], ?_, fun _ => rfl⟩
      rw [Numeral.ofInt, zero]
      exact Digits.ofNat_zero
    · obtain ⟨d, ds, digits, head⟩ := Digits.ofNat_head zero
      exact ⟨d, ds, digits, fun e => absurd e head⟩
  exponent := by
    intro sign ds h
    cases h

namespace Json.Reader

variable {rest : List UInt8} {n : Numeral}

/-! ## Digits -/

/-- Digits as they are written. -/
def digitBytes (ds : Digits) : List UInt8 := ds.map fun d => UInt8.ofNat (48 + d.val)

theorem flatMap_chars (ds : Digits) :
    (Digits.chars ds).flatMap String.utf8EncodeChar = digitBytes ds := by
  have one : ∀ d : Digit, String.utf8EncodeChar (Digits.char d) = [UInt8.ofNat (48 + d.val)] := by
    decide
  induction ds with
  | nil => rfl
  | cons d ds ih =>
    rw [Digits.chars, List.map_cons, List.flatMap_cons, one]
    exact congrArg _ ih

theorem isDigit_digit : ∀ d : Digit, isDigit (UInt8.ofNat (48 + d.val)) = true := by decide

theorem ofNat_digit : ∀ d : Digit, Digit.ofNat ((UInt8.ofNat (48 + d.val)).toNat - 48) = d := by
  decide

/-- A digit does not come next. -/
def NoDigit (rest : List UInt8) : Prop := ∀ b ∈ rest.head?, isDigit b = false

theorem digitsAfter_digitBytes (h : NoDigit rest) (ds done : Digits) :
    digitsAfter done (digitBytes ds ++ rest) = (done.reverse ++ ds, rest) := by
  induction ds generalizing done with
  | nil =>
    cases rest with
    | nil => simp [digitBytes, digitsAfter]
    | cons b bs =>
      have other : isDigit b = false := h b rfl
      simp [digitBytes, digitsAfter, other]
  | cons d ds ih =>
    show digitsAfter done (UInt8.ofNat (48 + d.val) :: (digitBytes ds ++ rest)) = _
    rw [digitsAfter, if_pos (isDigit_digit d), ofNat_digit, ih, List.reverse_cons,
      List.append_assoc]
    rfl

theorem digits_digitBytes (h : NoDigit rest) (ds : Digits) :
    digits (digitBytes ds ++ rest) = (ds, rest) :=
  digitsAfter_digitBytes h ds []

/-! ## Numerals -/

/-- No numeral goes on with these bytes. -/
def Apart (rest : List UInt8) : Prop :=
  ∀ b ∈ rest.head?, isDigit b = false ∧ b ≠ 0x2E ∧ b ≠ 0x65 ∧ b ≠ 0x45

theorem Apart.noDigit (h : Apart rest) : NoDigit rest := fun b hb => (h b hb).1

theorem apart_nil : Apart [] := by
  intro b hb
  cases hb

theorem apart_cons {b : UInt8} (h : isDigit b = false ∧ b ≠ 0x2E ∧ b ≠ 0x65 ∧ b ≠ 0x45) :
    Apart (b :: rest) := by
  intro b' hb
  obtain rfl := Option.some.inj hb
  exact h

/-- The sign of an exponent as it is written. -/
def signBytes : ExponentSign → List UInt8
  | .unsigned => []
  | .plus => [0x2B]
  | .minus => [0x2D]

/-- An exponent as it is written, behind a letter. -/
def exponentBytes (letter : UInt8) : Option (ExponentSign × Digits) → List UInt8
  | none => []
  | some (sign, ds) => letter :: (signBytes sign ++ digitBytes ds)

/-- The digits behind a point as they are written. -/
def fractionBytes (ds : Digits) : List UInt8 := if ds.isEmpty then [] else 0x2E :: digitBytes ds

/-- A numeral as it is written, with this letter before its exponent. -/
def numeralBytes (letter : UInt8) (n : Numeral) : List UInt8 :=
  (if n.negative then [0x2D] else []) ++ digitBytes n.whole ++ fractionBytes n.fraction ++
    exponentBytes letter n.exponent

theorem flatMap_exponentChars (e? : Option (ExponentSign × Digits)) :
    (Numeral.exponentChars e?).flatMap String.utf8EncodeChar = exponentBytes 0x65 e? := by
  rcases e? with _ | ⟨sign, ds⟩
  · rfl
  · rw [exponentBytes, ← flatMap_chars]
    cases sign <;> rfl

theorem bytes_numeral (n : Numeral) : Text.bytes n.text = numeralBytes 0x65 n := by
  unfold Numeral.text Numeral.chars numeralBytes fractionBytes
  rw [Text.bytes_ofList, List.flatMap_append, List.flatMap_append, List.flatMap_append,
    flatMap_chars, flatMap_exponentChars]
  congr 2
  · cases n.negative <;> rfl
  · cases n.fraction with
    | nil => rfl
    | cons d ds =>
      rw [List.isEmpty_cons, if_neg Bool.false_ne_true, if_neg Bool.false_ne_true,
        List.flatMap_cons, flatMap_chars]
      rfl

theorem exponentSign_signBytes (sign : ExponentSign) {ds : Digits} (some : ds ≠ [])
    (rest : List UInt8) :
    exponentSign (signBytes sign ++ (digitBytes ds ++ rest)) = (sign, digitBytes ds ++ rest) := by
  cases sign with
  | plus => rfl
  | minus => rfl
  | unsigned =>
    have other : ∀ d : Digit, UInt8.ofNat (48 + d.val) ≠ 0x2B ∧ UInt8.ofNat (48 + d.val) ≠ 0x2D := by
      decide
    obtain ⟨d, ds, rfl⟩ := List.exists_cons_of_ne_nil some
    show exponentSign (digitBytes (d :: ds) ++ rest) = _
    unfold exponentSign
    split
    · next h => exact absurd (List.cons.inj h).1 (other d).1
    · next h => exact absurd (List.cons.inj h).1 (other d).2
    · rfl

variable {letter : UInt8}

theorem exponent_exponentBytes {e? : Option (ExponentSign × Digits)}
    (isE : letter = 0x65 ∨ letter = 0x45) (apart : Apart rest)
    (some : ∀ sign ds, e? = some (sign, ds) → ds ≠ []) :
    exponent (exponentBytes letter e? ++ rest) = .some (e?, rest) := by
  rcases e? with _ | ⟨sign, ds⟩
  · show exponent rest = _
    cases rest with
    | nil => rfl
    | cons b bs =>
      obtain ⟨-, -, small, large⟩ := apart b rfl
      simp [exponent, small, large]
  · have digits : ds ≠ [] := some sign ds rfl
    have known : (letter == 0x65 || letter == 0x45) = true := by
      rcases isE with rfl | rfl <;> decide
    rw [exponentBytes, List.cons_append, List.append_assoc, exponent, if_pos known,
      exponentSign_signBytes sign digits]
    simp [digits_digitBytes apart.noDigit ds, digits]

theorem fraction_fractionBytes (ds : Digits) (h : ∀ b ∈ rest.head?, isDigit b = false ∧ b ≠ 0x2E) :
    fraction (fractionBytes ds ++ rest) = some (ds, rest) := by
  cases ds with
  | nil =>
    show fraction rest = _
    unfold fraction
    split
    · next bs => exact absurd rfl (h 0x2E rfl).2
    · rfl
  | cons d ds =>
    have noDigit : ∀ b ∈ rest.head?, isDigit b = false := fun b hb => (h b hb).1
    have read := digits_digitBytes noDigit (d :: ds)
    show fraction (0x2E :: (digitBytes (d :: ds) ++ rest)) = _
    simp [fraction, read]

/-- Neither an exponent nor what follows it goes on with the digits before. -/
theorem head_exponentBytes (e? : Option (ExponentSign × Digits))
    (isE : letter = 0x65 ∨ letter = 0x45) (apart : Apart rest) :
    ∀ b ∈ (exponentBytes letter e? ++ rest).head?, isDigit b = false ∧ b ≠ 0x2E := by
  intro b hb
  rcases e? with _ | ⟨sign, ds⟩
  · exact ⟨(apart b hb).1, (apart b hb).2.1⟩
  · obtain rfl : letter = b := Option.some.inj hb
    rcases isE with rfl | rfl <;> decide

theorem noDigit_fractionBytes (ds : Digits) (noDigit : NoDigit rest) :
    NoDigit (fractionBytes ds ++ rest) := by
  intro b hb
  cases ds with
  | nil => exact noDigit b hb
  | cons d ds =>
    obtain rfl : 0x2E = b := Option.some.inj hb
    decide

/-- **A proper numeral is read back**, if none goes on behind it. -/
theorem numeral_bytes (p : n.IsProper) (isE : letter = 0x65 ∨ letter = 0x45) (apart : Apart rest) :
    numeral (numeralBytes letter n ++ rest) = some (n, rest) := by
  obtain ⟨negative, whole, fraction, e?⟩ := n
  obtain ⟨⟨d, ds, rfl, zero⟩, digits⟩ := p
  let behind := exponentBytes letter e? ++ rest
  have head := head_exponentBytes e? isE apart
  have noDigit : NoDigit (fractionBytes fraction ++ behind) :=
    noDigit_fractionBytes fraction fun b hb => (head b hb).1
  have unsigned : unsignedNumeral negative
      (digitBytes (d :: ds) ++ (fractionBytes fraction ++ behind)) =
        some (⟨negative, d :: ds, fraction, e?⟩, rest) := by
    have noZero : ¬(d = .zero ∧ ds ≠ []) := fun h => h.2 (zero h.1)
    unfold unsignedNumeral
    rw [digits_digitBytes noDigit]
    simp only [if_neg noZero]
    rw [fraction_fractionBytes fraction head]
    show (exponent behind).bind _ = _
    rw [exponent_exponentBytes isE apart digits]
    rfl
  rw [numeralBytes]
  simp only [List.append_assoc]
  cases negative with
  | true => exact unsigned
  | false =>
    have plain : ∀ d : Digit, UInt8.ofNat (48 + d.val) ≠ 0x2D := by decide
    show numeral (digitBytes (d :: ds) ++ (fractionBytes fraction ++ behind)) = _
    unfold numeral
    split
    · next h => exact absurd (List.cons.inj h).1 (plain d)
    · exact unsigned

end Json.Reader

end ChangeRelay
