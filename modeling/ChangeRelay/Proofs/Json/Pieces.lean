import ChangeRelay.Json.Printer
import ChangeRelay.Json.Reader

/-!
# Strings in a text

A string is a list of pieces between quotes: bytes that stand for themselves, short escapes, and
units of 16 bits in hexadecimal digits, two of which may be halves of one character. It ends at its
quote, so anything may follow it.

* **`string?_quoted`**: a string is read as what its pieces spell.
* **`exists_pieces`**: a text is written in pieces that spell it.
-/

namespace ChangeRelay.Json.Reader

variable {rest : List UInt8}

/-! ## Pieces -/

/-- What stands for itself in a string. -/
def IsPlain (b : UInt8) : Prop := b ≠ 0x22 ∧ b ≠ 0x5C ∧ 0x20 ≤ b

/-- What a string is made of between its quotes. -/
inductive Piece
  | byte (b : UInt8) (plain : IsPlain b)
  /-- A backslash and the letter for a character. -/
  | short (letter c : UInt8) (known : shortEscape? letter = some c)
  /-- A backslash and a unit of 16 bits in hexadecimal digits. -/
  | unit (digits : List UInt8) (n : Nat) (hex : unit? digits = some (n, []))

namespace Piece

def bytes : Piece → List UInt8
  | .byte b _ => [b]
  | .short letter _ _ => [0x5C, letter]
  | .unit digits _ _ => 0x5C :: 0x75 :: digits

/-- The first half of a surrogate pair. -/
def IsHigh (n : Nat) : Prop := 0xD800 ≤ n ∧ n < 0xDC00

/-- The second half of a surrogate pair. -/
def IsLow (n : Nat) : Prop := 0xDC00 ≤ n ∧ n < 0xE000

instance (n : Nat) : Decidable (IsHigh n) := inferInstanceAs (Decidable (_ ∧ _))
instance (n : Nat) : Decidable (IsLow n) := inferInstanceAs (Decidable (_ ∧ _))

/-- The character of a surrogate pair. -/
def pair (high low : Nat) : Char := Char.ofNat (0x10000 + (high - 0xD800) * 1024 + (low - 0xDC00))

/-- The bytes that pieces spell; half a pair that stands alone spells nothing. -/
def spell : List Piece → Option (List UInt8)
  | [] => some []
  | .byte b _ :: ps => (spell ps).map (b :: ·)
  | .short _ c _ :: ps => (spell ps).map (c :: ·)
  | .unit _ high _ :: .unit digits low hex :: ps =>
    if IsHigh high then
      if IsLow low then (spell ps).map (String.utf8EncodeChar (pair high low) ++ ·) else none
    else if IsLow high then none
    else (spell (.unit digits low hex :: ps)).map (String.utf8EncodeChar (Char.ofNat high) ++ ·)
  | .unit _ n _ :: ps =>
    if IsHigh n ∨ IsLow n then none
    else (spell ps).map (String.utf8EncodeChar (Char.ofNat n) ++ ·)

/-- The text that pieces spell, if they spell one. -/
def spelled? (ps : List Piece) : Option String := (spell ps).bind Text.ofBytes?

/-- Pieces between quotes. -/
def quoted (ps : List Piece) : List UInt8 := 0x22 :: (ps.flatMap bytes ++ [0x22])

end Piece

open Piece

/-! ## Strings are read -/

theorem stringAfter_byte {b : UInt8} (h : IsPlain b) (done : List UInt8) (spelled : Bool)
    (bs : List UInt8) : stringAfter done spelled (b :: bs) = stringAfter (b :: done) spelled bs := by
  rw [stringAfter, if_neg (by simpa using h.1), if_neg (by simpa using h.2.1),
    if_neg (UInt8.not_lt.mpr h.2.2)]

theorem stringAfter_escape {c : Option (List UInt8)} {bs : List UInt8} (done : List UInt8)
    (spelled : Bool) (h : escape? bs = some (c, rest)) : stringAfter done spelled (0x5C :: bs) =
      match c with
      | some c => stringAfter (c.reverse ++ done) spelled rest
      | none => stringAfter done false rest := by
  rw [stringAfter, if_neg (by decide), if_pos (by decide)]
  split
  · next h' => exact absurd (h.symm.trans h') (by simp)
  · next c' rest' h' =>
    obtain ⟨rfl, rfl⟩ : c = some c' ∧ rest = rest' := by simpa using h.symm.trans h'
    rfl
  · next rest' h' =>
    obtain ⟨rfl, rfl⟩ : c = none ∧ rest = rest' := by simpa using h.symm.trans h'
    rfl

theorem stringAfter_quote (done : List UInt8) (spelled : Bool) (bs : List UInt8) :
    stringAfter done spelled (0x22 :: bs) =
      some (if spelled then Text.ofBytes? done.reverse else none, bs) := by
  rw [stringAfter, if_pos (by decide)]

theorem unit?_append {ds : List UInt8} {k : Nat} (hex : unit? ds = some (k, [])) (bs : List UInt8) :
    unit? (ds ++ bs) = some (k, bs) := by
  unfold unit? at hex
  split at hex
  · next a b c d r =>
    simp only [Option.bind_eq_bind, Option.bind_eq_some_iff, Option.pure_def, Option.some.injEq,
      Prod.mk.injEq] at hex
    obtain ⟨a', ha, b', hb, c', hc, d', hd, value, rfl⟩ := hex
    simp [unit?, ha, hb, hc, hd, value]
  · simp at hex

theorem escape?_unit {ds : List UInt8} {k : Nat} (hex : unit? ds = some (k, [])) (bs : List UInt8) :
    escape? (0x75 :: (ds ++ bs)) = some (unicodeEscape k bs) := by
  rw [escape?, if_pos (by decide), unit?_append hex]
  rfl

theorem lowHalf?_unit {ds : List UInt8} {k : Nat} (hex : unit? ds = some (k, []))
    (bs : List UInt8) : lowHalf? (0x5C :: 0x75 :: (ds ++ bs)) =
      if IsLow k then some (k, bs) else none := by
  rw [lowHalf?, unit?_append hex]
  rfl

theorem lowHalf?_eq_none {bs : List UInt8} (h : ∀ r, bs ≠ 0x5C :: 0x75 :: r) :
    lowHalf? bs = none := by
  unfold lowHalf?
  split
  · next r => exact absurd rfl (h r)
  · rfl

theorem unicodeEscape_eq (k : Nat) (bs : List UInt8) : unicodeEscape k bs =
    if IsHigh k then
      match lowHalf? bs with
      | some (low, r) => (some (String.utf8EncodeChar (pair k low)), r)
      | none => (none, bs)
    else if IsLow k then (none, bs)
    else (some (String.utf8EncodeChar (Char.ofNat k)), bs) := rfl

/-- What a string comes to when `done` has been read of it, in reverse, and `rest` is what is left of
it. -/
def ending (done : List UInt8) (spelled : Bool) (rest : Option (List UInt8)) : Option String :=
  if spelled then rest.bind fun bs => Text.ofBytes? (done.reverse ++ bs) else none

theorem ending_none (done : List UInt8) (spelled : Bool) : ending done spelled none = none := by
  cases spelled <;> rfl

theorem ending_append (c done : List UInt8) (spelled : Bool) (rest : Option (List UInt8)) :
    ending (c.reverse ++ done) spelled rest = ending done spelled (rest.map (c ++ ·)) := by
  cases spelled with
  | false => rfl
  | true => cases rest <;> simp [ending]

theorem spell_unit {ds : List UInt8} {k : Nat} {hex : unit? ds = some (k, [])} (high : ¬IsHigh k)
    (ps : List Piece) : spell (.unit ds k hex :: ps) =
      if IsLow k then none else (spell ps).map (String.utf8EncodeChar (Char.ofNat k) ++ ·) := by
  cases ps with
  | nil => simp [spell, high]
  | cons p ps => cases p <;> simp [spell, high]

theorem ne_unit {letter c : UInt8} (known : shortEscape? letter = some c) : letter ≠ 0x75 := by
  rintro rfl
  have unknown : shortEscape? 0x75 = none := by decide
  exact nomatch unknown.symm.trans known

/-- Behind the first half of a pair comes the second, or else it stands alone. -/
theorem second_or_alone {ds : List UInt8} {k : Nat} (hex : unit? ds = some (k, []))
    (high : IsHigh k) (ps : List Piece) :
    (∃ low qs, qs.length < ps.length ∧
        lowHalf? (ps.flatMap bytes ++ 0x22 :: rest) = some (low, qs.flatMap bytes ++ 0x22 :: rest) ∧
        spell (.unit ds k hex :: ps) =
          (spell qs).map (String.utf8EncodeChar (pair k low) ++ ·)) ∨
      (lowHalf? (ps.flatMap bytes ++ 0x22 :: rest) = none ∧
        spell (.unit ds k hex :: ps) = none) := by
  cases ps with
  | nil => exact .inr ⟨lowHalf?_eq_none (by simp), by simp [spell, high]⟩
  | cons p ps =>
    cases p with
    | byte b plain =>
      exact .inr ⟨lowHalf?_eq_none fun r h => plain.2.1 (List.cons.inj h).1, by simp [spell, high]⟩
    | short letter c known =>
      have noUnit : ∀ r, 0x5C :: letter :: (ps.flatMap bytes ++ 0x22 :: rest) ≠
          0x5C :: 0x75 :: r :=
        fun r h => ne_unit known (List.cons.inj (List.cons.inj h).2).1
      exact .inr ⟨lowHalf?_eq_none noUnit, by simp [spell, high]⟩
    | unit ds' low hex' =>
      have next := lowHalf?_unit hex' (ps.flatMap bytes ++ 0x22 :: rest)
      rw [List.flatMap_cons, List.append_assoc]
      by_cases second : IsLow low
      · rw [if_pos second] at next
        exact .inl ⟨low, ps, Nat.lt_succ_self _, next, by rw [spell, if_pos high, if_pos second]⟩
      · rw [if_neg second] at next
        exact .inr ⟨next, by rw [spell, if_pos high, if_neg second]⟩

/-- **A string is read** piece by piece. By induction on the number of pieces, since two halves of a
character are read at once. -/
theorem stringAfter_pieces : ∀ (ps : List Piece) (done : List UInt8) (spelled : Bool),
    stringAfter done spelled (ps.flatMap bytes ++ 0x22 :: rest) =
      some (ending done spelled (spell ps), rest)
  | [], done, spelled => by
    rw [List.flatMap_nil, List.nil_append, stringAfter_quote]
    cases spelled <;> simp [ending, spell]
  | .byte b plain :: ps, done, spelled => by
    show stringAfter done spelled (b :: (ps.flatMap bytes ++ 0x22 :: rest)) = _
    rw [stringAfter_byte plain, stringAfter_pieces ps, spell]
    exact congrArg (fun x => some (x, rest)) (ending_append [b] done spelled _)
  | .short letter c known :: ps, done, spelled => by
    have other : ¬(letter == 0x75) = true := by simpa using ne_unit known
    have escaped : escape? (letter :: (ps.flatMap bytes ++ 0x22 :: rest)) =
        some (some [c], ps.flatMap bytes ++ 0x22 :: rest) := by
      rw [escape?, if_neg other, known]
      rfl
    show stringAfter done spelled (0x5C :: letter :: (ps.flatMap bytes ++ 0x22 :: rest)) = _
    rw [stringAfter_escape done spelled escaped, spell]
    show stringAfter ([c].reverse ++ done) spelled _ = _
    rw [stringAfter_pieces ps]
    exact congrArg (fun x => some (x, rest)) (ending_append [c] done spelled _)
  | .unit ds k hex :: ps, done, spelled => by
    have escaped := escape?_unit hex (ps.flatMap bytes ++ 0x22 :: rest)
    rw [List.flatMap_cons, List.append_assoc]
    show stringAfter done spelled (0x5C :: 0x75 :: (ds ++ (ps.flatMap bytes ++ 0x22 :: rest))) = _
    rw [unicodeEscape_eq] at escaped
    -- Half a pair that stands alone, whatever follows it.
    have alone (h : escape? (0x75 :: (ds ++ (ps.flatMap bytes ++ 0x22 :: rest))) =
        some (none, ps.flatMap bytes ++ 0x22 :: rest))
        (nothing : spell (.unit ds k hex :: ps) = none) :
        stringAfter done spelled (0x5C :: 0x75 :: (ds ++ (ps.flatMap bytes ++ 0x22 :: rest))) =
          some (ending done spelled (spell (.unit ds k hex :: ps)), rest) := by
      rw [stringAfter_escape done spelled h, nothing, ending_none]
      exact stringAfter_pieces ps done false
    by_cases high : IsHigh k
    · rw [if_pos high] at escaped
      rcases second_or_alone hex high ps with ⟨low, qs, _, next, meaning⟩ | ⟨next, nothing⟩
      · rw [next] at escaped
        rw [stringAfter_escape done spelled escaped]
        show stringAfter _ spelled _ = _
        rw [stringAfter_pieces qs, ending_append, meaning]
      · rw [next] at escaped
        exact alone escaped nothing
    · rw [if_neg high] at escaped
      by_cases low : IsLow k
      · rw [if_pos low] at escaped
        exact alone escaped (by rw [spell_unit high, if_pos low])
      · rw [if_neg low] at escaped
        rw [stringAfter_escape done spelled escaped]
        show stringAfter _ spelled _ = _
        rw [stringAfter_pieces ps, ending_append, spell_unit high, if_neg low]
termination_by ps => ps.length
decreasing_by
  all_goals
    simp only [List.length_cons]
    omega

/-- **A string is read** as what its pieces spell. -/
theorem string?_quoted (ps : List Piece) (rest : List UInt8) :
    string? (ps.flatMap bytes ++ 0x22 :: rest) = some (spelled? ps, rest) := by
  rw [string?, stringAfter_pieces]
  rfl

/-! ## Texts are written in pieces -/

/-- A character has one byte, which is its code, or its bytes are all large. -/
theorem mem_utf8EncodeChar {c : Char} {b : UInt8} (h : b ∈ String.utf8EncodeChar c) :
    b.toNat = c.toNat ∨ 0x80 ≤ b.toNat := by
  have code : c.val.toNat = c.toNat := rfl
  unfold String.utf8EncodeChar at h
  simp only [code] at h
  split at h
  · obtain rfl := List.mem_singleton.mp h
    left
    rw [UInt8.toNat_ofNat']
    omega
  · right
    split at h
    · simp only [List.mem_cons, List.not_mem_nil, or_false] at h
      rcases h with rfl | rfl <;> rw [UInt8.toNat_ofNat'] <;> omega
    · split at h
      · simp only [List.mem_cons, List.not_mem_nil, or_false] at h
        rcases h with rfl | rfl | rfl <;> rw [UInt8.toNat_ofNat'] <;> omega
      · simp only [List.mem_cons, List.not_mem_nil, or_false] at h
        rcases h with rfl | rfl | rfl | rfl <;> rw [UInt8.toNat_ofNat'] <;> omega

theorem isPlain_utf8EncodeChar {c : Char} (quote : c ≠ '"') (backslash : c ≠ '\\')
    (visible : ¬c.toNat < 0x20) : ∀ b ∈ String.utf8EncodeChar c, IsPlain b := by
  intro b hb
  have different : ∀ {d : Char}, c ≠ d → c.toNat ≠ d.toNat :=
    fun ne e => ne (Char.toNat_inj.mp e)
  have noQuote : c.toNat ≠ 0x22 := different quote
  have noBackslash : c.toNat ≠ 0x5C := different backslash
  have byte := mem_utf8EncodeChar hb
  refine ⟨?_, ?_, ?_⟩
  · rintro rfl
    have : (0x22 : UInt8).toNat = 0x22 := rfl
    omega
  · rintro rfl
    have : (0x5C : UInt8).toNat = 0x5C := rfl
    omega
  · rw [UInt8.le_iff_toNat_le]
    have : (0x20 : UInt8).toNat = 0x20 := rfl
    omega

/-- A hexadecimal digit as it is written. -/
def hexByte (k : Nat) : UInt8 := if k < 10 then UInt8.ofNat (48 + k) else UInt8.ofNat (87 + k)

theorem hexDigit?_hexByte : ∀ k, k < 16 → hexDigit? (hexByte k) = some k := by decide

theorem bytes_controlEscape {c : Char} (control : c.toNat < 0x20) :
    Text.bytes (controlEscape c) =
      [0x5C, 0x75, 0x30, 0x30, hexByte (c.toNat / 16), hexByte (c.toNat % 16)] := by
  have one : ∀ k, k < 16 → String.utf8EncodeChar
      (if k < 10 then Char.ofNat (48 + k) else Char.ofNat (87 + k)) = [hexByte k] := by
    decide
  unfold controlEscape
  simp only [Text.bytes_append, Text.bytes_ofList, List.flatMap_cons, List.flatMap_nil,
    one _ (show c.toNat / 16 < 16 by omega), one _ (Nat.mod_lt c.toNat (show 16 > 0 by decide))]
  rfl

/-- Pieces that are written like this and spell these bytes, whatever follows them. -/
def Writes (written spelled : List UInt8) : Prop :=
  ∃ ps : List Piece, ps.flatMap bytes = written ∧
    ∀ qs, spell (ps ++ qs) = (spell qs).map (spelled ++ ·)

theorem writes_nil : Writes [] [] := ⟨[], rfl, fun qs => by simp⟩

theorem Writes.append {written spelled written' spelled' : List UInt8} (h : Writes written spelled)
    (h' : Writes written' spelled') : Writes (written ++ written') (spelled ++ spelled') := by
  obtain ⟨ps, rfl, meaning⟩ := h
  obtain ⟨ps', rfl, meaning'⟩ := h'
  refine ⟨ps ++ ps', List.flatMap_append, fun qs => ?_⟩
  rw [List.append_assoc, meaning, meaning', Option.map_map]
  exact congrArg (Option.map · (spell qs)) (funext fun bs => (List.append_assoc _ _ bs).symm)

theorem writes_short {letter c : UInt8} (known : shortEscape? letter = some c) :
    Writes [0x5C, letter] [c] :=
  ⟨[.short letter c known], rfl, fun _ => rfl⟩

theorem writes_plain (bs : List UInt8) (plain : ∀ b ∈ bs, IsPlain b) : Writes bs bs := by
  induction bs with
  | nil => exact writes_nil
  | cons b bs ih =>
    obtain ⟨first, others⟩ := List.forall_mem_cons.mp plain
    have one : Writes [b] [b] := ⟨[.byte b first], rfl, fun _ => rfl⟩
    exact one.append (ih others)

/-- A control character without a short escape is spelled in hexadecimal digits. -/
theorem writes_control {c : Char} (control : c.toNat < 0x20) :
    Writes (Text.bytes (controlEscape c)) (String.utf8EncodeChar c) := by
  have zero : hexDigit? 0x30 = some 0 := by decide
  have high := hexDigit?_hexByte (c.toNat / 16) (by omega)
  have low := hexDigit?_hexByte (c.toNat % 16) (by omega)
  have value : ((0 * 16 + 0) * 16 + c.toNat / 16) * 16 + c.toNat % 16 = c.toNat := by omega
  have hex : unit? [0x30, 0x30, hexByte (c.toNat / 16), hexByte (c.toNat % 16)] =
      some (c.toNat, []) := by
    simp only [unit?, zero, high, low, Option.bind_eq_bind, Option.bind_some, value]
    rfl
  refine ⟨[.unit _ _ hex], ?_, fun qs => ?_⟩
  · rw [bytes_controlEscape control]
    rfl
  · show spell (.unit _ _ hex :: qs) = _
    rw [spell_unit (fun h => by have := h.1; omega), if_neg fun h => by have := h.1; omega,
      Char.ofNat_toNat]

/-- **What stands for a character** spells it. -/
theorem writes_escape (c : Char) : Writes (Text.bytes (escape c)) (String.utf8EncodeChar c) := by
  unfold escape
  split
  · next h => subst h; exact writes_short rfl
  split
  · next h => subst h; exact writes_short rfl
  split
  · next h => subst h; exact writes_short rfl
  split
  · next h => subst h; exact writes_short rfl
  split
  · next h => subst h; exact writes_short rfl
  split
  · next h => subst h; exact writes_short rfl
  split
  · next h => subst h; exact writes_short rfl
  split
  · next control => exact writes_control control
  · next quote backslash _ _ _ _ _ visible =>
    have plain : Text.bytes c.toString = String.utf8EncodeChar c := by
      rw [Text.bytes_eq]
      simp
    rw [plain]
    exact writes_plain _ (isPlain_utf8EncodeChar quote backslash visible)

theorem writes_chars (cs : List Char) : Writes (cs.flatMap fun c => Text.bytes (escape c))
    (cs.flatMap String.utf8EncodeChar) := by
  induction cs with
  | nil => exact writes_nil
  | cons c cs ih => exact (writes_escape c).append ih

theorem bytes_literal (s : String) : Text.bytes (literal s) =
    0x22 :: ((s.toList.flatMap fun c => Text.bytes (escape c)) ++ [0x22]) := by
  have chars : ∀ (cs : List Char) (acc : String),
      Text.bytes (cs.foldl (fun acc c => acc ++ escape c) acc) =
        Text.bytes acc ++ cs.flatMap fun c => Text.bytes (escape c) := by
    intro cs
    induction cs with
    | nil => intro acc; simp
    | cons c cs ih =>
      intro acc
      rw [List.foldl_cons, ih, Text.bytes_append, List.flatMap_cons, List.append_assoc]
  unfold literal
  rw [String.foldl_eq_foldl_toList, Text.bytes_append, chars, List.append_assoc]
  rfl

/-- **A text is written in pieces** that spell it. -/
theorem exists_pieces (s : String) :
    ∃ ps, quoted ps = Text.bytes (literal s) ∧ spelled? ps = some s := by
  obtain ⟨ps, written, meaning⟩ := writes_chars s.toList
  have spelled := meaning []
  rw [List.append_nil] at spelled
  refine ⟨ps, ?_, ?_⟩
  · rw [bytes_literal, quoted, written]
  · rw [spelled?, spelled, ← Text.bytes_eq]
    simpa [spell] using Text.ofBytes?_bytes s

end ChangeRelay.Json.Reader
