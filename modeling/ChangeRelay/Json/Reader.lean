import ChangeRelay.Json.Basic
import ChangeRelay.Text.Utf8

/-!
# Reading JSON

Reads JSON texts, given as bytes, into trees. The grammar is the strict one: no leading zeros, no
raw control characters in strings, no trailing commas, and only the space, the tab, the line feed
and the carriage return between tokens. The reader keeps the arrays and objects it is inside of on
a stack of its own, so that neither the length nor the depth of a text is limited unless the caller
asks for it.

* `Json.readPrefix`: the first value of a text, and the rest.
* `Json.read?`: the value of a whole text.
-/

namespace ChangeRelay.Json

/-- What a caller asks of a text beyond the grammar. -/
structure Limits where
  /-- How many arrays and objects may stand inside each other, the outermost included. -/
  depth : Option Nat
  /-- Whether every literal must have a meaning: a string spells a text, and a numeral stands for
  a number. -/
  meaningful : Bool

/-- The grammar alone. -/
def Limits.none : Limits := ⟨Option.none, false⟩

/-- Whether one more array or object may stand inside those of a stack. -/
def Limits.admits {α : Type} (l : Limits) (stack : List α) : Bool :=
  match l.depth with
  | Option.none => true
  | some most => stack.length < most

/-- Whether a scalar may stand in a text. -/
def Limits.allows (l : Limits) : Json → Bool
  | .string s => !l.meaningful || s.isSome
  | .number n => !l.meaningful || n.number?.isSome
  | _ => true

namespace Reader

/-- The space, the tab, the line feed and the carriage return. -/
def isBlank (b : UInt8) : Bool := b == 0x20 || b == 0x09 || b == 0x0A || b == 0x0D

/-- Passes over blanks. -/
def skipBlanks : List UInt8 → List UInt8
  | [] => []
  | b :: bs => if isBlank b then skipBlanks bs else b :: bs

theorem length_skipBlanks : ∀ bs : List UInt8, (skipBlanks bs).length ≤ bs.length
  | [] => Nat.le_refl _
  | b :: bs => by
    unfold skipBlanks
    split
    · exact Nat.le_succ_of_le (length_skipBlanks bs)
    · exact Nat.le_refl _

/-! ## Numbers -/

def isDigit (b : UInt8) : Bool := 0x30 ≤ b && b ≤ 0x39

/-- Digits, as many as there are, after those done, which are in reverse. -/
def digitsAfter (done : Digits) : List UInt8 → Digits × List UInt8
  | [] => (done.reverse, [])
  | b :: bs =>
    if isDigit b then digitsAfter (Digit.ofNat (b.toNat - 48) :: done) bs
    else (done.reverse, b :: bs)

/-- Digits, as many as there are. -/
def digits (bs : List UInt8) : Digits × List UInt8 := digitsAfter [] bs

theorem length_digitsAfter (bs : List UInt8) (done : Digits) :
    (digitsAfter done bs).2.length + (digitsAfter done bs).1.length = bs.length + done.length := by
  induction bs generalizing done with
  | nil => simp [digitsAfter]
  | cons b bs ih =>
    unfold digitsAfter
    split
    · rw [ih]
      simp only [List.length_cons]
      omega
    · simp

theorem length_digits (bs : List UInt8) :
    (digits bs).2.length + (digits bs).1.length = bs.length := by
  simpa [digits] using length_digitsAfter bs []

/-- The digits after a point, which then must not be missing. -/
def fraction : List UInt8 → Option (Digits × List UInt8)
  | 0x2E :: bs =>
    let (ds, rest) := digits bs
    if ds.isEmpty then none else some (ds, rest)
  | bs => some ([], bs)

/-- The sign of an exponent. -/
def exponentSign : List UInt8 → ExponentSign × List UInt8
  | 0x2B :: bs => (.plus, bs)
  | 0x2D :: bs => (.minus, bs)
  | bs => (.unsigned, bs)

/-- The exponent, if the letter for it comes next. -/
def exponent : List UInt8 → Option (Option (ExponentSign × Digits) × List UInt8)
  | [] => some (none, [])
  | b :: bs =>
    if b == 0x65 || b == 0x45 then
      let (sign, bs) := exponentSign bs
      let (ds, rest) := digits bs
      if ds.isEmpty then none else some (some (sign, ds), rest)
    else some (none, b :: bs)

/-- A numeral from its digits on. -/
def unsignedNumeral (negative : Bool) (bs : List UInt8) : Option (Numeral × List UInt8) :=
  let (whole, bs) := digits bs
  match whole with
  | [] => none
  | d :: ds =>
    if d = .zero ∧ ds ≠ [] then none
    else do
      let (f, bs) ← fraction bs
      let (e, bs) ← exponent bs
      return (⟨negative, d :: ds, f, e⟩, bs)

/-- A numeral. -/
def numeral : List UInt8 → Option (Numeral × List UInt8)
  | 0x2D :: bs => unsignedNumeral true bs
  | bs => unsignedNumeral false bs

theorem length_fraction {bs : List UInt8} {f : Digits} {rest : List UInt8}
    (h : fraction bs = some (f, rest)) : rest.length ≤ bs.length := by
  unfold fraction at h
  split at h
  · next bs =>
    have := length_digits bs
    simp only [Option.ite_none_left_eq_some, Option.some.injEq, Prod.mk.injEq] at h
    rw [← h.2.2, List.length_cons]
    omega
  · simp only [Option.some.injEq, Prod.mk.injEq] at h
    exact Nat.le_of_eq (congrArg List.length h.2.symm)

theorem length_exponentSign (bs : List UInt8) : (exponentSign bs).2.length ≤ bs.length := by
  unfold exponentSign
  split <;> simp

theorem length_exponent {bs : List UInt8} {e : Option (ExponentSign × Digits)}
    {rest : List UInt8} (h : exponent bs = some (e, rest)) : rest.length ≤ bs.length := by
  unfold exponent at h
  split at h
  · simp only [Option.some.injEq, Prod.mk.injEq] at h
    simp [← h.2]
  · next b bs =>
    split at h
    · have h₁ := length_exponentSign bs
      have h₂ := length_digits (exponentSign bs).2
      simp only [Option.ite_none_left_eq_some, Option.some.injEq, Prod.mk.injEq] at h
      rw [← h.2.2, List.length_cons]
      omega
    · simp only [Option.some.injEq, Prod.mk.injEq] at h
      simp [← h.2]

theorem length_unsignedNumeral {negative : Bool} {bs : List UInt8} {n : Numeral}
    {rest : List UInt8} (h : unsignedNumeral negative bs = some (n, rest)) :
    rest.length < bs.length := by
  have hd := length_digits bs
  unfold unsignedNumeral at h
  generalize digits bs = p at h hd
  obtain ⟨whole, bs₀⟩ := p
  simp only at h hd
  split at h
  · simp at h
  · next d ds =>
    rw [List.length_cons] at hd
    split at h
    · simp at h
    · simp only [Option.bind_eq_bind, Option.bind_eq_some_iff, Prod.exists, Option.pure_def,
        Option.some.injEq, Prod.mk.injEq] at h
      obtain ⟨f, bs₁, hf, e, bs₂, he, -, rfl⟩ := h
      have h₁ := length_fraction hf
      have h₂ := length_exponent he
      omega

theorem length_numeral {bs : List UInt8} {n : Numeral} {rest : List UInt8}
    (h : numeral bs = some (n, rest)) : rest.length < bs.length := by
  unfold numeral at h
  split at h
  · exact Nat.lt_succ_of_lt (length_unsignedNumeral h)
  · exact length_unsignedNumeral h

/-! ## Strings -/

/-- The value of a hexadecimal digit. -/
def hexDigit? (b : UInt8) : Option Nat :=
  if isDigit b then some (b.toNat - 48)
  else if 0x61 ≤ b && b ≤ 0x66 then some (b.toNat - 87)
  else if 0x41 ≤ b && b ≤ 0x46 then some (b.toNat - 55)
  else none

/-- Four hexadecimal digits. -/
def unit? : List UInt8 → Option (Nat × List UInt8)
  | a :: b :: c :: d :: bs => do
    let a ← hexDigit? a
    let b ← hexDigit? b
    let c ← hexDigit? c
    let d ← hexDigit? d
    return (((a * 16 + b) * 16 + c) * 16 + d, bs)
  | _ => none

/-- The second half of a surrogate pair, if it comes next. -/
def lowHalf? : List UInt8 → Option (Nat × List UInt8)
  | 0x5C :: 0x75 :: bs =>
    (unit? bs).bind fun (n, rest) => if 0xDC00 ≤ n ∧ n < 0xE000 then some (n, rest) else none
  | _ => none

/-- What the unit `n` and perhaps the escape after it stand for: the bytes of one character, or
nothing for half a pair that stands alone. -/
def unicodeEscape (n : Nat) (bs : List UInt8) : Option (List UInt8) × List UInt8 :=
  if 0xD800 ≤ n ∧ n < 0xDC00 then
    match lowHalf? bs with
    | some (low, rest) =>
      (some (String.utf8EncodeChar (Char.ofNat (0x10000 + (n - 0xD800) * 1024 + (low - 0xDC00)))),
        rest)
    | none => (none, bs)
  else if 0xDC00 ≤ n ∧ n < 0xE000 then (none, bs)
  else (some (String.utf8EncodeChar (Char.ofNat n)), bs)

/-- The character that a backslash and this letter stand for. -/
def shortEscape? (b : UInt8) : Option UInt8 :=
  if b == 0x22 || b == 0x5C || b == 0x2F then some b
  else if b == 0x62 then some 0x08
  else if b == 0x66 then some 0x0C
  else if b == 0x6E then some 0x0A
  else if b == 0x72 then some 0x0D
  else if b == 0x74 then some 0x09
  else none

/-- What comes after a backslash. -/
def escape? : List UInt8 → Option (Option (List UInt8) × List UInt8)
  | [] => none
  | b :: bs =>
    if b == 0x75 then (unit? bs).map fun (n, rest) => unicodeEscape n rest
    else (shortEscape? b).map fun c => (some [c], bs)

theorem length_unit? {bs : List UInt8} {n : Nat} {rest : List UInt8}
    (h : unit? bs = some (n, rest)) : rest.length < bs.length := by
  unfold unit? at h
  split at h
  · simp only [Option.bind_eq_bind, Option.bind_eq_some_iff, Option.pure_def, Option.some.injEq,
      Prod.mk.injEq] at h
    obtain ⟨_, _, _, _, _, _, _, _, _, rfl⟩ := h
    simp only [List.length_cons]
    omega
  · simp at h

theorem length_unicodeEscape (n : Nat) (bs : List UInt8) :
    (unicodeEscape n bs).2.length ≤ bs.length := by
  unfold unicodeEscape
  split
  · split
    · next h =>
      unfold lowHalf? at h
      split at h
      · simp only [Option.bind_eq_some_iff, Prod.exists, Option.ite_none_right_eq_some,
          Option.some.injEq, Prod.mk.injEq] at h
        obtain ⟨m, r, hu, -, -, rfl⟩ := h
        have := length_unit? hu
        simp only [List.length_cons]
        omega
      · simp at h
    · exact Nat.le_refl _
  · split <;> exact Nat.le_refl _

theorem length_escape? {bs : List UInt8} {c : Option (List UInt8)} {rest : List UInt8}
    (h : escape? bs = some (c, rest)) : rest.length < bs.length := by
  unfold escape? at h
  split at h
  · simp at h
  · split at h
    · simp only [Option.map_eq_some_iff, Prod.exists] at h
      obtain ⟨n, r, hu, he⟩ := h
      have h₁ := length_unit? hu
      have h₂ := length_unicodeEscape n r
      rw [he] at h₂
      exact Nat.lt_succ_of_lt (Nat.lt_of_le_of_lt h₂ h₁)
    · simp only [Option.map_eq_some_iff, Prod.mk.injEq] at h
      obtain ⟨_, _, -, rfl⟩ := h
      simp

/-- A string from behind its opening quote. `done` holds the bytes of its text in reverse, and
`spelled` says whether every escape so far stands for a character. -/
def stringAfter (done : List UInt8) (spelled : Bool) (bs : List UInt8) :
    Option (Option String × List UInt8) :=
  match bs with
  | [] => none
  | b :: bs =>
    if b == 0x22 then some (if spelled then Text.ofBytes? done.reverse else none, bs)
    else if b == 0x5C then
      match _h : escape? bs with
      | none => none
      | some (some c, rest) => stringAfter (c.reverse ++ done) spelled rest
      | some (none, rest) => stringAfter done false rest
    else if b < 0x20 then none
    else stringAfter (b :: done) spelled bs
termination_by bs.length
decreasing_by
  · exact Nat.lt_succ_of_lt (length_escape? _h)
  · exact Nat.lt_succ_of_lt (length_escape? _h)
  · exact Nat.lt_succ_self _

/-- A string from behind its opening quote. -/
def string? (bs : List UInt8) : Option (Option String × List UInt8) := stringAfter [] true bs

theorem length_stringAfter {done : List UInt8} {spelled : Bool} {bs : List UInt8}
    {s : Option String} {rest : List UInt8} (h : stringAfter done spelled bs = some (s, rest)) :
    rest.length < bs.length := by
  fun_induction stringAfter done spelled bs with
  | case1 => simp at h
  | case2 =>
    simp only [Option.some.injEq, Prod.mk.injEq] at h
    simp [h.2]
  | case3 => simp at h
  | case4 _ _ _ _ _ _ _ _ he ih =>
    have := length_escape? he
    have := ih h
    simp only [List.length_cons]
    omega
  | case5 _ _ _ _ _ _ _ he ih =>
    have := length_escape? he
    have := ih h
    simp only [List.length_cons]
    omega
  | case6 => simp at h
  | case7 _ _ _ _ _ _ _ ih =>
    have := ih h
    simp only [List.length_cons]
    omega

/-! ## Values -/

/-- What is left of `bs` behind a word. -/
def word? : List UInt8 → List UInt8 → Option (List UInt8)
  | [], bs => some bs
  | w :: ws, b :: bs => if b == w then word? ws bs else none
  | _ :: _, [] => none

theorem length_word? {ws bs rest : List UInt8} (h : word? ws bs = some rest) :
    rest.length ≤ bs.length := by
  fun_induction word? ws bs with
  | case1 =>
    simp only [Option.some.injEq] at h
    exact h ▸ Nat.le_refl _
  | case2 _ _ _ _ _ ih => exact Nat.le_succ_of_le (ih h)
  | case3 => simp at h
  | case4 => simp at h

/-- A value that is neither array nor object. -/
def scalar? : List UInt8 → Option (Json × List UInt8)
  | [] => none
  | b :: bs =>
    if b == 0x22 then (string? bs).map fun (s, rest) => (.string s, rest)
    else if b == 0x6E then (word? [0x75, 0x6C, 0x6C] bs).map fun rest => (.null, rest)
    else if b == 0x74 then (word? [0x72, 0x75, 0x65] bs).map fun rest => (.bool true, rest)
    else if b == 0x66 then (word? [0x61, 0x6C, 0x73, 0x65] bs).map fun rest => (.bool false, rest)
    else (numeral (b :: bs)).map fun (n, rest) => (.number n, rest)

theorem length_scalar? {bs : List UInt8} {j : Json} {rest : List UInt8}
    (h : scalar? bs = some (j, rest)) : rest.length < bs.length := by
  unfold scalar? at h
  split at h
  · simp at h
  · next b bs =>
    split at h
    · simp only [Option.map_eq_some_iff, Prod.exists, Prod.mk.injEq] at h
      obtain ⟨_, _, hs, -, rfl⟩ := h
      exact Nat.lt_succ_of_lt (length_stringAfter hs)
    · split at h
      · simp only [Option.map_eq_some_iff, Prod.mk.injEq] at h
        obtain ⟨_, hw, -, rfl⟩ := h
        exact Nat.lt_succ_of_le (length_word? hw)
      · split at h
        · simp only [Option.map_eq_some_iff, Prod.mk.injEq] at h
          obtain ⟨_, hw, -, rfl⟩ := h
          exact Nat.lt_succ_of_le (length_word? hw)
        · split at h
          · simp only [Option.map_eq_some_iff, Prod.mk.injEq] at h
            obtain ⟨_, hw, -, rfl⟩ := h
            exact Nat.lt_succ_of_le (length_word? hw)
          · simp only [Option.map_eq_some_iff, Prod.exists, Prod.mk.injEq] at h
            obtain ⟨_, _, hn, -, rfl⟩ := h
            exact length_numeral hn

/-- An array or object that the reader is inside of, its finished part in reverse. -/
inductive Frame
  | array (done : List Json)
  | object (done : List (Option String × Json)) (key : Option String)

/-- What has to come next. -/
inductive Expect
  /-- A value. -/
  | value
  /-- Whatever follows the value just read. -/
  | after (j : Json)
  /-- A key, in an object with these members. -/
  | key (done : List (Option String × Json))

/-- Reads on until the outermost value is complete. -/
def read (l : Limits) (stack : List Frame) (expect : Expect) (bs : List UInt8) :
    Option (Json × List UInt8) :=
  match expect with
  | .value =>
    match _h : skipBlanks bs with
    | 0x5B :: r =>
      if l.admits stack then
        match _h' : skipBlanks r with
        | 0x5D :: r' => read l stack (.after (.array [])) r'
        | _ => read l (.array [] :: stack) .value r
      else none
    | 0x7B :: r =>
      if l.admits stack then
        match _h' : skipBlanks r with
        | 0x7D :: r' => read l stack (.after (.object [])) r'
        | _ => read l stack (.key []) r
      else none
    | r =>
      match _h' : scalar? r with
      | some (j, r') => if l.allows j then read l stack (.after j) r' else none
      | none => none
  | .after j =>
    match stack with
    | [] => some (j, bs)
    | .array done :: stack =>
      match _h : skipBlanks bs with
      | 0x2C :: r => read l (.array (j :: done) :: stack) .value r
      | 0x5D :: r => read l stack (.after (.array (j :: done).reverse)) r
      | _ => none
    | .object done key :: stack =>
      match _h : skipBlanks bs with
      | 0x2C :: r => read l stack (.key ((key, j) :: done)) r
      | 0x7D :: r => read l stack (.after (.object ((key, j) :: done).reverse)) r
      | _ => none
  | .key done =>
    match _h : skipBlanks bs with
    | 0x22 :: r =>
      match _h' : string? r with
      | some (key, r') =>
        if l.allows (.string key) then
          match _h'' : skipBlanks r' with
          | 0x3A :: r'' => read l (.object done key :: stack) .value r''
          | _ => none
        else none
      | none => none
    | _ => none
termination_by bs.length
decreasing_by
  all_goals
    have h₁ := length_skipBlanks bs
    simp only [_h, List.length_cons] at h₁
  · have h₂ := length_skipBlanks r
    simp only [_h', List.length_cons] at h₂
    omega
  · omega
  · have h₂ := length_skipBlanks r
    simp only [_h', List.length_cons] at h₂
    omega
  · omega
  · have h₂ := length_scalar? _h'
    omega
  · omega
  · omega
  · omega
  · omega
  · have h₂ := length_stringAfter _h'
    have h₃ := length_skipBlanks r'
    simp only [_h'', List.length_cons] at h₃
    omega

end Reader

/-- The first value of a text, and the rest. -/
def readPrefix (l : Limits) (bs : List UInt8) : Option (Json × List UInt8) :=
  Reader.read l [] .value bs

/-- Whether nothing but blanks is left. -/
def onlyBlanks (bs : List UInt8) : Bool := (Reader.skipBlanks bs).isEmpty

/-- The value of a whole text. -/
def read? (bs : List UInt8) : Option Json :=
  match readPrefix .none bs with
  | some (j, rest) => if onlyBlanks rest then some j else none
  | none => none

end ChangeRelay.Json
