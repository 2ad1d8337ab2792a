import ChangeRelay.Host.Address
import Mathlib.Data.List.TakeWhile
import Mathlib.Data.Nat.Digits.Defs

/-!
# Addresses are read as they were written

The text of an address is read as that address. The reader of a host takes as many groups as there
are, and before each of them it tries for four bytes; so what is shown of a row of groups is that it
is read up to its end, where no group and no four bytes go on. A host is one row of eight groups, or
two rows with `::` between them, and then the groups left out are the zeros of the longest run.

* `Reader.groups_row`: a row of groups is read up to its end.
* `Reader.host_hostText`: the eight groups of a host come back.
* **`ofText?_text`**: so does an address.
-/

namespace ChangeRelay.Address

namespace Reader

variable {α β : Type} {p q : Reader α} {f : α → Reader β} {cs rest : List Char} {a : α}

/-! ## Steps of a reader -/

theorem bind_some (h : p cs = some (a, rest)) : (p >>= f) cs = f a rest := by
  show (p cs).bind _ = _
  rw [h, Option.bind_some]

theorem bind_none (h : p cs = none) : (p >>= f) cs = none := by
  show (p cs).bind _ = _
  rw [h, Option.bind_none]

theorem orElse_some (h : p cs = some (a, rest)) : (p <|> q) cs = some (a, rest) := by
  show (p cs <|> q cs) = _
  rw [h]
  rfl

theorem orElse_none (h : p cs = none) : (p <|> q) cs = q cs := by
  show (p cs <|> q cs) = _
  rw [h]
  rfl

theorem char_self (c : Char) (rest : List Char) : char c (c :: rest) = some ((), rest) :=
  if_pos rfl

theorem char_ne {c d : Char} (h : d ≠ c) (rest : List Char) : char c (d :: rest) = none :=
  if_neg h

/-! ## Digits -/

/-- The digits of a number in a base. -/
structure Spells (base n : Nat) (ds : List Nat) : Prop where
  chars : Nat.toDigits base n = ds.map Nat.digitChar
  small : ∀ d ∈ ds, d < base
  value : ds.foldl (fun n d => base * n + d) 0 = n
  nonempty : ds ≠ []
  /-- Only zero starts with a zero. -/
  head : n ≠ 0 → ds.head? ≠ some 0

theorem exists_spells (base : Nat) (valid : 1 < base) (n : Nat) : ∃ ds, Spells base n ds := by
  induction n using Nat.strong_induction_on with
  | _ n ih =>
    have digits := Nat.toDigits_eq_if (n := n) valid
    by_cases single : n < base
    · rw [if_pos single] at digits
      exact ⟨[n], digits, by simpa using single, by simp, by simp, by simp⟩
    · rw [if_neg single] at digits
      have positive : n / base ≠ 0 := by
        have := Nat.div_pos (Nat.le_of_not_lt single) (by omega : 0 < base)
        omega
      obtain ⟨ds, before⟩ := ih (n / base) (Nat.div_lt_self (by omega) valid)
      refine ⟨ds ++ [n % base], ?_, ?_, ?_, by simp, fun _ => ?_⟩
      · rw [digits, before.chars, List.map_append, List.map_singleton]
      · intro d hd
        rcases List.mem_append.mp hd with hd | hd
        · exact before.small d hd
        · rw [List.mem_singleton.mp hd]
          exact Nat.mod_lt n (by omega)
      · rw [List.foldl_append, before.value]
        exact Nat.div_add_mod n base
      · obtain ⟨d, others, starts⟩ := List.exists_cons_of_ne_nil before.nonempty
        have head := before.head positive
        rw [starts] at head ⊢
        exact head

theorem digitIn?_digitChar : ∀ base ≤ 16, ∀ d < base, digitIn? base (Nat.digitChar d) = some d := by
  decide

/-- No digit comes next. -/
def NoDigit (base : Nat) (rest : List Char) : Prop := ∀ c ∈ rest.head?, digitIn? base c = none

variable {base : Nat} {ds : List Nat}

theorem splitDigits_map (most : base ≤ 16) (small : ∀ d ∈ ds, d < base)
    (apart : NoDigit base rest) :
    splitDigits base (ds.map Nat.digitChar ++ rest) = (ds, rest) := by
  induction ds with
  | nil =>
    cases rest with
    | nil => rfl
    | cons c cs =>
      have other : digitIn? base c = none := apart c rfl
      simp [splitDigits, other]
  | cons d ds ih =>
    obtain ⟨first, others⟩ := List.forall_mem_cons.mp small
    show splitDigits base (Nat.digitChar d :: (ds.map Nat.digitChar ++ rest)) = _
    simp [splitDigits, digitIn?_digitChar base most d first, ih others]

theorem digits_spells {n : Nat} (most : base ≤ 16) (h : Spells base n ds)
    (apart : NoDigit base rest) : digits base (Nat.toDigits base n ++ rest) = some (ds, rest) := by
  unfold digits
  rw [h.chars, splitDigits_map most h.small apart]
  obtain ⟨d, ds, rfl⟩ := List.exists_cons_of_ne_nil h.nonempty
  rfl

theorem splitDigits_apart (apart : NoDigit base cs) : splitDigits base cs = ([], cs) := by
  cases cs with
  | nil => rfl
  | cons c cs =>
    have other : digitIn? base c = none := apart c rfl
    simp [splitDigits, other]

theorem digits_none (apart : NoDigit base cs) : digits base cs = none := by
  unfold digits
  rw [splitDigits_apart apart]

theorem below_some {bound n : Nat} (h : Spells base n ds) (small : n < bound) :
    below bound base ds cs = some (n, cs) := by
  unfold below
  rw [h.value, if_pos small]
  rfl

theorem length_spells {n k : Nat} (h : Spells base n ds) (some : 0 < k) (small : n < base ^ k) :
    ds.length ≤ k := by
  have length := Nat.toDigits_length base n k some small
  rwa [h.chars, List.length_map] at length

theorem toList_decimal (n : Nat) : (decimal n).toList = Nat.toDigits 10 n := by
  have digit : ∀ d < 10, Digits.char (Digit.ofNat d) = Nat.digitChar d := by decide
  have last (m : Nat) : Digits.char (Digit.ofNat m) = Nat.digitChar (m % 10) := by
    rw [← digit (m % 10) (Nat.mod_lt m (by decide))]
    simp [Digit.ofNat]
  have go (m : Nat) (tail : Digits) :
      Digits.chars (Digits.ofNat.go m tail) = Nat.toDigits 10 m ++ Digits.chars tail := by
    fun_induction Digits.ofNat.go m tail with
    | case1 m tail tail' single =>
      rw [Nat.toDigits_eq_if (by decide), if_pos single, ← Nat.mod_eq_of_lt single, ← last]
      simp [tail', Digits.chars, Digit.ofNat]
    | case2 m tail tail' several ih =>
      rw [ih, Nat.toDigits_eq_if (n := m) (by decide), if_neg several, ← last]
      simp [tail', Digits.chars]
  have whole := go n []
  rw [decimal, Numeral.text, String.toList_ofList]
  have chars : (Numeral.ofInt n).chars = Digits.chars (Digits.ofNat n) := by
    simp [Numeral.ofInt, Numeral.chars, Numeral.exponentChars]
  rw [chars]
  simpa [Digits.ofNat, Digits.chars] using whole

/-! ## Four bytes -/

theorem byte_decimal (x : UInt8) (apart : NoDigit 10 rest) :
    byte (Nat.toDigits 10 x.toNat ++ rest) = some (x, rest) := by
  obtain ⟨ds, spells⟩ := exists_spells 10 (by decide) x.toNat
  have small : x.toNat < 256 := x.toNat_lt
  have short : ds.length ≤ 3 := length_spells spells (by decide) (by omega)
  have single : ds.head? = some 0 → ds.length = 1 := by
    intro zero
    have none : x.toNat = 0 := by
      by_contra positive
      exact spells.head positive zero
    have one := length_spells spells (k := 1) (by decide) (by omega)
    have := List.length_pos_iff.mpr spells.nonempty
    omega
  have proper : ¬(3 < ds.length ∨ (ds.head? = some 0 ∧ ds.length ≠ 1)) := by
    rintro (long | ⟨zero, several⟩)
    · omega
    · exact several (single zero)
  unfold byte
  rw [bind_some (digits_spells (by decide) spells apart), if_neg proper]
  show (below 256 10 ds >>= fun n => pure (UInt8.ofNat n)) rest = _
  rw [bind_some (below_some spells small), UInt8.ofNat_toNat]
  rfl

/-- Four bytes with points between them. -/
def pointed (a b c d : UInt8) : List Char :=
  Nat.toDigits 10 a.toNat ++ '.' :: (Nat.toDigits 10 b.toNat ++ '.' ::
    (Nat.toDigits 10 c.toNat ++ '.' :: Nat.toDigits 10 d.toNat))

theorem toList_fourBytesText (a b c d : UInt8) :
    (fourBytesText a b c d).toList = pointed a b c d := by
  simp [fourBytesText, Text.sepBy, toList_decimal, pointed]

theorem noDigit_cons {c : Char} (h : digitIn? base c = none) : NoDigit base (c :: rest) := by
  rintro d hd
  obtain rfl := Option.some.inj hd
  exact h

theorem fourBytes_pointed (a b c d : UInt8) (apart : NoDigit 10 rest) :
    fourBytes (pointed a b c d ++ rest) = some ((a, b, c, d), rest) := by
  have point (r : List Char) : NoDigit 10 ('.' :: r) := noDigit_cons (by decide)
  unfold fourBytes pointed
  simp only [List.append_assoc, List.cons_append]
  rw [bind_some (byte_decimal a (point _)), bind_some (char_self '.' _),
    bind_some (byte_decimal b (point _)), bind_some (char_self '.' _),
    bind_some (byte_decimal c (point _)), bind_some (char_self '.' _),
    bind_some (byte_decimal d apart)]
  rfl

theorem rest_of_below {bound n : Nat} (h : below bound base ds cs = some (n, rest)) :
    rest = cs := by
  unfold below at h
  split at h
  · exact (Prod.mk.inj (Option.some.inj h)).2.symm
  · cases h

/-- Only the digits are taken for a byte. -/
theorem rest_of_byte {x : UInt8} (h : byte cs = some (x, rest)) :
    rest = (splitDigits 10 cs).2 := by
  unfold byte at h
  cases read : digits 10 cs with
  | none => rw [bind_none read] at h; cases h
  | some result =>
    obtain ⟨ds, r⟩ := result
    have left : r = (splitDigits 10 cs).2 := by
      unfold digits at read
      split at read
      · cases read
      · next split =>
        rw [split]
        exact (Prod.mk.inj (Option.some.inj read)).2.symm
    rw [bind_some read] at h
    split at h
    · cases h
    · change (below 256 10 ds >>= fun n => pure (UInt8.ofNat n)) r = _ at h
      cases value : below 256 10 ds r with
      | none => rw [bind_none value] at h; cases h
      | some result =>
        obtain ⟨n, r'⟩ := result
        rw [bind_some value] at h
        obtain rfl : r' = rest := (Prod.mk.inj (Option.some.inj h)).2
        exact (rest_of_below value).trans left

/-- There are no four bytes where no point follows the first digits. -/
theorem fourBytes_none (h : ∀ c ∈ (splitDigits 10 cs).2.head?, c ≠ '.') : fourBytes cs = none := by
  unfold fourBytes
  cases first : byte cs with
  | none => exact bind_none first
  | some result =>
    obtain ⟨x, r⟩ := result
    rw [bind_some first]
    apply bind_none
    rw [rest_of_byte first]
    cases split : (splitDigits 10 cs).2 with
    | nil => rfl
    | cons c r => exact char_ne (h c (by rw [split]; rfl)) r

/-! ## Groups -/

/-- What may stand behind a group. -/
def Ends (rest : List Char) : Prop :=
  ∃ c r, rest = c :: r ∧ (c = ':' ∨ c = ']' ∨ c = '%')

/-- What may stand behind a row of groups, where none goes on. -/
def Stops (rest : List Char) : Prop :=
  ∃ c r, rest = c :: r ∧ ((c = ':' ∧ ∃ r', r = ':' :: r') ∨ c = ']' ∨ c = '%')

theorem Stops.ends (h : Stops rest) : Ends rest := by
  obtain ⟨c, r, rfl, colon | other⟩ := h
  · exact ⟨c, r, rfl, .inl colon.1⟩
  · exact ⟨c, r, rfl, .inr other⟩

theorem Ends.noDigit (h : Ends rest) : NoDigit 16 rest ∧ NoDigit 10 rest := by
  obtain ⟨c, r, rfl, known⟩ := h
  rcases known with rfl | rfl | rfl <;>
    exact ⟨noDigit_cons (by decide), noDigit_cons (by decide)⟩

theorem Ends.noPoint (h : Ends rest) : ∀ c ∈ rest.head?, c ≠ '.' := by
  obtain ⟨c, r, rfl, known⟩ := h
  rintro d hd
  obtain rfl := Option.some.inj hd
  rcases known with rfl | rfl | rfl <;> decide

theorem fourBytes_ends (ends : Ends rest) : fourBytes rest = none := by
  refine fourBytes_none ?_
  rw [splitDigits_apart ends.noDigit.2]
  exact ends.noPoint

theorem digitChar_ne_point : ∀ d < 16, Nat.digitChar d ≠ '.' := by decide

/-- A group is no start of four bytes. -/
theorem fourBytes_group (small : ∀ d ∈ ds, d < 16) (ends : Ends rest) :
    fourBytes (ds.map Nat.digitChar ++ rest) = none := by
  refine fourBytes_none ?_
  induction ds with
  | nil =>
    rw [List.map_nil, List.nil_append, splitDigits_apart ends.noDigit.2]
    exact ends.noPoint
  | cons d ds ih =>
    obtain ⟨first, others⟩ := List.forall_mem_cons.mp small
    rw [List.map_cons, List.cons_append, splitDigits]
    split
    · exact ih others
    · intro c hc
      obtain rfl := Option.some.inj hc
      exact digitChar_ne_point d first

/-- The colon before a group that is not the first. -/
def colon (first : Bool) : List Char := if first then [] else [':']

theorem separator_colon (first : Bool) (rest : List Char) :
    separator first (colon first ++ rest) = some ((), rest) := by
  cases first with
  | true => rfl
  | false => exact char_self ':' rest

theorem group_hex (first : Bool) (g : UInt16) (ends : Ends rest) :
    group first (colon first ++ (Nat.toDigits 16 g.toNat ++ rest)) = some (g, rest) := by
  obtain ⟨ds, spells⟩ := exists_spells 16 (by decide) g.toNat
  have small : g.toNat < 65536 := g.toNat_lt
  have short : ¬4 < ds.length := Nat.not_lt.mpr (length_spells spells (by decide) small)
  unfold group
  rw [bind_some (separator_colon first _),
    bind_some (digits_spells (by decide) spells ends.noDigit.1), if_neg short]
  show (below 65536 16 ds >>= fun n => pure (UInt16.ofNat n)) rest = _
  rw [bind_some (below_some spells small), UInt16.ofNat_toNat]
  rfl

theorem embedded_group (first : Bool) (g : UInt16) (ends : Ends rest) :
    embedded first (colon first ++ (Nat.toDigits 16 g.toNat ++ rest)) = none := by
  obtain ⟨ds, spells⟩ := exists_spells 16 (by decide) g.toNat
  unfold embedded
  rw [bind_some (separator_colon first _), spells.chars]
  exact bind_none (fourBytes_group spells.small ends)

/-- What stops a row is neither a group nor four bytes. -/
theorem separator_stops {α : Type} {f : Reader α} (first : Bool) (stops : Stops rest)
    (h : ∀ r, Ends r → f r = none) : (separator first >>= fun _ => f) rest = none := by
  obtain ⟨c, r, rfl, known⟩ := stops
  cases first with
  | true =>
    refine (bind_some rfl).trans (h _ ⟨c, r, rfl, ?_⟩)
    rcases known with ⟨colon, -⟩ | other
    · exact .inl colon
    · exact .inr other
  | false =>
    rcases known with ⟨rfl, r', rfl⟩ | other
    · exact (bind_some (char_self ':' _)).trans (h _ ⟨':', r', rfl, .inl rfl⟩)
    · refine bind_none (char_ne ?_ r)
      rcases other with rfl | rfl <;> decide

theorem embedded_stops (first : Bool) (stops : Stops rest) : embedded first rest = none :=
  separator_stops first stops fun _ ends => bind_none (fourBytes_ends ends)

theorem group_stops (first : Bool) (stops : Stops rest) : group first rest = none :=
  separator_stops first stops fun _ ends => bind_none (digits_none ends.noDigit.1)

/-- Groups with colons between them, and one before the first if there is one before them. -/
def row : Bool → List UInt16 → List Char
  | _, [] => []
  | first, g :: gs => colon first ++ (Nat.toDigits 16 g.toNat ++ row false gs)

theorem toList_groupsText (gs : List UInt16) : (groupsText gs).toList = row true gs := by
  have behind (gs : List UInt16) (s : String) :
      ((gs.map fun g => Text.hex g.toNat).foldl (fun acc y => acc ++ ":" ++ y) s).toList =
        s.toList ++ row false gs := by
    induction gs generalizing s with
    | nil => simp [row]
    | cons g gs ih =>
      rw [List.map_cons, List.foldl_cons, ih]
      simp [row, colon, Text.hex]
  cases gs with
  | nil => rfl
  | cons g gs =>
    show ((gs.map fun g => Text.hex g.toNat).foldl _ (Text.hex g.toNat)).toList = _
    rw [behind]
    simp [row, colon, Text.hex]

theorem ends_row (gs : List UInt16) (stops : Stops rest) : Ends (row false gs ++ rest) := by
  cases gs with
  | nil => exact stops.ends
  | cons g gs => exact ⟨':', _, rfl, .inl rfl⟩

/-- No four bytes are read where there are none. -/
theorem groups_plain {first : Bool} {most : Nat} (noBytes : embedded first cs = none) :
    groups first (most + 1) cs = ((do
      let g ← group first
      let (gs, bytesLast) ← groups false most
      return (g :: gs, bytesLast)) <|> pure ([], false) : Reader (List UInt16 × Bool)) cs := by
  rw [groups]
  apply orElse_none
  by_cases last : most = 0
  · rw [if_pos last]
    rfl
  · rw [if_neg last]
    exact bind_none noBytes

/-- **A row of groups is read** up to its end. -/
theorem groups_row (gs : List UInt16) (first : Bool) (most : Nat) (room : gs.length ≤ most)
    (stops : Stops rest) : groups first most (row first gs ++ rest) = some ((gs, false), rest) := by
  induction gs generalizing first most with
  | nil =>
    cases most with
    | zero => rfl
    | succ most =>
      rw [row, List.nil_append, groups_plain (embedded_stops first stops),
        orElse_none (bind_none (group_stops first stops))]
      rfl
  | cons g gs ih =>
    obtain ⟨most, rfl⟩ : ∃ m, most = m + 1 := ⟨most - 1, by simp at room; omega⟩
    have ends := ends_row gs stops
    have others := ih false most (by simpa using room)
    rw [row, List.append_assoc, List.append_assoc, groups_plain (embedded_group first g ends)]
    apply orElse_some
    rw [bind_some (group_hex first g ends), bind_some others]
    rfl

/-- Groups before four bytes that stand for the last two. -/
theorem groups_bytes {most : Nat} (room : most ≠ 0) (a b c d : UInt8) (apart : NoDigit 10 rest) :
    groups false (most + 1) (':' :: (pointed a b c d ++ rest)) =
      some (([a.toUInt16 * 256 + b.toUInt16, c.toUInt16 * 256 + d.toUInt16], true), rest) := by
  have bytes : embedded false (colon false ++ (pointed a b c d ++ rest)) =
      some ([a.toUInt16 * 256 + b.toUInt16, c.toUInt16 * 256 + d.toUInt16], rest) := by
    unfold embedded
    rw [bind_some (separator_colon false _), bind_some (fourBytes_pointed a b c d apart)]
    rfl
  rw [groups]
  apply orElse_some
  rw [if_neg room]
  exact bind_some bytes

/-! ## Hosts -/

theorem eight_toList (v : Vector UInt16 8) (rest : List Char) :
    eight v.toList rest = some (v, rest) := by
  unfold eight
  rw [dif_pos v.length_toList]
  rfl

/-- Four bytes are the last two groups of the host in which they are embedded. -/
theorem halves (g : UInt16) : (g / 256).toUInt8.toUInt16 * 256 + g.toUInt8.toUInt16 = g := by
  rw [← UInt16.toNat_inj]
  have := g.toNat_lt
  simp
  omega

/-- The groups `place` to `place + count` are zeros. -/
def HasZeros (gs : List UInt16) (best : Nat × Nat) : Prop :=
  best.1 + best.2 ≤ gs.length ∧
    gs = gs.take best.1 ++ List.replicate best.2 0 ++ gs.drop (best.1 + best.2)

theorem hasZeros_zerosAtStart {gs : List UInt16} {place : Nat} (inside : place ≤ gs.length) :
    HasZeros gs (place, zerosAtStart (gs.drop place)) := by
  let others := gs.drop place
  let count := zerosAtStart others
  have zeros : others.takeWhile (· = 0) = List.replicate count 0 :=
    List.eq_replicate_of_mem fun g hg => by simpa using List.mem_takeWhile_imp hg
  have parts : others = List.replicate count 0 ++ others.dropWhile (· = 0) := by
    rw [← zeros, List.takeWhile_append_dropWhile]
  have behind : others.drop count = others.dropWhile (· = 0) := by
    conv =>
      lhs
      rw [parts]
    exact List.drop_left' List.length_replicate
  have length : count ≤ others.length := (List.takeWhile_sublist _).length_le
  constructor
  · have : others.length = gs.length - place := List.length_drop
    show place + count ≤ gs.length
    omega
  · show gs = gs.take place ++ List.replicate count 0 ++ gs.drop (place + count)
    rw [← List.drop_drop, List.append_assoc, behind, ← parts, List.take_append_drop]

theorem hasZeros_longestZeros (gs : List UInt16) : HasZeros gs (longestZeros gs) := by
  unfold longestZeros
  have inside : ∀ i ∈ List.range gs.length, i ≤ gs.length :=
    fun i hi => Nat.le_of_lt (List.mem_range.mp hi)
  have none : HasZeros gs (0, 0) := ⟨Nat.zero_le _, rfl⟩
  generalize List.range gs.length = places at inside
  generalize ((0 : Nat), (0 : Nat)) = best at none
  induction places generalizing best with
  | nil => exact none
  | cons i places ih =>
    obtain ⟨first, others⟩ := List.forall_mem_cons.mp inside
    refine ih others _ ?_
    dsimp only
    split
    · exact hasZeros_zerosAtStart first
    · exact none

/-- The text of a host with an embedded four-byte host. -/
theorem host_mapped (g h : UInt16) (v : Vector UInt16 8)
    (groups : v.toList = [0, 0, 0, 0, 0, 0xFFFF, g, h]) (apart : NoDigit 10 rest) :
    host ("::ffff:".toList ++ (pointed (g / 256).toUInt8 g.toUInt8 (h / 256).toUInt8 h.toUInt8 ++
      rest)) = some (v, rest) := by
  let bytes := pointed (g / 256).toUInt8 g.toUInt8 (h / 256).toUInt8 h.toUInt8 ++ rest
  have four : Nat.toDigits 16 (0xFFFF : UInt16).toNat = ['f', 'f', 'f', 'f'] := by decide
  have ends : Ends (':' :: bytes) := ⟨':', bytes, rfl, .inl rfl⟩
  have none : Reader.groups true 8 (':' :: ':' :: ('f' :: 'f' :: 'f' :: 'f' :: ':' :: bytes)) =
      some (([], false), _) :=
    groups_row [] true 8 (by simp) ⟨':', _, rfl, .inl ⟨rfl, _, rfl⟩⟩
  have first : group true ('f' :: 'f' :: 'f' :: 'f' :: ':' :: bytes) =
      some (0xFFFF, ':' :: bytes) := by
    have := group_hex true 0xFFFF ends
    rwa [four] at this
  have noBytes : embedded true ('f' :: 'f' :: 'f' :: 'f' :: ':' :: bytes) = Option.none := by
    have := embedded_group true 0xFFFF ends
    rwa [four] at this
  have behind : Reader.groups true 7 ('f' :: 'f' :: 'f' :: 'f' :: ':' :: bytes) =
      some (([0xFFFF, g, h], true), rest) := by
    rw [groups_plain noBytes]
    apply orElse_some
    rw [bind_some first, bind_some (groups_bytes (by decide) _ _ _ _ apart), halves, halves]
    rfl
  show host (':' :: ':' :: ('f' :: 'f' :: 'f' :: 'f' :: ':' :: bytes)) = _
  unfold host
  rw [bind_some none]
  show (char ':' >>= fun _ => char ':' >>= fun _ => _) _ = _
  rw [bind_some (char_self ':' _), bind_some (char_self ':' _)]
  show (Reader.groups true 7 >>= _) _ = _
  rw [bind_some behind]
  show eight ([0, 0, 0, 0, 0, 0xFFFF, g, h]) rest = _
  rw [← groups, eight_toList]

/-- The text of a host with `::` for zeros between two rows of groups. -/
theorem host_rows (head tail : List UInt16) (few : head.length + tail.length < 8)
    (stops : Stops rest) : host (row true head ++ (':' :: ':' :: (row true tail ++ rest))) =
      eight (head ++ List.replicate (8 - head.length - tail.length) 0 ++ tail) rest := by
  have before := groups_row head true 8 (by omega)
    (⟨':', _, rfl, .inl ⟨rfl, _, rfl⟩⟩ : Stops (':' :: ':' :: (row true tail ++ rest)))
  have behind := groups_row tail true (7 - head.length) (by omega) stops
  unfold host
  rw [bind_some before]
  dsimp only
  rw [if_neg (by omega), if_neg Bool.false_ne_true, bind_some (char_self ':' _),
    bind_some (char_self ':' _), bind_some behind]

/-- **A host is read** from its text. -/
theorem host_hostText (v : Vector UInt16 8) (stops : Stops rest) :
    host ((hostText v.toList).toList ++ rest) = some (v, rest) := by
  unfold hostText
  split
  · next g h groups =>
    rw [String.toList_append, toList_fourBytesText, List.append_assoc]
    exact host_mapped g h v groups stops.ends.noDigit.2
  · obtain ⟨inside, zeros⟩ := hasZeros_longestZeros v.toList
    generalize longestZeros v.toList = best at inside zeros
    obtain ⟨place, count⟩ := best
    dsimp only at inside zeros ⊢
    split
    · next several =>
      have before : (v.toList.take place).length = place :=
        List.length_take_of_le (by omega)
      have behind : (v.toList.drop (place + count)).length = 8 - (place + count) := by
        rw [List.length_drop, v.length_toList]
      have missing : 8 - place - (8 - (place + count)) = count := by
        rw [v.length_toList] at inside
        omega
      have two : "::".toList = [':', ':'] := rfl
      rw [String.toList_append, String.toList_append, toList_groupsText, toList_groupsText, two]
      simp only [List.append_assoc, List.cons_append, List.nil_append]
      rw [host_rows _ _ (by rw [before, behind]; omega) stops, before, behind, missing, ← zeros,
        eight_toList]
    · have all := groups_row v.toList true 8 (by simp) stops
      rw [toList_groupsText]
      unfold host
      rw [bind_some all]
      dsimp only
      rw [if_pos v.length_toList, eight_toList]

end Reader

open Reader

variable {rest : List Char}

/-! ## Addresses -/

theorem portNumber_decimal (n : UInt16) (apart : NoDigit 10 rest) :
    Reader.portNumber (':' :: (Nat.toDigits 10 n.toNat ++ rest)) = some (n, rest) := by
  obtain ⟨ds, spells⟩ := exists_spells 10 (by decide) n.toNat
  unfold Reader.portNumber
  rw [bind_some (char_self ':' _), bind_some (digits_spells (by decide) spells apart),
    bind_some (below_some spells n.toNat_lt), UInt16.ofNat_toNat]
  rfl

theorem scope_text (n : UInt32) :
    scope ((if n = 0 then "" else "%" ++ decimal n.toNat).toList ++ ']' :: rest) =
      some (n, ']' :: rest) := by
  obtain ⟨ds, spells⟩ := exists_spells 10 (by decide) n.toNat
  have apart : NoDigit 10 (']' :: rest) := noDigit_cons (by decide)
  unfold scope
  split
  · next zero =>
    rw [zero]
    exact orElse_none (bind_none (char_ne (by decide) rest))
  · rw [String.toList_append, toList_decimal]
    apply orElse_some
    show (char '%' >>= fun _ => _) ('%' :: (Nat.toDigits 10 n.toNat ++ ']' :: rest)) = _
    rw [bind_some (char_self '%' _), bind_some (digits_spells (by decide) spells apart),
      bind_some (below_some spells n.toNat_lt), UInt32.ofNat_toNat]
    rfl

/-- The text of an address is read if one of its two readers takes the whole of it. -/
theorem ofText?_eq {s : String} {a : Address}
    (h : (Reader.v4 <|> Reader.v6) s.toList = some (a, [])) : ofText? s = some a := by
  have run : (Reader.v4 <|> Reader.v6).run s.toList = some (a, []) := h
  unfold ofText?
  rw [run]

/-- **An address is read** from its text. -/
theorem ofText?_text (a : Address) : ofText? a.text = some a := by
  apply ofText?_eq
  cases a with
  | v4 a b c d n =>
    have behind : Reader.portNumber (':' :: (Nat.toDigits 10 n.toNat ++ [])) = some (n, []) :=
      portNumber_decimal n nofun
    rw [List.append_nil] at behind
    have written : (text (.v4 a b c d n)).toList =
        pointed a b c d ++ ':' :: Nat.toDigits 10 n.toNat := by
      rw [text, String.toList_append, String.toList_append, toList_fourBytesText, toList_decimal,
        List.append_assoc]
      rfl
    rw [written]
    apply orElse_some
    unfold Reader.v4
    rw [bind_some (fourBytes_pointed a b c d (noDigit_cons (by decide)))]
    exact bind_some behind
  | v6 v n k =>
    have behind : Reader.portNumber (':' :: (Nat.toDigits 10 k.toNat ++ [])) = some (k, []) :=
      portNumber_decimal k nofun
    rw [List.append_nil] at behind
    have stops : Stops ((if n = 0 then "" else "%" ++ decimal n.toNat).toList ++
        ']' :: ':' :: Nat.toDigits 10 k.toNat) := by
      split
      · exact ⟨']', _, rfl, .inr (.inl rfl)⟩
      · rw [String.toList_append]
        exact ⟨'%', _, rfl, .inr (.inr rfl)⟩
    have written : (text (.v6 v n k)).toList = '[' :: ((hostText v.toList).toList ++
        ((if n = 0 then "" else "%" ++ decimal n.toNat).toList ++
          ']' :: ':' :: Nat.toDigits 10 k.toNat)) := by
      unfold text
      simp only [String.toList_append, toList_decimal, List.append_assoc]
      rfl
    have noBytes : Reader.v4 (text (.v6 v n k)).toList = none := by
      rw [written]
      refine bind_none (fourBytes_none ?_)
      rw [splitDigits_apart (noDigit_cons (by decide))]
      simp
    rw [orElse_none noBytes, written]
    unfold Reader.v6
    rw [bind_some (char_self '[' _), bind_some (host_hostText v stops), bind_some (scope_text n),
      bind_some (char_self ']' _)]
    exact bind_some behind

end ChangeRelay.Address
