import ChangeRelay.Proofs.Json.Numeral
import ChangeRelay.Proofs.Json.Pieces

/-!
# The grammar of texts

`Spells l n j bs` says that the bytes spell the tree `j`, in any of the ways in which it can be
written: with any blanks between the tokens, with any escapes in strings, and with either letter
before an exponent. It also says that they may stand inside `n` arrays and objects under the limits
of a reader.

The reader keeps what it is inside of on a stack, so what is shown of a text is that it takes the
reader, whatever its stack, to where it has the tree.

* **`reads_of_spells`**: that holds of every text of the grammar.
* **`readPrefix_of_spells`**, **`read?_of_spells`**: so a tree is what each of its texts is read as.
-/

namespace ChangeRelay.Json

open Reader Piece

/-- One more array or object may stand inside `n` of them. -/
def Limits.HasRoom (l : Limits) (n : Nat) : Prop := ∀ most, l.depth = some most → n < most

/-! ## Texts -/

/-- Blanks between tokens. -/
abbrev Blanks := { ws : List UInt8 // ∀ b ∈ ws, isBlank b = true }

/-- No blanks. -/
def Blanks.none : Blanks := ⟨[], nofun⟩

/-- A tree with a text, and the blanks around it. -/
structure Slot where
  before : Blanks
  tree : Json
  core : List UInt8
  behind : Blanks

def Slot.bytes (s : Slot) : List UInt8 := s.before.val ++ (s.core ++ s.behind.val)

/-- A member of an object: the pieces of its name, the blanks around it, and its value. -/
structure Member where
  before : Blanks
  name : List Piece
  behind : Blanks
  value : Slot

namespace Member

def bytes (m : Member) : List UInt8 :=
  m.before.val ++ (quoted m.name ++ (m.behind.val ++ 0x3A :: m.value.bytes))

def entry (m : Member) : Option String × Json := (spelled? m.name, m.value.tree)

end Member

/-- Texts with commas between them. -/
def commas : List (List UInt8) → List UInt8
  | [] => []
  | [bs] => bs
  | bs :: cs :: rest => bs ++ 0x2C :: commas (cs :: rest)

/-- The texts of a tree that may stand inside `n` arrays and objects. -/
inductive Spells (l : Limits) : Nat → Json → List UInt8 → Prop
  | null {n : Nat} : Spells l n .null [0x6E, 0x75, 0x6C, 0x6C]
  | true {n : Nat} : Spells l n (.bool true) [0x74, 0x72, 0x75, 0x65]
  | false {n : Nat} : Spells l n (.bool false) [0x66, 0x61, 0x6C, 0x73, 0x65]
  | number {n : Nat} {k : Numeral} {letter : UInt8} (proper : k.IsProper)
      (isE : letter = 0x65 ∨ letter = 0x45)
      (means : l.meaningful = true → k.number?.isSome = true) :
      Spells l n (.number k) (numeralBytes letter k)
  | string {n : Nat} (ps : List Piece)
      (means : l.meaningful = true → (spelled? ps).isSome = true) :
      Spells l n (.string (spelled? ps)) (quoted ps)
  | noItems {n : Nat} (room : l.HasRoom n) (ws : Blanks) :
      Spells l n (.array []) (0x5B :: (ws.val ++ [0x5D]))
  | array {n : Nat} {items : List Slot} (room : l.HasRoom n) (some : items ≠ [])
      (inside : ∀ i ∈ items, Spells l (n + 1) i.tree i.core) :
      Spells l n (.array (items.map Slot.tree)) (0x5B :: (commas (items.map Slot.bytes) ++ [0x5D]))
  | noMembers {n : Nat} (room : l.HasRoom n) (ws : Blanks) :
      Spells l n (.object []) (0x7B :: (ws.val ++ [0x7D]))
  | object {n : Nat} {members : List Member} (room : l.HasRoom n) (some : members ≠ [])
      (names : ∀ m ∈ members, l.meaningful = true → (spelled? m.name).isSome = true)
      (inside : ∀ m ∈ members, Spells l (n + 1) m.value.tree m.value.core) :
      Spells l n (.object (members.map Member.entry))
        (0x7B :: (commas (members.map Member.bytes) ++ [0x7D]))

namespace Reader

variable {l : Limits} {n : Nat} {stack : List Frame} {j : Json} {bs rest r : List UInt8} {b : UInt8}

theorem admits_of_hasRoom (h : l.HasRoom stack.length) : l.admits stack = true := by
  unfold Limits.admits
  cases hd : l.depth with
  | none => rfl
  | some most => exact decide_eq_true (h most hd)

/-! ## Blanks -/

theorem skipBlanks_cons (h : isBlank b = false) : skipBlanks (b :: r) = b :: r := by
  rw [skipBlanks, if_neg (by simp [h])]

theorem skipBlanks_append (ws : Blanks) (bs : List UInt8) :
    skipBlanks (ws.val ++ bs) = skipBlanks bs := by
  obtain ⟨ws, blank⟩ := ws
  induction ws with
  | nil => rfl
  | cons b ws ih =>
    obtain ⟨first, others⟩ := List.forall_mem_cons.mp blank
    show skipBlanks (b :: (ws ++ bs)) = _
    rw [skipBlanks, if_pos first]
    exact ih others

theorem skipBlanks_blanks (ws : Blanks) (h : isBlank b = false) :
    skipBlanks (ws.val ++ b :: r) = b :: r := by
  rw [skipBlanks_append, skipBlanks_cons h]

theorem apart_blanks (ws : Blanks) (apart : Apart rest) : Apart (ws.val ++ rest) := by
  obtain ⟨ws, blank⟩ := ws
  cases ws with
  | nil => exact apart
  | cons b ws =>
    have others : isBlank b = true → isDigit b = false ∧ b ≠ 0x2E ∧ b ≠ 0x65 ∧ b ≠ 0x45 := by
      unfold isBlank
      simp only [Bool.or_eq_true, beq_iff_eq]
      rintro (((rfl | rfl) | rfl) | rfl) <;> decide
    exact apart_cons (others (blank b (by simp)))

/-! ## One step of the reader -/

theorem read_scalar (starts : skipBlanks bs = b :: r) (array : b ≠ 0x5B) (object : b ≠ 0x7B)
    (h : scalar? (b :: r) = some (j, rest)) (allowed : l.allows j = true) :
    read l stack .value bs = read l stack (.after j) rest := by
  rw [read]
  split
  · next h' => exact absurd (List.cons.inj (starts.symm.trans h')).1 array
  · next h' => exact absurd (List.cons.inj (starts.symm.trans h')).1 object
  · split
    · next j' rest' h' =>
      rw [starts, h] at h'
      obtain ⟨rfl, rfl⟩ : j = j' ∧ rest = rest' := by simpa using h'
      rw [if_pos allowed]
    · next h' =>
      rw [starts, h] at h'
      exact absurd h' (by simp)

theorem read_noItems (room : l.HasRoom stack.length) (starts : skipBlanks bs = 0x5B :: r)
    (ends : skipBlanks r = 0x5D :: rest) :
    read l stack .value bs = read l stack (.after (.array [])) rest := by
  rw [read]
  split
  · next r' h =>
    obtain rfl : r = r' := (List.cons.inj (starts.symm.trans h)).2
    rw [if_pos (admits_of_hasRoom room)]
    split
    · next h' => rw [(List.cons.inj (ends.symm.trans h')).2]
    · next h' => exact absurd ends (h' rest)
  · next h => exact absurd (List.cons.inj (starts.symm.trans h)).1 (by decide)
  · next h _ => exact absurd starts (h _)

theorem read_array (room : l.HasRoom stack.length) (starts : skipBlanks bs = 0x5B :: r)
    (some : ∀ r', skipBlanks r ≠ 0x5D :: r') :
    read l stack .value bs = read l (.array [] :: stack) .value r := by
  rw [read]
  split
  · next r' h =>
    obtain rfl : r = r' := (List.cons.inj (starts.symm.trans h)).2
    rw [if_pos (admits_of_hasRoom room)]
    split
    · next h' => exact absurd h' (some _)
    · rfl
  · next h => exact absurd (List.cons.inj (starts.symm.trans h)).1 (by decide)
  · next h _ => exact absurd starts (h _)

theorem read_comma (done : List Json) (starts : skipBlanks bs = 0x2C :: r) :
    read l (.array done :: stack) (.after j) bs =
      read l (.array (j :: done) :: stack) .value r := by
  conv =>
    lhs
    rw [read]
  split
  · next h => rw [(List.cons.inj (starts.symm.trans h)).2]
  · next h => exact absurd (List.cons.inj (starts.symm.trans h)).1 (by decide)
  · next h _ => exact absurd starts (h _)

theorem read_array_end (done : List Json) (starts : skipBlanks bs = 0x5D :: r) :
    read l (.array done :: stack) (.after j) bs =
      read l stack (.after (.array (done.reverse ++ [j]))) r := by
  rw [read]
  split
  · next h => exact absurd (List.cons.inj (starts.symm.trans h)).1 (by decide)
  · next h => rw [(List.cons.inj (starts.symm.trans h)).2, List.reverse_cons]
  · next h => exact absurd starts (h _)

theorem read_noMembers (room : l.HasRoom stack.length) (starts : skipBlanks bs = 0x7B :: r)
    (ends : skipBlanks r = 0x7D :: rest) :
    read l stack .value bs = read l stack (.after (.object [])) rest := by
  rw [read]
  split
  · next h => exact absurd (List.cons.inj (starts.symm.trans h)).1 (by decide)
  · next r' h =>
    obtain rfl : r = r' := (List.cons.inj (starts.symm.trans h)).2
    rw [if_pos (admits_of_hasRoom room)]
    split
    · next h' => rw [(List.cons.inj (ends.symm.trans h')).2]
    · next h' => exact absurd ends (h' rest)
  · next h => exact absurd starts (h _)

theorem read_object (room : l.HasRoom stack.length) (starts : skipBlanks bs = 0x7B :: r)
    (some : ∀ r', skipBlanks r ≠ 0x7D :: r') :
    read l stack .value bs = read l stack (.key []) r := by
  rw [read]
  split
  · next h => exact absurd (List.cons.inj (starts.symm.trans h)).1 (by decide)
  · next r' h =>
    obtain rfl : r = r' := (List.cons.inj (starts.symm.trans h)).2
    rw [if_pos (admits_of_hasRoom room)]
    split
    · next h' => exact absurd h' (some _)
    · rfl
  · next h => exact absurd starts (h _)

theorem read_key (done : List (Option String × Json)) (before behind : Blanks) {ps : List Piece}
    (allowed : l.allows (.string (spelled? ps)) = true) :
    read l stack (.key done) (before.val ++ (quoted ps ++ (behind.val ++ 0x3A :: r))) =
      read l (.object done (spelled? ps) :: stack) .value r := by
  have starts : skipBlanks (before.val ++ (quoted ps ++ (behind.val ++ 0x3A :: r))) =
      0x22 :: (ps.flatMap bytes ++ 0x22 :: (behind.val ++ 0x3A :: r)) := by
    rw [skipBlanks_append, quoted, List.cons_append, List.append_assoc, List.singleton_append]
    exact skipBlanks_cons (by decide)
  have named := string?_quoted ps (behind.val ++ 0x3A :: r)
  have colon : skipBlanks (behind.val ++ 0x3A :: r) = 0x3A :: r :=
    skipBlanks_blanks behind (by decide)
  conv =>
    lhs
    rw [read]
  split
  · next r' h =>
    obtain rfl := (List.cons.inj (starts.symm.trans h)).2
    split
    · next key r'' h' =>
      obtain ⟨rfl, rfl⟩ : spelled? ps = key ∧ behind.val ++ 0x3A :: r = r'' := by
        simpa using named.symm.trans h'
      rw [if_pos allowed]
      split
      · next h'' => rw [(List.cons.inj (colon.symm.trans h'')).2]
      · next h'' => exact absurd colon (h'' r)
    · next h' => exact absurd (named.symm.trans h') (by simp)
  · next h => exact absurd starts (h _)

theorem read_member_comma (done : List (Option String × Json)) (key : Option String)
    (starts : skipBlanks bs = 0x2C :: r) :
    read l (.object done key :: stack) (.after j) bs =
      read l stack (.key ((key, j) :: done)) r := by
  rw [read]
  split
  · next h => rw [(List.cons.inj (starts.symm.trans h)).2]
  · next h => exact absurd (List.cons.inj (starts.symm.trans h)).1 (by decide)
  · next h _ => exact absurd starts (h _)

theorem read_object_end (done : List (Option String × Json)) (key : Option String)
    (starts : skipBlanks bs = 0x7D :: r) :
    read l (.object done key :: stack) (.after j) bs =
      read l stack (.after (.object (done.reverse ++ [(key, j)]))) r := by
  rw [read]
  split
  · next h => exact absurd (List.cons.inj (starts.symm.trans h)).1 (by decide)
  · next h => rw [(List.cons.inj (starts.symm.trans h)).2, List.reverse_cons]
  · next h => exact absurd starts (h _)

/-! ## Simple values -/

/-- From a text of a tree, with any blanks before it and whatever follows, the reader gets to where
it has the tree. -/
def Reads (l : Limits) (n : Nat) (j : Json) (bs : List UInt8) : Prop :=
  ∀ (stack : List Frame) (ws : Blanks) (rest : List UInt8), stack.length = n → Apart rest →
    read l stack .value (ws.val ++ (bs ++ rest)) = read l stack (.after j) rest

theorem reads_scalar (blank : isBlank b = false) (array : b ≠ 0x5B) (object : b ≠ 0x7B)
    (h : ∀ rest, Apart rest → scalar? (b :: (r ++ rest)) = some (j, rest))
    (allowed : l.allows j = true) : Reads l n j (b :: r) := by
  intro stack ws rest _ apart
  exact read_scalar (skipBlanks_blanks ws blank) array object (h rest apart) allowed

/-- A numeral starts with a digit or with a minus. -/
def StartsNumeral (b : UInt8) : Prop := b = 0x2D ∨ ∃ d : Digit, b = UInt8.ofNat (48 + d.val)

theorem starts_numeral {k : Numeral} (p : k.IsProper) (letter : UInt8) :
    ∃ b bs, numeralBytes letter k = b :: bs ∧ StartsNumeral b := by
  obtain ⟨d, ds, whole, -⟩ := p.whole
  rw [numeralBytes, whole]
  cases k.negative with
  | true => exact ⟨_, _, rfl, .inl rfl⟩
  | false => exact ⟨_, _, rfl, .inr ⟨d, rfl⟩⟩

/-- A digit or a minus is the start of nothing but a numeral. -/
theorem only_numeral (h : StartsNumeral b) :
    isBlank b = false ∧ b ≠ 0x5B ∧ b ≠ 0x7B ∧ b ≠ 0x5D ∧ (b == 0x22) = false ∧
      (b == 0x6E) = false ∧ (b == 0x74) = false ∧ (b == 0x66) = false := by
  rcases h with rfl | ⟨d, rfl⟩
  · decide
  · revert d
    decide

theorem allows_number {k : Numeral} (means : l.meaningful = true → k.number?.isSome = true) :
    l.allows (.number k) = true := by
  unfold Limits.allows
  cases hm : l.meaningful with
  | false => rfl
  | true => exact means hm

theorem allows_string {s : Option String} (means : l.meaningful = true → s.isSome = true) :
    l.allows (.string s) = true := by
  unfold Limits.allows
  cases hm : l.meaningful with
  | false => rfl
  | true => exact means hm

theorem reads_number {k : Numeral} {letter : UInt8} (p : k.IsProper)
    (isE : letter = 0x65 ∨ letter = 0x45)
    (means : l.meaningful = true → k.number?.isSome = true) :
    Reads l n (.number k) (numeralBytes letter k) := by
  have numeral (rest : List UInt8) (apart : Apart rest) := numeral_bytes p isE apart
  obtain ⟨b, bs, text, first⟩ := starts_numeral p letter
  obtain ⟨blank, array, object, -, quote, n, t, f⟩ := only_numeral first
  rw [text]
  refine reads_scalar blank array object (fun rest apart => ?_) (allows_number means)
  have read := numeral rest apart
  rw [text, List.cons_append] at read
  simp [scalar?, quote, n, t, f, read]

theorem reads_string (ps : List Piece)
    (means : l.meaningful = true → (spelled? ps).isSome = true) :
    Reads l n (.string (spelled? ps)) (quoted ps) := by
  refine reads_scalar (by decide) (by decide) (by decide) (fun rest _ => ?_) (allows_string means)
  rw [List.append_assoc, List.singleton_append]
  simp [scalar?, string?_quoted]

/-! ## Arrays and objects -/

theorem apart_end : Apart (0x5D :: rest) ∧ Apart (0x7D :: rest) ∧ Apart (0x2C :: rest) :=
  ⟨apart_cons (by decide), apart_cons (by decide), apart_cons (by decide)⟩

/-- A text of a tree starts with no blank and with no end of an array. -/
theorem starts (h : Spells l n j bs) :
    ∃ b r, bs = b :: r ∧ isBlank b = false ∧ b ≠ 0x5D := by
  cases h with
  | number proper =>
    obtain ⟨b, r, text, first⟩ := starts_numeral proper _
    have only := only_numeral first
    exact ⟨b, r, text, only.1, only.2.2.2.1⟩
  | _ => exact ⟨_, _, rfl, by decide, by decide⟩

theorem read_slot {s : Slot} (stack : List Frame) (rest : List UInt8)
    (h : Reads l stack.length s.tree s.core) (apart : Apart rest) :
    read l stack .value (s.bytes ++ rest) =
      read l stack (.after s.tree) (s.behind.val ++ rest) := by
  rw [Slot.bytes, List.append_assoc, List.append_assoc]
  exact h stack s.before _ rfl (apart_blanks s.behind apart)

theorem commas_cons (bs : List UInt8) (others : List (List UInt8)) :
    ∃ r, commas (bs :: others) = bs ++ r := by
  cases others with
  | nil => exact ⟨[], (List.append_nil bs).symm⟩
  | cons cs others => exact ⟨_, rfl⟩

theorem commas_cons_of_ne_nil (bs : List UInt8) {others : List (List UInt8)} (some : others ≠ []) :
    commas (bs :: others) = bs ++ 0x2C :: commas others := by
  obtain ⟨cs, others, rfl⟩ := List.exists_cons_of_ne_nil some
  rfl

/-- The items of an array, one after the other. -/
theorem read_items : ∀ (is : List Slot) (i : Slot) (done : List Json),
    (∀ i' ∈ i :: is, Reads l (stack.length + 1) i'.tree i'.core) →
      read l (.array done :: stack) .value
        (commas ((i :: is).map Slot.bytes) ++ 0x5D :: rest) =
          read l stack (.after (.array (done.reverse ++ (i :: is).map Slot.tree))) rest
  | [], i, done, inside => by
    have first := read_slot (.array done :: stack) (0x5D :: rest) (inside i (by simp)) apart_end.1
    show read l (.array done :: stack) .value (i.bytes ++ 0x5D :: rest) = _
    rw [first, read_array_end done (skipBlanks_blanks i.behind (by decide))]
    rfl
  | i' :: is, i, done, inside => by
    have first := read_slot (.array done :: stack)
      (0x2C :: (commas ((i' :: is).map Slot.bytes) ++ 0x5D :: rest)) (inside i (by simp))
      apart_end.2.2
    have others := read_items is i' (i.tree :: done)
      fun i hi => inside i (List.mem_cons_of_mem _ hi)
    show read l (.array done :: stack) .value
      ((i.bytes ++ 0x2C :: commas ((i' :: is).map Slot.bytes)) ++ 0x5D :: rest) = _
    rw [List.append_assoc, List.cons_append, first,
      read_comma done (skipBlanks_blanks i.behind (by decide)), others, List.reverse_cons,
      List.append_assoc]
    rfl

theorem read_member {m : Member} (done : List (Option String × Json)) (rest : List UInt8)
    (named : l.meaningful = true → (spelled? m.name).isSome = true)
    (h : Reads l (stack.length + 1) m.value.tree m.value.core) (apart : Apart rest) :
    read l stack (.key done) (m.bytes ++ rest) =
      read l (.object done m.entry.1 :: stack) (.after m.entry.2)
        (m.value.behind.val ++ rest) := by
  rw [Member.bytes]
  simp only [List.append_assoc, List.cons_append]
  rw [read_key done m.before m.behind (allows_string named)]
  exact read_slot (.object done (spelled? m.name) :: stack) rest h apart

/-- The members of an object, one after the other. -/
theorem read_members : ∀ (ms : List Member) (m : Member) (done : List (Option String × Json)),
    (∀ m' ∈ m :: ms, l.meaningful = true → (spelled? m'.name).isSome = true) →
    (∀ m' ∈ m :: ms, Reads l (stack.length + 1) m'.value.tree m'.value.core) →
      read l stack (.key done) (commas ((m :: ms).map Member.bytes) ++ 0x7D :: rest) =
        read l stack (.after (.object (done.reverse ++ (m :: ms).map Member.entry))) rest
  | [], m, done, named, inside => by
    have first := read_member done (0x7D :: rest) (named m (by simp)) (inside m (by simp))
      apart_end.2.1
    show read l stack (.key done) (m.bytes ++ 0x7D :: rest) = _
    rw [first, read_object_end done _ (skipBlanks_blanks m.value.behind (by decide))]
    rfl
  | m' :: ms, m, done, named, inside => by
    have first := read_member done (0x2C :: (commas ((m' :: ms).map Member.bytes) ++ 0x7D :: rest))
      (named m (by simp)) (inside m (by simp)) apart_end.2.2
    have others := read_members ms m' (m.entry :: done)
      (fun i hi => named i (List.mem_cons_of_mem _ hi))
      (fun i hi => inside i (List.mem_cons_of_mem _ hi))
    show read l stack (.key done)
      ((m.bytes ++ 0x2C :: commas ((m' :: ms).map Member.bytes)) ++ 0x7D :: rest) = _
    rw [List.append_assoc, List.cons_append, first,
      read_member_comma done _ (skipBlanks_blanks m.value.behind (by decide)), others,
      List.reverse_cons, List.append_assoc]
    rfl

theorem starts_items (i : Slot) (is : List Slot) (h : Spells l n i.tree i.core) :
    ∀ r, skipBlanks (commas ((i :: is).map Slot.bytes) ++ rest) ≠ 0x5D :: r := by
  obtain ⟨b, r, core, blank, other⟩ := starts h
  obtain ⟨others, text⟩ := commas_cons i.bytes (is.map Slot.bytes)
  intro r' h'
  rw [List.map_cons, text, Slot.bytes, core] at h'
  simp only [List.append_assoc, List.cons_append] at h'
  rw [skipBlanks_blanks i.before blank] at h'
  exact other (List.cons.inj h').1

theorem starts_members (m : Member) (ms : List Member) :
    ∀ r, skipBlanks (commas ((m :: ms).map Member.bytes) ++ rest) ≠ 0x7D :: r := by
  obtain ⟨others, text⟩ := commas_cons m.bytes (ms.map Member.bytes)
  intro r' h'
  rw [List.map_cons, text, Member.bytes, quoted] at h'
  simp only [List.append_assoc, List.cons_append] at h'
  rw [skipBlanks_blanks m.before (by decide)] at h'
  exact absurd (List.cons.inj h').1 (by decide)

/-- **A text of a tree is read**, by induction on how it spells the tree. -/
theorem reads_of_spells (h : Spells l n j bs) : Reads l n j bs := by
  induction h with
  | null => exact reads_scalar (by decide) (by decide) (by decide) (fun _ _ => rfl) rfl
  | true => exact reads_scalar (by decide) (by decide) (by decide) (fun _ _ => rfl) rfl
  | false => exact reads_scalar (by decide) (by decide) (by decide) (fun _ _ => rfl) rfl
  | number proper isE means => exact reads_number proper isE means
  | string ps means => exact reads_string ps means
  | noItems room blanks =>
    rintro stack ws rest rfl _
    have ends : skipBlanks (blanks.val ++ [0x5D] ++ rest) = 0x5D :: rest := by
      rw [List.append_assoc]
      exact skipBlanks_blanks blanks (by decide)
    exact read_noItems room (skipBlanks_blanks ws (by decide)) ends
  | @array n items room some inside ih =>
    rintro stack ws rest rfl _
    obtain ⟨i, is, rfl⟩ := List.exists_cons_of_ne_nil some
    rw [List.cons_append, List.append_assoc, List.singleton_append,
      read_array room (skipBlanks_blanks ws (by decide)) (starts_items i is (inside i (by simp)))]
    exact read_items is i [] ih
  | noMembers room blanks =>
    rintro stack ws rest rfl _
    have ends : skipBlanks (blanks.val ++ [0x7D] ++ rest) = 0x7D :: rest := by
      rw [List.append_assoc]
      exact skipBlanks_blanks blanks (by decide)
    exact read_noMembers room (skipBlanks_blanks ws (by decide)) ends
  | @object n members room some named inside ih =>
    rintro stack ws rest rfl _
    obtain ⟨m, ms, rfl⟩ := List.exists_cons_of_ne_nil some
    rw [List.cons_append, List.append_assoc, List.singleton_append,
      read_object room (skipBlanks_blanks ws (by decide)) (starts_members m ms)]
    exact read_members ms m [] named ih

end Reader

variable {l : Limits} {j : Json} {bs rest : List UInt8}

/-- **A tree is what each of its texts is read as**, with whatever follows it. -/
theorem readPrefix_of_spells (h : Spells l 0 j bs) (apart : Apart rest) :
    readPrefix l (bs ++ rest) = some (j, rest) := by
  have whole := reads_of_spells h [] .none rest rfl apart
  unfold readPrefix
  rw [show bs ++ rest = Blanks.none.val ++ (bs ++ rest) from rfl, whole, Reader.read]

/-- A whole text may have blanks around its tree. -/
theorem read?_of_spells {s : Slot} (h : Spells .none 0 s.tree s.core) :
    read? s.bytes = some s.tree := by
  have whole := reads_of_spells h [] s.before s.behind.val rfl
    (by simpa using apart_blanks s.behind apart_nil)
  have blank : skipBlanks s.behind.val = [] := by
    simpa [skipBlanks] using skipBlanks_append s.behind []
  unfold read? readPrefix
  rw [Slot.bytes, whole, Reader.read]
  simp [onlyBlanks, blank]

end ChangeRelay.Json
