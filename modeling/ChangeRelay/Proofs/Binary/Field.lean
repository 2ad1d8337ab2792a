import ChangeRelay.Binary.Field

/-!
# Fields are read as they were written

Reading takes back what writing laid down: a number in its bytes, the key of a field, the content
behind it, and so any row of fields. `Plain` says which fields that holds for. A field whose
layout is taken for granted must have that layout, and the length of a content must fit the number
that it is written behind.

* **`readAll_writeAll`**: plain fields are read back, at any depth.
* `length_bytes_le`: no content is longer than what is written of all fields.
-/

namespace ChangeRelay.Field

/-- How a content is laid out. -/
def layoutOf : Content → Layout
  | .varint _ => .varint
  | .fixed64 _ => .fixed64
  | .fixed32 _ => .fixed32
  | .delimited _ => .delimited
  | .group => .groupStart

/-- What is written of a content behind the key. -/
def contentBytes : Content → List UInt8
  | .varint n => Varint.write n.toNat
  | .fixed64 n => littleEndian 8 n.toNat
  | .fixed32 n => littleEndian 4 n.toNat
  | .delimited bs => Varint.write bs.length ++ bs
  | .group => []

/-- A field that is read as it was written, if its content is short enough. -/
structure Plain (counted : List Nat) (f : Field) : Prop where
  pos : 0 < f.number
  lt : f.number < 0x20000000
  noGroup : f.content ≠ .group
  delimited : f.number ∈ counted → ∃ bs, f.content = .delimited bs

variable {limit : Nat} {counted : List Nat} {f : Field} {fs : List Field}

theorem write_eq (h : f.content ≠ .group) :
    f.write = writeKey f.number (layoutOf f.content) ++ contentBytes f.content := by
  unfold write
  cases hc : f.content with
  | varint n => rfl
  | fixed64 n => rfl
  | fixed32 n => rfl
  | delimited bs => exact List.append_assoc ..
  | group => exact absurd hc h

/-! ## Numbers in their bytes -/

theorem read_write_nat {n : Nat} (h : n < UInt64.size) (rest : List UInt8) :
    Varint.read (Varint.write n ++ rest) = some (UInt64.ofNat n, rest) := by
  have e : (UInt64.ofNat n).toNat = n := UInt64.toNat_ofNat_of_lt' h
  have := Varint.read_write (UInt64.ofNat n) rest
  rwa [e] at this

theorem takeBytes_append (bs rest : List UInt8) :
    takeBytes bs.length (bs ++ rest) = some (bs, rest) := by
  induction bs with
  | nil => rfl
  | cons b bs ih => simp [takeBytes, ih]

theorem length_littleEndian (count : Nat) : ∀ n, (littleEndian count n).length = count := by
  induction count with
  | zero => exact fun _ => rfl
  | succ count ih => exact fun n => congrArg Nat.succ (ih (n / 256))

theorem ofLittleEndian_littleEndian (count : Nat) : ∀ n, n < Nat.pow 256 count →
    ofLittleEndian (littleEndian count n) = n := by
  induction count with
  | zero =>
    intro n h
    obtain rfl : n = 0 := Nat.lt_one_iff.mp h
    rfl
  | succ count ih =>
    intro n h
    have hd : n / 256 < Nat.pow 256 count := by
      have : Nat.pow 256 (count + 1) = Nat.pow 256 count * 256 := rfl
      exact Nat.div_lt_of_lt_mul (by omega)
    have hb : (UInt8.ofNat (n % 256)).toNat = n % 256 :=
      Varint.toNat_ofNat (Nat.mod_lt n (by decide))
    have hi := ih (n / 256) hd
    unfold ofLittleEndian at hi
    unfold littleEndian ofLittleEndian
    rw [List.foldr_cons, hi, hb]
    exact Nat.mod_add_div n 256

/-! ## One field -/

theorem readKey_writeKey {number : Nat} (pos : 0 < number) (lt : number < 0x20000000)
    (layout : Layout) (rest : List UInt8) :
    readKey (writeKey number layout ++ rest) = some ((number, layout), rest) := by
  have code : layout.code < 8 := by cases layout <;> decide
  have size : 8 * number + layout.code < UInt64.size := by
    have : UInt64.size = 0x10000000000000000 := rfl
    omega
  have key : (UInt64.ofNat (8 * number + layout.code)).toNat = 8 * number + layout.code :=
    UInt64.toNat_ofNat_of_lt' size
  have fits : 8 * number + layout.code < UInt32.size ∧ 8 ≤ 8 * number + layout.code := by
    have : UInt32.size = 0x100000000 := rfl
    omega
  have mod : (8 * number + layout.code) % 8 = layout.code := by omega
  have div : (8 * number + layout.code) / 8 = number := by omega
  have known : Layout.ofCode? layout.code = some layout := by cases layout <;> rfl
  unfold readKey writeKey
  rw [read_write_nat size, Option.bind_some]
  simp only [key, if_pos fits, mod, div, known, Option.map_some]

theorem readContent_contentBytes {c : Content} (noGroup : c ≠ .group)
    (short : ∀ bs, c = .delimited bs → bs.length < UInt64.size) (rest : List UInt8) :
    readContent (layoutOf c) (contentBytes c ++ rest) = some (c, rest) := by
  cases c with
  | varint n =>
    simp only [layoutOf, contentBytes, readContent, Varint.read_write, Option.map_some]
  | fixed64 n =>
    have taken := takeBytes_append (littleEndian 8 n.toNat) rest
    rw [length_littleEndian] at taken
    have value := ofLittleEndian_littleEndian 8 n.toNat n.toNat_lt
    simp only [layoutOf, contentBytes, readContent, taken, Option.map_some, value,
      UInt64.ofNat_toNat]
  | fixed32 n =>
    have taken := takeBytes_append (littleEndian 4 n.toNat) rest
    rw [length_littleEndian] at taken
    have value := ofLittleEndian_littleEndian 4 n.toNat n.toNat_lt
    simp only [layoutOf, contentBytes, readContent, taken, Option.map_some, value,
      UInt32.ofNat_toNat]
  | delimited bs =>
    have size := short bs rfl
    have count : (UInt64.ofNat bs.length).toNat = bs.length := UInt64.toNat_ofNat_of_lt' size
    simp only [layoutOf, contentBytes, readContent, List.append_assoc, read_write_nat size,
      Option.bind_some, count, takeBytes_append, Option.map_some]
  | group => exact absurd rfl noGroup

/-! ## Rows of fields -/

theorem readFrom_nil : readFrom limit counted [] [] = some [] := by
  rw [readFrom]
  rfl

/-- A field outside of groups is read before those behind it. -/
theorem readFrom_cons {bs rest rest' : List UInt8} {number : Nat} {layout layout' : Layout}
    {c : Content} (pos : 0 < limit) (key : readKey bs = some ((number, layout), rest))
    (granted : (if counted.contains number then .delimited else layout) = layout')
    (content : readContent layout' rest = some (c, rest')) :
    readFrom limit counted [] bs =
      (readFrom limit counted [] rest').map (⟨number, c⟩ :: ·) := by
  rw [readFrom]
  split
  · next none => rw [key] at none; exact absurd none (by simp)
  · next number' layout'' rest'' some =>
    rw [key] at some
    obtain ⟨⟨rfl, rfl⟩, rfl⟩ : (number = number' ∧ layout = layout'') ∧ rest = rest'' := by
      simpa using some
    simp only [List.isEmpty_nil, Bool.true_and, granted]
    cases layout' with
    | groupStart => exact absurd content (by simp [readContent])
    | groupEnd => exact absurd content (by simp [readContent])
    | varint => simp only [List.length_nil, if_pos pos]; split <;> simp_all
    | fixed64 => simp only [List.length_nil, if_pos pos]; split <;> simp_all
    | fixed32 => simp only [List.length_nil, if_pos pos]; split <;> simp_all
    | delimited => simp only [List.length_nil, if_pos pos]; split <;> simp_all

theorem Plain.granted (h : f.Plain counted) :
    (if counted.contains f.number then .delimited else layoutOf f.content) =
      layoutOf f.content := by
  split
  · next hc =>
    obtain ⟨bs, hb⟩ := h.delimited (List.contains_iff_mem.mp hc)
    rw [hb]
    rfl
  · rfl

/-- No content is longer than what is written of all fields. -/
theorem length_bytes_le {bs : List UInt8} (hf : f ∈ fs) (hb : f.content = .delimited bs) :
    bs.length ≤ (writeAll fs).length := by
  obtain ⟨before, after, rfl⟩ := List.append_of_mem hf
  have noGroup : f.content ≠ .group := by simp [hb]
  simp only [writeAll, List.flatMap_append, List.flatMap_cons, List.length_append,
    write_eq noGroup, hb, contentBytes]
  omega

/-- **Plain fields are read back**, at any depth. -/
theorem readAll_writeAll (pos : 0 < limit) (plain : ∀ f ∈ fs, f.Plain counted)
    (short : (writeAll fs).length < UInt64.size) :
    readAll limit counted (writeAll fs) = some fs := by
  have size : ∀ f ∈ fs, ∀ bs, f.content = .delimited bs → bs.length < UInt64.size :=
    fun f hf bs hb => Nat.lt_of_le_of_lt (length_bytes_le hf hb) short
  clear short
  unfold readAll
  induction fs with
  | nil => exact readFrom_nil
  | cons f fs ih =>
    have hf := plain f (by simp)
    have row : writeAll (f :: fs) =
        writeKey f.number (layoutOf f.content) ++ (contentBytes f.content ++ writeAll fs) := by
      rw [← List.append_assoc, ← write_eq hf.noGroup]
      rfl
    have key := readKey_writeKey hf.pos hf.lt (layoutOf f.content)
      (contentBytes f.content ++ writeAll fs)
    have content := readContent_contentBytes hf.noGroup (size f (by simp)) (writeAll fs)
    rw [row, readFrom_cons pos key hf.granted content,
      ih (fun g hg => plain g (by simp [hg])) fun g hg => size g (by simp [hg])]
    rfl

end ChangeRelay.Field
