import ChangeRelay.Collections.TextSet
import ChangeRelay.Text.Utf8
import Mathlib.Data.List.Dedup

/-!
# Texts in the order of their bytes

Texts are compared character by character, and their bytes byte by byte. Both give one order, since a
character with a greater code is written with greater bytes: more of them behind a greater first one,
or as many with greater digits. So a set of texts is listed in the order of their bytes.

* **`bytes_le_bytes`**: texts stand in the order of their bytes.
* **`TextSet.toList_ofList_eq`**: the set of a list of texts lists them by their bytes, each once.
-/

namespace ChangeRelay

namespace Text

/-! ## Characters -/

/-- The bytes of a character, by how many they are: behind the first one there stand digits of its
code to the base 64. -/
theorem toNat_utf8EncodeChar (c : Char) :
    (c.val.toNat ≤ 0x7f ∧ (String.utf8EncodeChar c).map UInt8.toNat = [c.val.toNat]) ∨
    ((0x7f < c.val.toNat ∧ c.val.toNat ≤ 0x7ff) ∧ (String.utf8EncodeChar c).map UInt8.toNat =
      [c.val.toNat / 64 + 192, c.val.toNat % 64 + 128]) ∨
    ((0x7ff < c.val.toNat ∧ c.val.toNat ≤ 0xffff) ∧ (String.utf8EncodeChar c).map UInt8.toNat =
      [c.val.toNat / 4096 + 224, c.val.toNat / 64 % 64 + 128, c.val.toNat % 64 + 128]) ∨
    ((0xffff < c.val.toNat ∧ c.val.toNat < 0x110000) ∧ (String.utf8EncodeChar c).map UInt8.toNat =
      [c.val.toNat / 262144 + 240, c.val.toNat / 4096 % 64 + 128, c.val.toNat / 64 % 64 + 128,
        c.val.toNat % 64 + 128]) := by
  have small : c.val.toNat < 0x110000 := by
    rcases c.valid with h | h
    · have : c.val.toNat < 0xd800 := h
      omega
    · exact h.2
  generalize hv : c.val.toNat = v at *
  unfold String.utf8EncodeChar
  simp only [hv]
  by_cases one : v ≤ 0x7f
  · refine .inl ⟨one, ?_⟩
    simp [one]
    omega
  · by_cases two : v ≤ 0x7ff
    · refine .inr (.inl ⟨⟨by omega, two⟩, ?_⟩)
      simp [one, two]
      omega
    · by_cases three : v ≤ 0xffff
      · refine .inr (.inr (.inl ⟨⟨by omega, three⟩, ?_⟩))
        simp [one, two, three]
        omega
      · refine .inr (.inr (.inr ⟨⟨by omega, small⟩, ?_⟩))
        simp [one, two, three]
        omega

/-- Numbers are compared by their digits to the base 64, the first four of them in one. -/
theorem digits_lt {m n : Nat} (h : m < n) :
    m / 262144 < n / 262144 ∨ m / 262144 = n / 262144 ∧
      (m / 4096 % 64 < n / 4096 % 64 ∨ m / 4096 % 64 = n / 4096 % 64 ∧
        (m / 64 % 64 < n / 64 % 64 ∨ m / 64 % 64 = n / 64 % 64 ∧ m % 64 < n % 64)) := by
  omega

theorem lt_of_map_toNat_lt : ∀ {as bs : List UInt8},
    as.map UInt8.toNat < bs.map UInt8.toNat → as < bs
  | as, [], h => absurd h (List.not_lt_nil _)
  | [], b :: bs, _ => List.nil_lt_cons b bs
  | a :: as, b :: bs, h => by
    rw [List.map_cons, List.map_cons, List.cons_lt_cons_iff] at h
    rw [List.cons_lt_cons_iff, UInt8.lt_iff_toNat_lt, ← UInt8.toNat_inj]
    exact h.imp_right fun h => ⟨h.1, lt_of_map_toNat_lt h.2⟩

/-- Of two characters the bytes are compared as the characters are, whatever stands behind them. -/
theorem utf8EncodeChar_lt {c d : Char} (h : c < d) (s t : List UInt8) :
    String.utf8EncodeChar c ++ s < String.utf8EncodeChar d ++ t := by
  have lt : c.val.toNat < d.val.toNat := UInt32.lt_iff_toNat_lt.mp h
  have digits := digits_lt lt
  refine lt_of_map_toNat_lt ?_
  rw [List.map_append, List.map_append]
  rcases toNat_utf8EncodeChar c with ⟨hc, ec⟩ | ⟨hc, ec⟩ | ⟨hc, ec⟩ | ⟨hc, ec⟩ <;>
    rcases toNat_utf8EncodeChar d with ⟨hd, ed⟩ | ⟨hd, ed⟩ | ⟨hd, ed⟩ | ⟨hd, ed⟩ <;>
    simp only [ec, ed, List.cons_append, List.nil_append, List.cons_lt_cons_iff] <;>
    omega

/-! ## Texts -/

theorem flatMap_utf8EncodeChar_lt : ∀ {cs ds : List Char}, cs < ds →
    cs.flatMap String.utf8EncodeChar < ds.flatMap String.utf8EncodeChar
  | cs, [], h => absurd h (List.not_lt_nil cs)
  | [], d :: ds, _ => by
    obtain ⟨b, bs, hd⟩ := List.exists_cons_of_ne_nil (String.utf8EncodeChar_ne_nil (c := d))
    rw [List.flatMap_nil, List.flatMap_cons, hd]
    exact List.nil_lt_cons _ _
  | c :: cs, d :: ds, h => by
    rw [List.flatMap_cons, List.flatMap_cons]
    rcases List.cons_lt_cons_iff.mp h with first | ⟨rfl, rest⟩
    · exact utf8EncodeChar_lt first _ _
    · exact List.append_left_lt (flatMap_utf8EncodeChar_lt rest)

theorem bytes_lt_of_lt {s t : String} (h : s < t) : bytes s < bytes t := by
  rw [bytes_eq, bytes_eq]
  exact flatMap_utf8EncodeChar_lt h

/-- **Texts stand in the order of their bytes.** -/
theorem bytes_le_bytes {s t : String} : bytes s ≤ bytes t ↔ s ≤ t := by
  rw [← List.not_lt, ← String.not_lt]
  refine not_congr ⟨fun h => ?_, bytes_lt_of_lt⟩
  refine Decidable.byContradiction fun not => ?_
  by_cases same : s = t
  · exact List.lt_irrefl _ (same ▸ h)
  · have lt : s < t := Decidable.byContradiction fun not' =>
      same (String.le_antisymm (String.not_lt.mp not) (String.not_lt.mp not'))
    exact List.lt_asymm h (bytes_lt_of_lt lt)

/-- The texts of a list by their bytes, each once. -/
def sorted (ts : List String) : List String :=
  ts.dedup.mergeSort fun s t => decide (bytes s ≤ bytes t)

end Text

/-! ## Sets of texts -/

/-- **The set of a list of texts lists them by their bytes, each once.** -/
theorem TextSet.toList_ofList_eq (ts : List String) : (TextSet.ofList ts).toList = Text.sorted ts := by
  have once : (TextSet.ofList ts).toList.Nodup :=
    List.nodup_iff_pairwise_ne.mpr ((TextSet.ofList ts).sorted.imp fun h e => by
      rw [e] at h
      exact String.lt_irrefl _ h)
  have same : (TextSet.ofList ts).toList.Perm (Text.sorted ts) := by
    refine List.Perm.trans ?_ (List.mergeSort_perm _ _).symm
    refine (List.perm_ext_iff_of_nodup once (List.nodup_dedup ts)).mpr fun t => ?_
    rw [List.mem_dedup]
    exact TextSet.mem_ofList
  have inOrder : (Text.sorted ts).Pairwise (· ≤ ·) := by
    refine (List.pairwise_mergeSort ?_ ?_ _).imp fun h => Text.bytes_le_bytes.mp (of_decide_eq_true h)
    · simp only [Text.bytes_le_bytes, decide_eq_true_eq]
      exact fun _ _ _ => String.le_trans
    · simp only [Text.bytes_le_bytes, Bool.or_eq_true, decide_eq_true_eq]
      exact String.le_total
  refine same.eq_of_pairwise (fun _ _ _ _ => String.le_antisymm) ?_ inOrder
  exact (TextSet.ofList ts).sorted.imp fun h => String.not_lt.mp (String.lt_asymm h)

end ChangeRelay
