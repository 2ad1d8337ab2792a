/-!
# UTF-8

Texts as lists of bytes. `bytes` writes a text, `ofBytes?` reads one and refuses every list that
is no text's UTF-8 form.

* `ofBytes?_bytes`, `bytes_of_ofBytes?`: what `bytes` writes is read back, and nothing else is read.
* `bytes_append`: the bytes of two texts in a row are the two lists in a row.
* `bytes_ofList`: the bytes of a text are those of its characters in a row.
-/

namespace ChangeRelay.Text

/-- The UTF-8 bytes of a text. -/
def bytes (s : String) : List UInt8 := s.toUTF8.data.toList

/-- The text with these UTF-8 bytes, if they are the bytes of a text. -/
def ofBytes? (b : List UInt8) : Option String := String.fromUTF8? ⟨b.toArray⟩

theorem ofBytes?_bytes (s : String) : ofBytes? (bytes s) = some s := by
  have h : (⟨(bytes s).toArray⟩ : ByteArray) = s.toByteArray := by
    simp [bytes, String.toUTF8]
  unfold ofBytes?
  rw [h]
  simp only [String.fromUTF8?, s.isValidUTF8, dite_true]
  rfl

theorem bytes_of_ofBytes? {b : List UInt8} {s : String} (h : ofBytes? b = some s) :
    b = bytes s := by
  unfold ofBytes? String.fromUTF8? at h
  split at h
  · obtain rfl := Option.some.inj h
    rfl
  · nomatch h

theorem bytes_append (s t : String) : bytes (s ++ t) = bytes s ++ bytes t := by
  simp [bytes, String.toUTF8, String.toByteArray_append]

theorem bytes_ofList (cs : List Char) :
    bytes (String.ofList cs) = cs.flatMap String.utf8EncodeChar := by
  simp [bytes, String.toUTF8, List.utf8Encode]

theorem bytes_eq (s : String) : bytes s = s.toList.flatMap String.utf8EncodeChar := by
  rw [← bytes_ofList, String.ofList_toList]

theorem bytes_inj {s t : String} (h : bytes s = bytes t) : s = t := by
  have := ofBytes?_bytes s
  rw [h, ofBytes?_bytes] at this
  exact (Option.some.inj this).symm

end ChangeRelay.Text
