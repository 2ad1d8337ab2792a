import ChangeRelay.Http.Request
import Mathlib.Data.List.TakeWhile

/-!
# Every source has a path

A source may be named by any text, and the path of its stream has to name it. With every byte of the
name escaped there is nothing in the path that could end it or part it, and the escapes stand for
the bytes they were made of. An empty name is left out of it, unless the router takes it for one.

* `percentDecode_percentEncode`: escaped bytes come back.
* **`names_targetOf`**: the path of a source names it.
* **`exists_names_iff`**: which sources have a path.
-/

namespace ChangeRelay.Http

/-- The path of a target is that of the stream of a source. -/
def Names (router : Router) (target : String) (source : String) : Prop :=
  ∃ segment, Endpoint.ofTarget? router target = some (.events (some segment)) ∧
    Text.ofBytes? (percentDecode (Text.bytes segment)) = some source

/-- The character of a hexadecimal digit. -/
def hexChar (k : Nat) : Char := if k < 10 then Char.ofNat (48 + k) else Char.ofNat (55 + k)

/-- Bytes with every one escaped. -/
def percentEncode (bs : List UInt8) : List Char :=
  bs.flatMap fun b => ['%', hexChar (b.toNat / 16), hexChar (b.toNat % 16)]

/-- The path of a source. -/
def targetOf (source : String) : String :=
  String.ofList ("/sources/".toList ++ percentEncode (Text.bytes source) ++ "/events".toList)

/-! ## Escapes -/

/-- The byte of a hexadecimal digit. -/
def hexByte (k : Nat) : UInt8 := if k < 10 then UInt8.ofNat (48 + k) else UInt8.ofNat (55 + k)

theorem utf8_hexChar : ∀ k, k < 16 → String.utf8EncodeChar (hexChar k) = [hexByte k] := by decide

theorem hexDigit?_hexByte : ∀ k, k < 16 → hexDigit? (hexByte k) = some (UInt8.ofNat k) := by decide

theorem bytes_percentEncode (b : UInt8) (bs : List UInt8) :
    (percentEncode (b :: bs)).flatMap String.utf8EncodeChar =
      0x25 :: hexByte (b.toNat / 16) :: hexByte (b.toNat % 16) ::
        (percentEncode bs).flatMap String.utf8EncodeChar := by
  have high : b.toNat / 16 < 16 := by
    have := b.toNat_lt
    omega
  have low : b.toNat % 16 < 16 := Nat.mod_lt _ (by decide)
  unfold percentEncode
  rw [List.flatMap_cons, List.flatMap_append, List.flatMap_cons, List.flatMap_cons,
    List.flatMap_cons, utf8_hexChar _ high, utf8_hexChar _ low]
  rfl

/-- Escaped bytes come back. -/
theorem percentDecode_percentEncode (bs : List UInt8) :
    percentDecode ((percentEncode bs).flatMap String.utf8EncodeChar) = bs := by
  induction bs with
  | nil => rfl
  | cons b bs ih =>
    have small := b.toNat_lt
    have high := hexDigit?_hexByte (b.toNat / 16) (by omega)
    have low := hexDigit?_hexByte (b.toNat % 16) (Nat.mod_lt _ (by decide))
    have whole : 16 * UInt8.ofNat (b.toNat / 16) + UInt8.ofNat (b.toNat % 16) = b := by
      have sixteen : (16 : UInt8).toNat = 16 := rfl
      rw [← UInt8.toNat_inj, UInt8.toNat_add, UInt8.toNat_mul, UInt8.toNat_ofNat',
        UInt8.toNat_ofNat', sixteen]
      omega
    rw [bytes_percentEncode, percentDecode, high, low, ih]
    simp only [whole]

/-! ## Paths -/

theorem segments_cons (cs : List Char) : ∃ s ss, segments cs = s :: ss := by
  induction cs with
  | nil => exact ⟨[], [], rfl⟩
  | cons c cs ih =>
    obtain ⟨s, ss, h⟩ := ih
    unfold segments
    rw [h]
    by_cases slash : c = '/'
    · exact ⟨[], s :: ss, if_pos slash⟩
    · exact ⟨c :: s, ss, if_neg slash⟩

theorem segments_slash {cs : List Char} (h : '/' ∉ cs) (rest : List Char) :
    segments (cs ++ '/' :: rest) = cs :: segments rest := by
  induction cs with
  | nil =>
    obtain ⟨s, ss, hs⟩ := segments_cons rest
    rw [List.nil_append, segments, hs]
    exact if_pos rfl
  | cons c cs ih =>
    rw [List.mem_cons, not_or] at h
    rw [List.cons_append, segments, ih h.2]
    exact if_neg (Ne.symm h.1)

theorem segments_last {cs : List Char} (h : '/' ∉ cs) : segments cs = [cs] := by
  induction cs with
  | nil => rfl
  | cons c cs ih =>
    rw [List.mem_cons, not_or] at h
    rw [segments, ih h.2]
    exact if_neg (Ne.symm h.1)

/-- There is nothing in an escaped text that ends a path or parts it. -/
theorem mem_percentEncode {bs : List UInt8} {c : Char} (h : c ∈ percentEncode bs) :
    c ≠ '/' ∧ c ≠ '?' ∧ c ≠ '#' := by
  have digit : ∀ k, k < 16 → hexChar k ≠ '/' ∧ hexChar k ≠ '?' ∧ hexChar k ≠ '#' := by decide
  obtain ⟨b, -, hc⟩ := List.mem_flatMap.mp h
  have small := b.toNat_lt
  simp only [List.mem_cons, List.not_mem_nil, or_false] at hc
  rcases hc with rfl | rfl | rfl
  · decide
  · exact digit _ (by omega)
  · exact digit _ (Nat.mod_lt _ (by decide))

theorem path_targetOf (source : String) : path (targetOf source) =
    "/sources/".toList ++ percentEncode (Text.bytes source) ++ "/events".toList := by
  have before : ("/sources/".toList.all fun c => c ≠ '?' && c ≠ '#') = true := by decide
  have behind : ("/events".toList.all fun c => c ≠ '?' && c ≠ '#') = true := by decide
  have plain : ∀ c ∈ "/sources/".toList ++ percentEncode (Text.bytes source) ++ "/events".toList,
      (c ≠ '?' && c ≠ '#') = true := by
    intro c hc
    rcases List.mem_append.mp hc with hc | hc
    · rcases List.mem_append.mp hc with hc | hc
      · exact List.all_eq_true.mp before c hc
      · simp [(mem_percentEncode hc).2]
    · exact List.all_eq_true.mp behind c hc
  unfold path targetOf
  rw [String.toList_ofList]
  exact List.takeWhile_eq_self_iff.mpr plain

/-- A name with a byte in it is escaped to one that any router takes. -/
theorem names_percentEncode {router : Router} {source : String}
    (named : router.takesEmpty = true ∨ source ≠ "") :
    router.names (String.ofList (percentEncode (Text.bytes source))) = true := by
  rcases named with takes | named
  · simp [Router.names, takes]
  · have some_ : (String.ofList (percentEncode (Text.bytes source))).isEmpty = false := by
      refine Bool.eq_false_iff.mpr fun empty => named ?_
      have none : percentEncode (Text.bytes source) = [] := by simpa using empty
      have decoded : percentDecode [] = Text.bytes source := by
        rw [← percentDecode_percentEncode (Text.bytes source), none]
        rfl
      exact Text.bytes_inj decoded.symm
    simp [Router.names, some_]

/-- **The path of a source names it.** -/
theorem names_targetOf {router : Router} {source : String}
    (named : router.takesEmpty = true ∨ source ≠ "") : Names router (targetOf source) source := by
  have noSlash : '/' ∉ percentEncode (Text.bytes source) := fun h => (mem_percentEncode h).1 rfl
  have parts : segments (path (targetOf source)) =
      [[], "sources".toList, percentEncode (Text.bytes source), "events".toList] := by
    have whole : path (targetOf source) = [] ++ '/' :: ("sources".toList ++
        '/' :: (percentEncode (Text.bytes source) ++ '/' :: "events".toList)) := by
      rw [path_targetOf, List.append_assoc]
      rfl
    rw [whole, segments_slash (by decide), segments_slash (by decide), segments_slash noSlash,
      segments_last (by decide)]
  refine ⟨String.ofList (percentEncode (Text.bytes source)), ?_, ?_⟩
  · unfold Endpoint.ofTarget?
    rw [parts]
    exact if_pos (names_percentEncode named)
  · rw [Text.bytes_ofList, percentDecode_percentEncode, Text.ofBytes?_bytes]

/-- A part of a path that names a source is one that the router takes. -/
theorem names_of_ofTarget? {router : Router} {target segment : String}
    (h : Endpoint.ofTarget? router target = some (.events (some segment))) :
    router.names segment = true := by
  unfold Endpoint.ofTarget? at h
  split at h
  · nomatch h
  · nomatch h
  · nomatch h
  · split at h
    · next named =>
      obtain rfl := Option.some.inj (Endpoint.events.inj (Option.some.inj h))
      exact named
    · nomatch h
  · nomatch h

theorem percentDecode_eq_nil {bs : List UInt8} (h : percentDecode bs = []) : bs = [] := by
  unfold percentDecode at h
  split at h
  · split at h <;> nomatch h
  · nomatch h
  · rfl

/-- **A source has a path** if it has a name, or if the router takes an empty one. -/
theorem exists_names_iff {router : Router} {source : String} :
    (∃ target, Names router target source) ↔ router.takesEmpty = true ∨ source ≠ "" := by
  refine ⟨?_, fun named => ⟨_, names_targetOf named⟩⟩
  rintro ⟨target, segment, asked, decoded⟩
  rcases Bool.or_eq_true_iff.mp (names_of_ofTarget? asked) with takes | some_
  · exact .inl takes
  · right
    rintro rfl
    have none : Text.bytes segment = [] := percentDecode_eq_nil (Text.bytes_of_ofBytes? decoded)
    obtain rfl : segment = "" := Text.bytes_inj none
    exact absurd some_ (by decide)

/-- The path of a source without a name is one for some routers, and no path for the others. -/
example : targetOf "" = "/sources//events" ∧
    Endpoint.ofTarget? ⟨true⟩ (targetOf "") = some (.events (some "")) ∧
    Endpoint.ofTarget? ⟨false⟩ (targetOf "") = none := by
  decide +kernel

end ChangeRelay.Http
