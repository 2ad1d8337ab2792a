import ChangeRelay.Client.Dispatch
import ChangeRelay.Host.Calls
import ChangeRelay.Proofs.Json.Numeral
import ChangeRelay.Proofs.Result.Overlap
import ChangeRelay.Proofs.Wire.Checked
import ChangeRelay.Reaction.Step

/-!
# The number of a step goes beside its invocation

A client sends the number of a step in a header, under the key that ties an invocation to its cause.
The host takes it into the metadata, unless there is something under that key already. An invocation
then comes out of the host's checks as it went into the client, but for that entry.

* `header_headers`: the host reads the number from what the client sends.
* **`ofCall_wire`**: what a host is asked to handle is the tagged invocation.
* **`check_tagged`**: which passes its checks, if the invocation is good.
-/

namespace ChangeRelay

/-- The key under which clients and hosts put the number of a step if they are told nothing else. -/
def sequenceKey : String := "x-query-sequence"

/-- An invocation with the number of its step in its metadata. -/
def Invocation.tagged (i : Invocation) : Invocation :=
  { i with metadata := i.metadata.insertIfNew sequenceKey (decimal i.payload.sequence.toNat) }

/-- An invocation that a reaction handler accepts. -/
structure Reaction.Settings.Accepts (s : Reaction.Settings) (i : Invocation) : Prop where
  id : i.id ≠ ""
  query : i.query ≠ ""
  /-- Its query is served. -/
  served : s.queries.isEmpty = true ∨ s.queries.contains i.query = true
  apart : i.payload.Apart s.recordIdField

variable {i : Invocation}

/-! ## Tags -/

/-- What is there is kept. -/
theorem Invocation.tagged_of_some {v : String} (h : i.metadata.get? sequenceKey = some v) :
    i.tagged = i := by
  have there : i.metadata.contains sequenceKey = true := by rw [Dict.contains, h]; rfl
  unfold Invocation.tagged Dict.insertIfNew
  rw [if_pos there]

/-- Otherwise the number of the step comes in, and nothing else changes. -/
theorem Invocation.tagged_of_none (h : i.metadata.get? sequenceKey = none) : i.tagged =
    { i with metadata := i.metadata.insert sequenceKey (decimal i.payload.sequence.toNat) } := by
  have missing : ¬i.metadata.contains sequenceKey = true := by simp [Dict.contains, h]
  unfold Invocation.tagged Dict.insertIfNew
  rw [if_neg missing]

/-! ## Headers -/

namespace Host

theorem bytes_decimal (n : Nat) : Text.bytes (decimal n) =
    Json.Reader.digitBytes (Digits.ofNat n) := by
  have chars : (Numeral.ofInt n).chars = Digits.chars (Digits.ofNat n) := by
    simp [Numeral.ofInt, Numeral.chars, Numeral.exponentChars]
  unfold decimal Numeral.text
  rw [Text.bytes_ofList, chars, Json.Reader.flatMap_chars]

theorem isVisible_digit : ∀ d : Digit, Text.isVisible (UInt8.ofNat (48 + d.val)) = true := by
  decide

theorem isVisible_decimal (n : Nat) : (Text.bytes (decimal n)).all Text.isVisible = true := by
  rw [bytes_decimal, Json.Reader.digitBytes, List.all_map, List.all_eq_true]
  exact fun d _ => isVisible_digit d

theorem isHeaderByte_decimal (n : Nat) :
    (Text.bytes (decimal n)).all Text.isHeaderByte = true := by
  refine List.all_eq_true.mpr fun b hb => ?_
  rw [Text.isHeaderByte, List.all_eq_true.mp (isVisible_decimal n) b hb]
  rfl

theorem isTextHeaderName_sequenceKey : Text.isTextHeaderName sequenceKey = true := by
  have name : Text.isHeaderName sequenceKey = true := by decide +kernel
  have text : sequenceKey.endsWith "-bin" = false := by decide +kernel
  rw [Text.isTextHeaderName, name, text]
  rfl

/-- The host reads the number of the step from what the client sends. -/
theorem header_headers (i : Invocation) :
    header? (.ofList (Client.headers (some sequenceKey) i)) sequenceKey =
      some (decimal i.payload.sequence.toNat) := by
  have lower : sequenceKey.toLower = sequenceKey := by decide +kernel
  have entries (v : String) : (Dict.ofList [(sequenceKey, v)]).entries = [(sequenceKey, v)] := rfl
  simp only [Client.headers, lower, isTextHeaderName_sequenceKey, if_true, header?, entries,
    List.filter_cons, isHeaderByte_decimal, decide_true, Bool.true_and, List.filter_nil, List.getLast?_singleton,
    Option.map_some, Option.filter_some, isVisible_decimal]

theorem withHeaders_of_some {key value : String} {headers : Dict String}
    (h : header? headers key = some value) (i : Wire.Invocation) :
    withHeaders (some key) headers i = { i with metadata := i.metadata.insertIfNew key value } := by
  unfold withHeaders
  simp only [h]

/-- **What a host is asked to handle** is the tagged invocation. -/
theorem ofCall_wire {s : Settings} (key : s.reaction.correlationKey = some sequenceKey)
    (i : Invocation) :
    Work.ofCall s (.ofList (Client.headers (some sequenceKey) i)) i.wire =
      .handle i.tagged.wire := by
  rw [Work.ofCall, key, withHeaders_of_some (header_headers i)]
  rfl

end Host

/-! ## Checks -/

/-- **The tagged invocation passes the checks of a reaction handler.** -/
theorem Reaction.check_tagged {s : Settings} (accepts : s.Accepts i) :
    check s i.tagged.wire = .ok i.tagged := by
  have good : i.tagged.wire.check = .ok i.tagged :=
    Invocation.check_wire (d := i.tagged) accepts.id accepts.query
  have served : ¬(!s.queries.isEmpty && !s.queries.contains i.tagged.query) = true := by
    rcases accepts.served with all | named
    · simp [all]
    · simp [Invocation.tagged, named]
  have apart : i.tagged.payload.overlap? s.recordIdField = none :=
    Payload.overlap?_eq_none_iff.mpr accepts.apart
  unfold check
  simp only [good, if_neg served, apart]

end ChangeRelay
