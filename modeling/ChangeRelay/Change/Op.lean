/-!
# Kinds of change

A change creates, updates or deletes something, and is written as one letter.

Model of `ChangeOp`, with `code`, `as_str` (`text`) and `from_str` (`ofText?`).

* `ofText?_eq_some_iff`: the three letters are all that is read.
-/

namespace ChangeRelay

/-- A kind of change. -/
inductive Op
  | create
  | update
  | delete
deriving DecidableEq, Repr, Inhabited

namespace Op

/-- The letter of a kind of change. -/
def code : Op → Char
  | .create => 'c'
  | .update => 'u'
  | .delete => 'd'

/-- The letter as a text. -/
def text (o : Op) : String := o.code.toString

/-- The kind of change that a text writes. -/
def ofText? (s : String) : Option Op :=
  if s = "c" then some .create
  else if s = "u" then some .update
  else if s = "d" then some .delete
  else none

theorem ofText?_eq_some_iff {s : String} {o : Op} : ofText? s = some o ↔ s = o.text := by
  have hc : Op.create.text = "c" := by decide
  have hu : Op.update.text = "u" := by decide
  have hd : Op.delete.text = "d" := by decide
  constructor
  · intro h
    unfold ofText? at h
    split at h
    · cases h
      simp_all
    · split at h
      · cases h
        simp_all
      · split at h
        · cases h
          simp_all
        · simp at h
  · rintro rfl
    cases o <;> simp [ofText?, hc, hu, hd]

end Op

end ChangeRelay
