import ChangeRelay.Proofs.Store.Kept
import ChangeRelay.Proofs.Store.Sound

/-!
# A value is initialised once

This is about `load_or_init` of a `ConfigService`.

Asking for a value with its default writes where there is no blob, or an empty one, and nowhere else.
A blob that is there stays, whether it can be read or not, so the first answer is the one that is
given from then on.

* **`Kept.spares`**: in any store a blob that is not empty is left alone.
* **`Kept.Holds.after`**: it stays and is answered with, whatever is asked for in between.
* **`Kept.initialises`**: in a sound store a value is initialised where there is none, and once.
-/

namespace ChangeRelay.Kept

variable {α σ : Type}

/-- A value is asked for. -/
inductive Ask
  | load (key : String)
  /-- Where none is kept the default is, from now on. -/
  | loadOrInit (key : String)
deriving DecidableEq, Repr

def Ask.key : Ask → String
  | .load key => key
  | .loadOrInit key => key

/-- What is answered, and the state after it. -/
def ask (K : Kept α) (S : Store σ) (s : σ) : Ask → Except StoreFault (Option α) × σ
  | .load key => (K.load S key s, s)
  | .loadOrInit key => ((K.loadOrInit S key s).1.map some, (K.loadOrInit S key s).2)

/-- The state after values were asked for. -/
def after (K : Kept α) (S : Store σ) (asks : List Ask) (s : σ) : σ :=
  asks.foldl (fun s a => (K.ask S s a).2) s

/-- What there is to be read in a blob that is not empty. -/
def reading (K : Kept α) (blob : Blob) : Except StoreFault α :=
  (K.read? blob).elim (.error .unreadable) .ok

/-- There is no blob under a key, or an empty one. -/
def Vacant (S : Store σ) (key : String) (s : σ) : Prop :=
  S.load key s = .error .notFound ∨ S.load key s = .ok []

/-- There is a blob under a key in which there is `result` to be read. -/
structure Holds (K : Kept α) (S : Store σ) (key : String) (s : σ) (blob : Blob)
    (result : Except StoreFault α) : Prop where
  load : S.load key s = .ok blob
  nonempty : blob ≠ []
  reading : K.reading blob = result

/-- In the state `s` nothing that stands under a key is lost when its value is asked for. -/
structure Spares (K : Kept α) (S : Store σ) (key : String) (s : σ) : Prop where
  readable : ∀ {blob x}, S.load key s = .ok blob → blob ≠ [] → K.read? blob = some x →
    K.loadOrInit S key s = (.ok x, s)
  unreadable : ∀ {blob}, S.load key s = .ok blob → blob ≠ [] → K.read? blob = none →
    K.loadOrInit S key s = (.error .unreadable, s)
  /-- Nor where the store cannot say what stands there. -/
  faulty : ∀ {e}, S.load key s = .error e → e ≠ .notFound → K.loadOrInit S key s = (.error e, s)

/-- In the state `s` a value is initialised where there is none, and once. -/
structure Initialises (K : Kept α) (S : Store σ) (allowed : String → Prop) (key : String) (s : σ) :
    Prop where
  vacant : Vacant S key s → (K.loadOrInit S key s).1 = .ok K.default ∧
    K.load S key (K.loadOrInit S key s).2 = .ok (some K.default)
  /-- Nothing else can happen than that there is a value or that it cannot be read. -/
  result : (∃ x, (K.loadOrInit S key s).1 = .ok x) ∨ (K.loadOrInit S key s).1 = .error .unreadable
  /-- From then on every call under the key gives the same and writes nothing, whatever was asked
  for before it. -/
  again : ∀ (asks : List Ask) (a : Ask), (∀ b ∈ asks, allowed b.key) → a.key = key →
    K.ask S (K.after S asks (K.loadOrInit S key s).2) a =
      ((K.loadOrInit S key s).1.map some, K.after S asks (K.loadOrInit S key s).2)
  /-- No blob under another key is ever altered. -/
  frame : ∀ (asks : List Ask) (a : Ask), (∀ b ∈ asks, allowed b.key) → a.key = key →
    ∀ key', allowed key' → key' ≠ key →
      S.load key' (K.ask S (K.after S asks s) a).2 = S.load key' (K.after S asks s)
  /-- No blob but an empty one is ever altered at all. -/
  kept : ∀ asks : List Ask, (∀ b ∈ asks, allowed b.key) → ∀ key' blob, allowed key' → blob ≠ [] →
    S.load key' s = .ok blob → S.load key' (K.after S asks s) = .ok blob

variable {K : Kept α} {S : Store σ} {key key' : String} {s : σ} {blob : Blob}
variable {result : Except StoreFault α}

/-! ## One call -/

theorem load_of_vacant (vacant : Vacant S key s) : K.load S key s = .ok none := by
  unfold load
  rcases vacant with h | h <;> rw [h]

theorem Holds.load_eq (holds : K.Holds S key s blob result) :
    K.load S key s = result.map some := by
  rw [← holds.reading]
  unfold Kept.load Kept.reading
  rw [holds.load]
  split
  · next h => cases h
  · next h => cases h
  · next h => exact absurd (Except.ok.inj h) holds.nonempty
  · next h =>
    obtain rfl := Except.ok.inj h
    cases K.read? _ <;> rfl

theorem Holds.loadOrInit_eq (holds : K.Holds S key s blob result) :
    K.loadOrInit S key s = (result, s) := by
  unfold loadOrInit
  rw [holds.load_eq]
  cases result <;> rfl

/-- **What is there is answered with**, and nothing is written. -/
theorem Holds.ask_eq (holds : K.Holds S key s blob result) {a : Ask} (ha : a.key = key) :
    K.ask S s a = (result.map some, s) := by
  cases a with
  | load key' =>
    obtain rfl : key' = key := ha
    rw [ask, holds.load_eq]
  | loadOrInit key' =>
    obtain rfl : key' = key := ha
    rw [ask, holds.loadOrInit_eq]

/-- **A blob that is not empty is left alone**, in any store. -/
theorem spares (K : Kept α) (S : Store σ) (key : String) (s : σ) : K.Spares S key s where
  readable {blob x} there nonempty read := by
    have holds : K.Holds S key s blob (.ok x) := ⟨there, nonempty, by rw [reading, read]; rfl⟩
    exact holds.loadOrInit_eq
  unreadable {blob} there nonempty read := by
    have holds : K.Holds S key s blob (.error .unreadable) :=
      ⟨there, nonempty, by rw [reading, read]; rfl⟩
    exact holds.loadOrInit_eq
  faulty {e} there other := by
    have loaded : K.load S key s = .error e := by
      unfold load
      rw [there]
      split
      · next h => exact absurd (Except.error.inj h) other
      · next h => rw [Except.error.inj h]
      · next h => cases h
      · next h => cases h
    unfold loadOrInit
    rw [loaded]

/-! ## Calls of a sound store -/

section

variable {allowed : String → Prop} {good : σ → Prop}

/-- Under a key there is no blob that is not empty, or there is one. -/
theorem vacant_or_holds (sound : S.Sound allowed good) (hk : allowed key) (hs : good s) :
    Vacant S key s ∨ ∃ blob, K.Holds S key s blob (K.reading blob) := by
  rcases sound.load hk hs with h | ⟨blob, h⟩
  · exact .inl (.inl h)
  · by_cases empty : blob = []
    · exact .inl (.inr (empty ▸ h))
    · exact .inr ⟨blob, h, empty, rfl⟩

/-- Where there is none the default is written. -/
theorem loadOrInit_vacant (sound : S.Sound allowed good) (hk : allowed key) (hs : good s)
    (vacant : Vacant S key s) : ∃ s', K.loadOrInit S key s = (.ok K.default, s') ∧ good s' ∧
      ∀ key', allowed key' →
        S.load key' s' = if key' = key then .ok (K.write K.default) else S.load key' s := by
  obtain ⟨s', saved, hs', loads⟩ := sound.save (K.write K.default) hk hs
  refine ⟨s', ?_, hs', loads⟩
  unfold loadOrInit save
  rw [load_of_vacant vacant, saved]
  rfl

/-- **A call alters nothing under other keys**, and no blob that is not empty. -/
theorem ask_frame (sound : S.Sound allowed good) (hs : good s) {a : Ask} (ha : allowed a.key) :
    good (K.ask S s a).2 ∧ ∀ key', allowed key' → (key' = a.key → ¬Vacant S key' s) →
      S.load key' (K.ask S s a).2 = S.load key' s := by
  cases a with
  | load key => exact ⟨hs, fun _ _ _ => rfl⟩
  | loadOrInit key =>
    have ha : allowed key := ha
    rcases vacant_or_holds (K := K) sound ha hs with vacant | ⟨blob, holds⟩
    · obtain ⟨s', written, hs', loads⟩ := loadOrInit_vacant (K := K) sound ha hs vacant
      rw [ask, written]
      refine ⟨hs', fun key' hk' other => (loads key' hk').trans (if_neg ?_)⟩
      rintro rfl
      exact other rfl vacant
    · rw [holds.ask_eq rfl]
      exact ⟨hs, fun _ _ _ => rfl⟩

theorem good_after (sound : S.Sound allowed good) : ∀ {asks : List Ask} {s : σ}, good s →
    (∀ a ∈ asks, allowed a.key) → good (K.after S asks s)
  | [], _, hs, _ => hs
  | a :: asks, s, hs, all => by
    have next := (ask_frame (K := K) sound hs (all a List.mem_cons_self)).1
    have last : good (K.after S asks (K.ask S s a).2) :=
      good_after sound next fun b hb => all b (List.mem_cons_of_mem a hb)
    exact last

/-- **A blob that is not empty stays**, whatever is asked for. -/
theorem Holds.after (sound : S.Sound allowed good) (hk : allowed key) : ∀ {asks : List Ask} {s : σ},
    good s → K.Holds S key s blob result → (∀ a ∈ asks, allowed a.key) →
      K.Holds S key (K.after S asks s) blob result
  | [], _, _, holds, _ => holds
  | a :: asks, s, hs, holds, all => by
    obtain ⟨next, frame⟩ := ask_frame (K := K) sound hs (all a List.mem_cons_self)
    have there : ¬Vacant S key s := by
      rintro (h | h)
      · exact absurd (h.symm.trans holds.load) (by simp)
      · exact holds.nonempty (Except.ok.inj (holds.load.symm.trans h))
    have holds' : K.Holds S key (K.ask S s a).2 blob result :=
      ⟨(frame key hk fun _ => there).trans holds.load, holds.nonempty, holds.reading⟩
    have last : K.Holds S key (K.after S asks (K.ask S s a).2) blob result :=
      holds'.after sound hk next fun b hb => all b (List.mem_cons_of_mem a hb)
    exact last

/-- After a value was asked for with its default, there is one or it cannot be read. -/
theorem holds_loadOrInit (sound : S.Sound allowed good) (hk : allowed key) (hs : good s)
    (returns : K.read? (K.write K.default) = some K.default) (nonempty : K.write K.default ≠ []) :
    good (K.loadOrInit S key s).2 ∧
      ∃ blob, K.Holds S key (K.loadOrInit S key s).2 blob (K.loadOrInit S key s).1 := by
  rcases vacant_or_holds (K := K) sound hk hs with vacant | ⟨blob, holds⟩
  · obtain ⟨s', written, hs', loads⟩ := loadOrInit_vacant (K := K) sound hk hs vacant
    rw [written]
    exact ⟨hs', K.write K.default, (loads key hk).trans (if_pos rfl), nonempty,
      by rw [reading, returns]; rfl⟩
  · rw [holds.loadOrInit_eq]
    exact ⟨hs, blob, holds⟩

/-- **A value is initialised where there is none, and once**, if the default comes back from its
blob. -/
theorem initialises (sound : S.Sound allowed good) (hk : allowed key) (hs : good s)
    (returns : K.read? (K.write K.default) = some K.default) (nonempty : K.write K.default ≠ []) :
    K.Initialises S allowed key s := by
  obtain ⟨hs', blob, holds⟩ := holds_loadOrInit (K := K) sound hk hs returns nonempty
  constructor
  case vacant =>
    intro vacant
    obtain ⟨s', written, -, -⟩ := loadOrInit_vacant (K := K) sound hk hs vacant
    rw [holds.load_eq, written]
    exact ⟨rfl, rfl⟩
  case result =>
    rw [← holds.reading, reading]
    cases K.read? blob with
    | none => exact .inr rfl
    | some x => exact .inl ⟨x, rfl⟩
  case again =>
    intro asks a all ha
    exact (holds.after sound hk hs' all).ask_eq ha
  case frame =>
    intro asks a all ha key' hk' other
    have frame := (ask_frame (K := K) sound (good_after (K := K) sound hs all) (ha ▸ hk)).2
    exact frame key' hk' fun same => absurd (same.trans ha) other
  case kept =>
    intro asks all key' blob hk' nonempty there
    have holds : K.Holds S key' s blob (K.reading blob) := ⟨there, nonempty, rfl⟩
    exact (holds.after sound hk' hs all).load

end

end ChangeRelay.Kept
