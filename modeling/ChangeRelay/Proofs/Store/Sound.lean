import ChangeRelay.Store.Basic

/-!
# Stores as tables

Seen from outside a store should be a table of blobs: what was not saved is not found, every blob is
taken, and it changes what is loaded under its own key and no other. `Store.Sound` says so of some
keys and of the states that calls under these keys can lead to.

* `Store.sound_memory`: a store in memory is sound for all keys.
* **`Store.Sound.agree`**: two stores that are sound for the same keys give the same answers to the
  same calls, from states in which they have the same blobs.
* `Store.Sound.load_play`: a sound store loads what was saved last.
-/

namespace ChangeRelay.Store

variable {σ τ : Type}

/-- Under the allowed keys, a store in a good state is a table. -/
structure Sound (S : Store σ) (allowed : String → Prop) (good : σ → Prop) : Prop where
  load : ∀ {key s}, allowed key → good s →
    S.load key s = .error .notFound ∨ ∃ blob, S.load key s = .ok blob
  save : ∀ {key s} (blob : Blob), allowed key → good s → ∃ s', S.save key blob s = (.ok (), s') ∧
    good s' ∧ ∀ key', allowed key' → S.load key' s' = if key' = key then .ok blob else S.load key' s

theorem memory_load (key : String) (d : Dict Blob) :
    memory.load key d = (d.get? key).elim (.error .notFound) .ok := by
  unfold memory
  cases h : d.get? key <;> simp [h]

theorem sound_memory : memory.Sound (fun _ => True) fun _ => True where
  load {key d} _ _ := by
    rw [memory_load]
    cases d.get? key with
    | none => exact .inl rfl
    | some blob => exact .inr ⟨blob, rfl⟩
  save {key d} blob _ _ := by
    refine ⟨d.insert key blob, rfl, trivial, fun key' _ => ?_⟩
    rw [memory_load, memory_load, Dict.get?_insert]
    by_cases h : key' = key
    · rw [if_pos h, if_pos h]
      rfl
    · rw [if_neg h, if_neg h]

/-- A store is sound for fewer keys if it is for more. -/
theorem Sound.mono {S : Store σ} {allowed allowed' : String → Prop} {good : σ → Prop}
    (sound : S.Sound allowed good) (fewer : ∀ key, allowed' key → allowed key) :
    S.Sound allowed' good where
  load key good := sound.load (fewer _ key) good
  save blob key good := by
    obtain ⟨s', saved, good', loads⟩ := sound.save blob (fewer _ key) good
    exact ⟨s', saved, good', fun key' h => loads key' (fewer _ h)⟩

/-! ## Calls -/

/-- A call of a store. -/
inductive Call
  | load (key : String)
  | save (key : String) (blob : Blob)
deriving DecidableEq, Repr

def Call.key : Call → String
  | .load key => key
  | .save key _ => key

/-- What a call gives. -/
inductive Answer
  | loaded (result : Except StoreFault Blob)
  | saved (result : Except StoreFault Unit)

def call (S : Store σ) (s : σ) : Call → Answer × σ
  | .load key => (.loaded (S.load key s), s)
  | .save key blob => (.saved (S.save key blob s).1, (S.save key blob s).2)

/-- The answers to calls one after the other, and the state that they lead to. -/
def play (S : Store σ) : List Call → σ → List Answer × σ
  | [], s => ([], s)
  | c :: cs, s => ((S.call s c).1 :: (play S cs (S.call s c).2).1, (play S cs (S.call s c).2).2)

variable {S : Store σ} {T : Store τ} {allowed : String → Prop} {good : σ → Prop} {good' : τ → Prop}

/-- Both stores have the same blobs under the allowed keys. -/
def Same (S : Store σ) (T : Store τ) (allowed : String → Prop) (s : σ) (t : τ) : Prop :=
  ∀ key, allowed key → S.load key s = T.load key t

/-- One call of two sound stores with the same blobs. -/
theorem Sound.agree_call (a : S.Sound allowed good) (b : T.Sound allowed good') {s : σ} {t : τ}
    (hs : good s) (ht : good' t) (same : Same S T allowed s t) {c : Call} (hc : allowed c.key) :
    (S.call s c).1 = (T.call t c).1 ∧ good (S.call s c).2 ∧ good' (T.call t c).2 ∧
      Same S T allowed (S.call s c).2 (T.call t c).2 := by
  cases c with
  | load key => exact ⟨congrArg Answer.loaded (same key hc), hs, ht, same⟩
  | save key blob =>
    have hc : allowed key := hc
    obtain ⟨s', saved, hs', loads⟩ := a.save blob hc hs
    obtain ⟨t', saved', ht', loads'⟩ := b.save blob hc ht
    have taken : S.call s (.save key blob) = (.saved (.ok ()), s') := by rw [call, saved]
    have taken' : T.call t (.save key blob) = (.saved (.ok ()), t') := by rw [call, saved']
    rw [taken, taken']
    refine ⟨rfl, hs', ht', fun key' h => ?_⟩
    rw [loads key' h, loads' key' h, same key' h]

/-- **Sound stores agree** on all calls under the allowed keys. -/
theorem Sound.agree (a : S.Sound allowed good) (b : T.Sound allowed good') :
    ∀ {cs : List Call} {s : σ} {t : τ}, good s → good' t → Same S T allowed s t →
      (∀ c ∈ cs, allowed c.key) →
        (S.play cs s).1 = (T.play cs t).1 ∧ good (S.play cs s).2
  | [], _, _, hs, _, _, _ => ⟨rfl, hs⟩
  | c :: cs, s, t, hs, ht, same, all => by
    obtain ⟨answer, hs', ht', same'⟩ := a.agree_call b hs ht same (all c List.mem_cons_self)
    have others := fun c' h => all c' (List.mem_cons_of_mem c h)
    obtain ⟨answers, last⟩ := a.agree b hs' ht' same' others
    exact ⟨by simp only [play, answer, answers], last⟩

/-! ## What was saved last -/

/-- The blob that was saved last under a key. -/
def latest? (key : String) : List Call → Option Blob
  | [] => none
  | .load _ :: cs => latest? key cs
  | .save key' blob :: cs => (latest? key cs).or (if key' = key then some blob else none)

/-- **A sound store** loads what was saved last. -/
theorem Sound.load_play (sound : S.Sound allowed good) {key : String} (hk : allowed key) :
    ∀ {cs : List Call} {s : σ}, good s → (∀ c ∈ cs, allowed c.key) →
      S.load key (S.play cs s).2 = (latest? key cs).elim (S.load key s) .ok
  | [], _, _, _ => rfl
  | .load _ :: cs, s, hs, all => by
    have ih : S.load key (S.play cs s).2 = (latest? key cs).elim (S.load key s) .ok :=
      sound.load_play hk hs fun c h => all c (List.mem_cons_of_mem _ h)
    exact ih
  | .save key' blob :: cs, s, hs, all => by
    have hk' : allowed key' := all _ List.mem_cons_self
    obtain ⟨s', saved, hs', loads⟩ := sound.save blob hk' hs
    have ih := sound.load_play hk hs' fun c h => all c (List.mem_cons_of_mem _ h)
    have state : (S.play (.save key' blob :: cs) s).2 = (S.play cs s').2 := by
      rw [play, call, saved]
    rw [state, ih, loads key hk, latest?]
    cases latest? key cs with
    | some last => rfl
    | none =>
      by_cases same : key' = key
      · rw [if_pos same, if_pos same.symm]
        rfl
      · rw [if_neg same, if_neg (Ne.symm same)]
        rfl

end ChangeRelay.Store
