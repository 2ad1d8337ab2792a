import ChangeRelay.Host.Stored
import ChangeRelay.Proofs.Host.Prefs
import ChangeRelay.Proofs.Store.Files
import ChangeRelay.Proofs.Store.Initial

/-!
# Stored preferences

The usual preferences come back from their text, so what is known of values that are initialised
holds of the preferences of a host, in stores of both kinds.

* `Prefs.initialises_kept`: in a sound store preferences are initialised once.
* **`Prefs.initialised_once`**: what is known of every store, and of those in memory and in files.
-/

namespace ChangeRelay.Prefs

theorem initialises_kept {σ : Type} {S : Store σ} {allowed : String → Prop} {good : σ → Prop}
    (sound : S.Sound allowed good) {key : String} {s : σ} (hk : allowed key) (hs : good s) :
    kept.Initialises S allowed key s :=
  Kept.initialises sound hk hs (read?_write default) (write_ne_nil default)

/-- **Preferences are initialised once**, and nothing is destroyed. In any store whatever stands under
the key is left alone, if it is not empty; and where the store is sound, preferences are initialised
where there are none, which is all that ever changes. A store in memory is sound for all keys, and
one in files for those whose files stand below its directory, and apart. -/
theorem initialised_once :
    (∀ (σ : Type) (S : Store σ) (key : String) (s : σ), kept.Spares S key s) ∧
      (∀ (σ : Type) (S : Store σ) (allowed : String → Prop) (good : σ → Prop),
        S.Sound allowed good → ∀ key s, allowed key → good s → kept.Initialises S allowed key s) ∧
      (∀ (key : String) (d : Dict Blob), kept.Initialises .memory (fun _ => True) key d) ∧
      ∀ (base dir : Path) (allowed : String → Prop) (fs₀ fs : Files),
        (∀ key, allowed key → Store.Proper base key) → Store.Apart allowed →
          Store.Tidy base dir allowed fs₀ fs →
            ∀ key, allowed key → kept.Initialises (.files base) allowed key fs :=
  ⟨fun _ S key s => kept.spares S key s,
    fun _ _ _ _ sound _ _ hk hs => initialises_kept sound hk hs,
    fun _ _ => initialises_kept Store.sound_memory trivial trivial,
    fun _ _ _ fs₀ _ proper apart tidy _ hk =>
      initialises_kept (Store.sound_files fs₀ proper apart) hk tidy⟩

/-- Nothing is kept, a value is asked for under another key in between, and the preferences come
back. -/
theorem initialised_once_sample :
    (kept.loadOrInit .memory key .empty).1 = .ok default ∧
      (kept.ask .memory
        (kept.after .memory [.loadOrInit "other"] (kept.loadOrInit .memory key .empty).2)
        (.load key)).1 = .ok (some default) ∧
      kept.Initialises (.files Store.Sample.home) (· ∈ Store.Sample.keys) "prefs"
        Store.Sample.opened := by
  have once := initialised_once.2.1 _ .memory _ _ Store.sound_memory key .empty trivial trivial
  have default_ := (once.vacant (.inl rfl)).1
  refine ⟨default_, ?_, ?_⟩
  · rw [once.again [.loadOrInit "other"] (.load key) (fun _ _ => trivial) rfl, default_]
    rfl
  · exact initialised_once.2.2.2 Store.Sample.home ["home"] _ Store.Sample.opened
      Store.Sample.opened Store.Sample.proper_keys Store.Sample.apart_keys
      (.start ⟨Store.Sample.leads_home, rfl⟩ Store.Sample.empty_home) "prefs" (by decide)

end ChangeRelay.Prefs
