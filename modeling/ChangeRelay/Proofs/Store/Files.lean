import ChangeRelay.Proofs.Store.Directories
import ChangeRelay.Proofs.Store.Sound

/-!
# A store in files

Every key has a file below the directory of a store, on a way that the text of the key spells. Where
these ways lead along names, and no key's file stands on the way to that of another key, a store in
files is a table as one in memory is, and nothing outside its directory changes. Where one does, the
two keys cannot both have blobs.

A key can also spell a way that does not keep to names: two keys may then have one file, and a file
may stand outside the directory. For `path_for` of `FsConfigStore` joins a key to its base as it is.

* `Store.Tidy`: what stands below the directory of a store.
* **`Store.save_files`**: what is saved is put in its place, and nothing else is changed but the
  directories made; `Store.Tidy.saved`: that leaves the directory tidy.
* **`Store.sound_files`**: so a store in files is sound for such keys.
* **`Store.interchangeable_iff`**: exactly for those it can stand for one in memory.
* `Store.not_interchangeable`: two keys with one file.
-/

namespace ChangeRelay.Store

/-- The parts of the text of a key's file. -/
def keyPath (key : String) : Path := Path.parts (key ++ ".json")

/-- The file of a key stands below the base, at the end of names. -/
structure Proper (base : Path) (key : String) : Prop where
  names : ∀ part ∈ keyPath key, Path.IsName part
  allowed : Files.admissible (fileOf base key) = .ok ()

/-- No key's file stands on the way to that of another key. -/
def Apart (allowed : String → Prop) : Prop :=
  ∀ key key', allowed key → allowed key' → keyPath key <+: keyPath key' → key = key'

/-- Only what stands below a directory has changed. -/
def Inside (dir : Path) (fs fs' : Files) : Prop :=
  ∀ p, (∀ names, names ≠ [] → p ≠ dir ++ names) → fs'.node? p = fs.node? p

/-- For the allowed keys a store in files can stand for one in memory. -/
structure Interchangeable (base dir : Path) (fs : Files) (allowed : String → Prop) : Prop where
  /-- It answers the same. -/
  answers : ∀ cs : List Call, (∀ c ∈ cs, allowed c.key) →
    ((files base).play cs fs).1 = (memory.play cs .empty).1
  /-- It loads what was saved last under exactly the same key. -/
  loads : ∀ cs : List Call, (∀ c ∈ cs, allowed c.key) → ∀ key, allowed key →
    (files base).load key ((files base).play cs fs).2 =
      (latest? key cs).elim (.error .notFound) .ok
  inside : ∀ cs : List Call, (∀ c ∈ cs, allowed c.key) →
    Inside dir fs ((files base).play cs fs).2

variable {base dir names init p q : Path} {fs fs₀ fs₁ fs' : Files} {allowed : String → Prop}
variable {key key' : String} {blob : Blob}

/-! ## The file of a key -/

theorem keyPath_inj (h : keyPath key = keyPath key') : key = key' := by
  unfold keyPath Path.parts at h
  have split := List.map_injective_iff.mpr (fun a b h => String.ofList_injective h) h
  have joined := congrArg (List.intercalate ['/']) split
  rw [List.intercalate_splitOn, List.intercalate_splitOn, String.toList_append,
    String.toList_append] at joined
  exact String.toList_inj.mp (List.append_cancel_right joined)

theorem keyPath_concat (key : String) : ∃ init n, keyPath key = init ++ [n] := by
  have some : keyPath key ≠ [] := by simp [keyPath, Path.parts]
  exact ⟨_, _, (List.dropLast_append_getLast some).symm⟩

theorem Proper.fileOf_eq (proper : Proper base key) :
    fileOf base key = base.stem ++ keyPath key := by
  have relative : Path.ofAbsolute? (key ++ ".json") = none := by
    unfold Path.ofAbsolute?
    split
    · next split =>
      have first : "" ∈ keyPath key := by
        rw [keyPath, split]
        exact List.mem_cons_self
      exact absurd rfl (proper.names _ first).nonempty
    · rfl
  rw [fileOf, Path.join, relative]
  rfl

theorem Proper.resolve (proper : Proper base key) (based : fs.Based base dir) :
    fs.resolve (fileOf base key) = fs.walk dir (keyPath key) := by
  obtain ⟨init, n, split⟩ := keyPath_concat key
  have names := proper.names
  have allowed := proper.allowed
  rw [proper.fileOf_eq] at allowed ⊢
  rw [← based.resolve names allowed]
  rw [split] at names ⊢
  rw [← List.append_assoc, Path.trim_concat (names n (by simp))]

/-! ## What stands below the directory -/

/-- There is a file at the place of a key. -/
def Filed (dir : Path) (fs : Files) (key : String) (blob : Blob) : Prop :=
  fs.node? (dir ++ keyPath key) = some (.file blob)

/-- Below the directory `dir`, to which `base` leads, stand files of allowed keys and the directories
on the ways to them. Elsewhere all is as in `fs₀`. -/
structure Tidy (base dir : Path) (allowed : String → Prop) (fs₀ fs : Files) : Prop where
  based : fs.Based base dir
  inside : Inside dir fs₀ fs
  below : ∀ names, names ≠ [] → fs.node? (dir ++ names) ≠ none →
    ∃ key blob, allowed key ∧ names <+: keyPath key ∧ Filed dir fs key blob
  ways : ∀ {key blob init n}, allowed key → Filed dir fs key blob → keyPath key = init ++ [n] →
    fs.Way dir init

/-- An empty directory is tidy. -/
theorem Tidy.start (based : fs.Based base dir)
    (empty : ∀ names, names ≠ [] → fs.node? (dir ++ names) = none) :
    Tidy base dir allowed fs fs where
  based := based
  inside _ _ := rfl
  below names some there := absurd (empty names some) there
  ways {key blob init n} _ filed split := by
    rw [Filed, empty _ (by simp [split])] at filed
    cases filed

namespace Tidy

variable {n : String}

/-- At the place of a key stands its file or nothing. -/
theorem place (tidy : Tidy base dir allowed fs₀ fs) (apart : Apart allowed) (hk : allowed key) :
    fs.node? (dir ++ keyPath key) = none ∨ ∃ blob, Filed dir fs key blob := by
  obtain ⟨init, n, split⟩ := keyPath_concat key
  by_cases none : fs.node? (dir ++ keyPath key) = Option.none
  · exact .inl none
  · obtain ⟨key', blob, hk', sub, filed⟩ := tidy.below _ (by simp [split]) none
    obtain rfl := apart key key' hk hk' sub
    exact .inr ⟨blob, filed⟩

/-- No file stands on the way to it. -/
theorem clear (tidy : Tidy base dir allowed fs₀ fs) (apart : Apart allowed) (hk : allowed key)
    (split : keyPath key = init ++ [n]) : fs.Clear dir init := by
  intro q some sub content file
  obtain ⟨key', blob, hk', sub', filed⟩ := tidy.below q some (by rw [file]; simp)
  obtain ⟨init', n', split'⟩ := keyPath_concat key'
  rw [split', List.prefix_concat_iff] at sub'
  rcases sub' with rfl | sub'
  · -- The file is that of another key.
    have on : keyPath key' <+: keyPath key := by
      rw [split', split]
      exact sub.trans (List.prefix_append _ _)
    obtain rfl := apart key' key hk' hk on
    have shorter := sub.length_le
    rw [← split', split, List.length_append, List.length_singleton] at shorter
    omega
  · have directory := tidy.ways hk' filed split' q some sub'
    exact absurd (directory.symm.trans file) (by simp)

/-- **What is loaded** stands at the place of the key. -/
theorem load (tidy : Tidy base dir allowed fs₀ fs) (apart : Apart allowed) (hk : allowed key)
    (proper : Proper base key) : (files base).load key fs =
      match fs.node? (dir ++ keyPath key) with
      | some (.file blob) => .ok blob
      | _ => .error .notFound := by
  obtain ⟨init, n, split⟩ := keyPath_concat key
  have names := proper.names
  have resolved := proper.resolve tidy.based
  rw [split] at names resolved
  unfold files Files.read
  simp only [resolved]
  by_cases way : fs.Way dir init
  · rw [Files.walk_way names way, ← split]
    dsimp only [bind, Except.bind]
    rcases tidy.place apart hk with none | ⟨blob, filed⟩
    · rw [none]
    · rw [show fs.node? (dir ++ keyPath key) = some (.file blob) from filed]
  · rw [Files.walk_missing names (tidy.clear apart hk split) way]
    dsimp only [bind, Except.bind]
    rcases tidy.place apart hk with none | ⟨blob, filed⟩
    · rw [none]
    · exact absurd (tidy.ways hk filed split) way

end Tidy

/-! ## What is saved -/

/-- The file of a key is put in its place in `fs'`, with the directories on the way to it, and all
else is as in `fs`. -/
structure Saved (dir : Path) (fs fs' : Files) (key : String) (blob : Blob) : Prop where
  filed : Filed dir fs' key blob
  way : ∀ {init n}, keyPath key = init ++ [n] → fs'.Way dir init
  kept : ∀ p, (∀ q, q ≠ [] → q <+: keyPath key → p ≠ dir ++ q) → fs'.node? p = fs.node? p
  grows : fs.Grows fs'

/-- **A blob is saved** where no file stands on the way to that of its key, and no directory in its
place. -/
theorem save_files (based : fs.Based base dir) (proper : Proper base key) {n : String}
    (split : keyPath key = init ++ [n]) (clear : fs.Clear dir init)
    (free : fs.node? (dir ++ keyPath key) ≠ some .directory) (blob : Blob) :
    ∃ fs', (files base).save key blob fs = (.ok (), fs') ∧ Saved dir fs fs' key blob := by
  have names := proper.names
  have allowed := proper.allowed
  rw [proper.fileOf_eq, split] at allowed
  rw [split] at names
  have sub : init <+: init ++ [n] := List.prefix_append _ _
  obtain ⟨fs₁, above, made⟩ := based.makeDirectories (fun part h => names part (sub.subset h))
    (Files.admissible_of_initial ⟨[n], List.append_assoc _ _ _⟩ allowed) clear
  have based₁ := based.mono made.grows
  have same : fs₁.node? (dir ++ keyPath key) = fs.node? (dir ++ keyPath key) := by
    refine made.kept _ fun q _ h e => ?_
    have shorter := h.length_le
    rw [← List.append_cancel_left e, split, List.length_append, List.length_singleton] at shorter
    omega
  have resolved := proper.resolve based₁
  rw [split, Files.walk_way names made.way, ← split] at resolved
  have written : fs₁.write (fileOf base key) blob =
      .ok (fs₁.put (dir ++ keyPath key) (.file blob)) := by
    unfold Files.write
    rw [resolved]
    dsimp only [bind, Except.bind]
    split
    · next directory => exact absurd (same.symm.trans directory) free
    · rfl
  have some : dir ++ keyPath key ≠ [] := by simp [split]
  have grows₁ : fs₁.Grows (fs₁.put (dir ++ keyPath key) (.file blob)) :=
    Files.grows_put (.inl (same ▸ free))
  refine ⟨_, ?_, Files.node?_put_self some, ?_, ?_, fun p h => grows₁ p (made.grows p h)⟩
  · have parent : (fileOf base key).parent = Path.trim (base.stem ++ init) := by
      rw [proper.fileOf_eq, split, ← List.append_assoc, Path.parent_concat (names n (by simp))]
    unfold files
    simp only [parent, above, written]
  · intro init' n' split' q some sub
    obtain ⟨rfl, -⟩ := List.append_inj' (split.symm.trans split') rfl
    exact grows₁ _ (made.way q some sub)
  · intro p off
    rw [Files.node?_put_ne (off _ (by simp [split]) (List.prefix_refl _))]
    exact made.kept p fun q some h => off q some (by rw [split]; exact h.trans sub)

/-- Nothing changes at the places of other keys. -/
theorem Saved.other (saved : Saved dir fs fs' key blob) (apart : Apart allowed) (hk : allowed key)
    (hk' : allowed key') (other : key' ≠ key) :
    fs'.node? (dir ++ keyPath key') = fs.node? (dir ++ keyPath key') := by
  refine saved.kept _ fun q _ sub same => other ?_
  rw [← List.append_cancel_left same] at sub
  exact apart key' key hk' hk sub

/-- **A directory stays tidy** when a blob is saved. -/
theorem Tidy.saved (tidy : Tidy base dir allowed fs₀ fs) (apart : Apart allowed) (hk : allowed key)
    (saved : Saved dir fs fs' key blob) : Tidy base dir allowed fs₀ fs' where
  based := tidy.based.mono saved.grows
  inside p off := by
    rw [saved.kept p fun q some _ => off q some]
    exact tidy.inside p off
  below names some there := by
    by_cases on : names <+: keyPath key
    · exact ⟨key, blob, hk, on, saved.filed⟩
    · have old : fs'.node? (dir ++ names) = fs.node? (dir ++ names) :=
        saved.kept _ fun q _ sub same => on (List.append_cancel_left same ▸ sub)
      obtain ⟨key', blob', hk', sub, filed⟩ := tidy.below names some (old ▸ there)
      have other : key' ≠ key := by
        rintro rfl
        exact on sub
      exact ⟨key', blob', hk', sub, (saved.other apart hk hk' other).trans filed⟩
  ways {key' blob' init n} hk' filed split := by
    by_cases same : key' = key
    · exact saved.way (same ▸ split)
    · have old : Filed dir fs key' blob' := (saved.other apart hk hk' same).symm.trans filed
      exact fun q some sub => saved.grows _ (tidy.ways hk' old split q some sub)

/-- **A store in files is sound** for keys whose files stand below its directory, and apart. -/
theorem sound_files (fs₀ : Files) (proper : ∀ key, allowed key → Proper base key)
    (apart : Apart allowed) : (files base).Sound allowed (Tidy base dir allowed fs₀) where
  load {key fs} hk tidy := by
    rw [tidy.load apart hk (proper key hk)]
    split
    · exact .inr ⟨_, rfl⟩
    · exact .inl rfl
  save {key fs} blob hk tidy := by
    obtain ⟨init, n, split⟩ := keyPath_concat key
    have free : fs.node? (dir ++ keyPath key) ≠ some .directory := by
      rcases tidy.place apart hk with none | ⟨blob, filed⟩
      · rw [none]
        simp
      · rw [show fs.node? (dir ++ keyPath key) = some (.file blob) from filed]
        simp
    obtain ⟨fs', taken, saved⟩ :=
      save_files tidy.based (proper key hk) split (tidy.clear apart hk split) free blob
    have tidy' := tidy.saved apart hk saved
    refine ⟨fs', taken, tidy', fun key' hk' => ?_⟩
    rw [tidy'.load apart hk' (proper key' hk'), tidy.load apart hk' (proper key' hk')]
    by_cases same : key' = key
    · have filed : fs'.node? (dir ++ keyPath key) = some (.file blob) := saved.filed
      rw [if_pos same, same, filed]
    · rw [if_neg same, saved.other apart hk hk' same]

/-! ## Standing for a store in memory -/

theorem interchangeable_of_apart (based : fs.Based base dir)
    (empty : ∀ names, names ≠ [] → fs.node? (dir ++ names) = none)
    (proper : ∀ key, allowed key → Proper base key) (apart : Apart allowed) :
    Interchangeable base dir fs allowed := by
  have sound : (files base).Sound allowed (Tidy base dir allowed fs) := sound_files fs proper apart
  have memory : Store.memory.Sound allowed fun _ => True := sound_memory.mono fun _ _ => trivial
  have tidy : Tidy base dir allowed fs fs := .start based empty
  have vacant (key : String) (hk : allowed key) : (files base).load key fs = .error .notFound := by
    obtain ⟨init, n, split⟩ := keyPath_concat key
    rw [tidy.load apart hk (proper key hk), empty _ (by simp [split])]
  have same : Same (files base) Store.memory allowed fs .empty := by
    intro key hk
    rw [vacant key hk, memory_load]
    rfl
  constructor
  case answers => exact fun cs all => (sound.agree memory tidy trivial same all).1
  case loads =>
    intro cs all key hk
    rw [sound.load_play hk tidy all, vacant key hk]
  case inside => exact fun cs all => (sound.agree memory tidy trivial same all).2.inside

/-- Calls of a store in files take no directory away. -/
theorem grows_play : ∀ (cs : List Call) (fs : Files), fs.Grows ((files base).play cs fs).2
  | [], fs => .refl fs
  | c :: cs, fs => by
    refine Files.Grows.trans ?_ (grows_play cs _)
    cases c with
    | load key => exact .refl fs
    | save key blob =>
      unfold call files
      dsimp only
      have made := Files.grows_makeDirectories fs (fileOf base key).parent
      split
      · next above =>
        rw [above] at made
        exact made
      · next above =>
        rw [above] at made
        split
        · next written => exact made.trans (Files.grows_write written)
        · exact made

/-- What is loaded stands at the end of a way along directories. -/
theorem filed_of_load (based : fs.Based base dir) (proper : Proper base key)
    (h : (files base).load key fs = .ok blob) :
    Filed dir fs key blob ∧ ∀ {init n}, keyPath key = init ++ [n] → fs.Way dir init := by
  have names := proper.names
  have resolved := proper.resolve based
  obtain ⟨init, n, split⟩ := keyPath_concat key
  rw [split] at names resolved
  unfold files Files.read at h
  simp only [resolved] at h
  cases walked : fs.walk dir (init ++ [n]) with
  | error e =>
    rw [walked] at h
    cases e <;> cases h
  | ok q =>
    obtain ⟨rfl, way⟩ := Files.way_of_walk names walked
    rw [walked] at h
    dsimp only [bind, Except.bind] at h
    refine ⟨?_, fun split' => ?_⟩
    · unfold Filed
      rw [split]
      cases node : fs.node? (dir ++ (init ++ [n])) with
      | none => rw [node] at h; cases h
      | some x =>
        rw [node] at h
        cases x with
        | directory => cases h
        | file content => rw [Except.ok.inj h]
    · obtain ⟨rfl, -⟩ := List.append_inj' (split.symm.trans split') rfl
      exact way

/-- Two keys, one of whose files stands on the way to that of the other, cannot both have blobs. -/
theorem apart_of_interchangeable (based : fs.Based base dir)
    (proper : ∀ key, allowed key → Proper base key)
    (stands : Interchangeable base dir fs allowed) : Apart allowed := by
  intro key key' hk hk' sub
  by_contra other
  have all : ∀ c ∈ [Call.save key [], .save key' []], allowed c.key := by
    simpa [Call.key] using ⟨hk, hk'⟩
  have first := stands.loads _ all key hk
  have second := stands.loads _ all key' hk'
  rw [show latest? key [.save key [], .save key' []] = some [] by
    simp [latest?, Ne.symm other]] at first
  rw [show latest? key' [.save key [], .save key' []] = some [] by simp [latest?]] at second
  have based' : Files.Based ((files base).play [.save key [], .save key' []] fs).2 base dir :=
    based.mono (grows_play _ fs)
  obtain ⟨filed, -⟩ := filed_of_load based' (proper key hk) first
  obtain ⟨-, way⟩ := filed_of_load based' (proper key' hk') second
  obtain ⟨init, n, split⟩ := keyPath_concat key'
  rw [split, List.prefix_concat_iff] at sub
  rcases sub with same | sub
  · exact other (keyPath_inj (same.trans split.symm))
  · obtain ⟨init', n', split'⟩ := keyPath_concat key
    have directory := way split (keyPath key) (by simp [split']) sub
    exact absurd (directory.symm.trans filed) (by simp)

/-- Keys without a slash have files of their own right below the directory. -/
theorem apart_of_plain (plain : ∀ key, allowed key → '/' ∉ key.toList) : Apart allowed := by
  have single (key : String) (hk : allowed key) : keyPath key = [key ++ ".json"] := by
    have none : '/' ∉ (key ++ ".json").toList := by
      rw [String.toList_append, List.mem_append, not_or]
      exact ⟨plain key hk, by simp⟩
    rw [keyPath, Path.parts, List.splitOn_eq_singleton none]
    simp
  intro key key' hk hk' sub
  rw [single key hk, single key' hk', List.cons_prefix_cons] at sub
  exact keyPath_inj (by rw [single key hk, single key' hk', sub.1])

/-- **A store in files can stand for one in memory**, for keys whose files stand below its
directory, exactly if none of these files stands on the way to another. This is so for all keys
without a slash. -/
theorem interchangeable_iff (opened : openFiles base fs₀ = (.ok (), fs))
    (leads : fs.resolve base = .ok dir)
    (empty : ∀ names, names ≠ [] → fs.node? (dir ++ names) = none)
    (proper : ∀ key, allowed key → Proper base key) :
    (Interchangeable base dir fs allowed ↔ Apart allowed) ∧
      ((∀ key, allowed key → '/' ∉ key.toList) → Interchangeable base dir fs allowed) := by
  have made : fs₀.makeDirectories base = (.ok (), fs) := by
    unfold openFiles at opened
    split at opened
    · next h =>
      obtain rfl := (Prod.mk.inj opened).2
      exact h
    · cases (Prod.mk.inj opened).1
  have based := Files.based_of_makeDirectories made leads
  refine ⟨⟨apart_of_interchangeable based proper, ?_⟩, fun plain => ?_⟩
  · exact interchangeable_of_apart based empty proper
  · exact interchangeable_of_apart based empty proper (apart_of_plain plain)

namespace Sample

def home : Path := Path.parts "/home"

/-- The directory of the store, and nothing else. -/
def opened : Files := ⟨[(["home"], .directory)]⟩

theorem open_home : openFiles home .empty = (.ok (), opened) := by
  have made : Files.empty.makeDirectories home = (.ok (), opened) :=
    Files.makeDirectories_of_ensure rfl
  rw [openFiles, made]

theorem leads_home : opened.resolve home = .ok ["home"] := rfl

theorem empty_home (names : Path) (some : names ≠ []) :
    opened.node? (["home"] ++ names) = none := by
  have other : ("home" :: names == ["home"]) = false := by simpa using some
  simp [opened, Files.node?, List.lookup_cons, other]

def keys : List String := ["prefs", "a/b"]

theorem proper_keys : ∀ key ∈ keys, Proper home key := by
  intro key hk
  rcases List.mem_pair.mp hk with rfl | rfl
  · exact ⟨by decide +kernel, rfl⟩
  · exact ⟨by decide +kernel, rfl⟩

theorem apart_keys : Apart (· ∈ keys) := by
  have off : ¬keyPath "prefs" <+: keyPath "a/b" ∧ ¬keyPath "a/b" <+: keyPath "prefs" := by
    decide +kernel
  intro key key' hk hk' sub
  rcases List.mem_pair.mp hk with rfl | rfl <;> rcases List.mem_pair.mp hk' with rfl | rfl
  · rfl
  · exact absurd sub off.1
  · exact absurd sub off.2
  · rfl

end Sample

theorem interchangeable_sample :
    Interchangeable Sample.home ["home"] Sample.opened (· ∈ Sample.keys) :=
  (interchangeable_iff Sample.open_home Sample.leads_home Sample.empty_home
    Sample.proper_keys).1.mpr Sample.apart_keys

/-! ## Keys that do not keep to names -/

/-- **Keys that differ in empty parts only** have one file. -/
theorem load_same (allowed : Files.admissible (fileOf base key) = .ok ())
    (allowed' : Files.admissible (fileOf base key') = .ok ())
    (same : (fileOf base key).filter (· ≠ "") = (fileOf base key').filter (· ≠ "")) (fs : Files) :
    (files base).load key fs = (files base).load key' fs := by
  have resolved : fs.resolve (fileOf base key) = fs.resolve (fileOf base key') := by
    rw [Files.resolve_eq allowed, Files.resolve_eq allowed', same]
  unfold files Files.read
  simp only [resolved]

/-- A blob is loaded under a key under which none was saved, and a file is put outside the directory
of the store. -/
theorem not_interchangeable : openFiles Sample.home .empty = (.ok (), Sample.opened) ∧
    ((files Sample.home).play [.save "a/b" [49], .load "a//b"] Sample.opened).1 =
      [.saved (.ok ()), .loaded (.ok [49])] ∧
    (memory.play [.save "a/b" [49], .load "a//b"] .empty).1 =
      [.saved (.ok ()), .loaded (.error .notFound)] ∧
    ((files Sample.home).play [.save "../x" [49]] Sample.opened).2.node? ["x.json"] =
      some (.file [49]) := by
  refine ⟨Sample.open_home, ?_, rfl, ?_⟩
  · have stands := interchangeable_of_apart ⟨Sample.leads_home, rfl⟩ Sample.empty_home
      Sample.proper_keys Sample.apart_keys
    have answers := stands.answers [.save "a/b" [49], .load "a/b"] (by simp [Call.key, Sample.keys])
    rw [show ((memory.play [.save "a/b" [49], .load "a/b"] .empty).1) =
      [.saved (.ok ()), .loaded (.ok [49])] from rfl] at answers
    have same (fs : Files) :
        (files Sample.home).load "a//b" fs = (files Sample.home).load "a/b" fs :=
      load_same rfl rfl (by decide +kernel) fs
    rw [← answers]
    simp only [play, call, same]
  · have above : Sample.opened.makeDirectories (fileOf Sample.home "../x").parent =
        (.ok (), Sample.opened) := Files.makeDirectories_of_ensure rfl
    simp only [play, call, files, above]
    decide +kernel

end ChangeRelay.Store
