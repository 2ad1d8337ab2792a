import ChangeRelay.Store.Files

/-!
# What was saved is loaded

A store keeps a blob if it gives the blob back under the key under which it took it. A store in
memory takes every blob. A store in files can fail to; where it does not, the way to the file leads
through directories only, and a file is none of them, so the same way leads to it afterwards.

* **`Files.walk_mono`**: where directories come and none goes, every way leads on to where it did.
* `Store.keeps_memory`, **`Store.keeps_files`**: both kinds of store keep what they take.
* **`Kept.load_save`**: so a value that comes back from its blob comes back from a store.
-/

namespace ChangeRelay

namespace Files

variable {fs fs' : Files} {p q : Path} {n : Node}

theorem node?_put_self (some : p ≠ []) : (fs.put p n).node? p = .some n := by
  unfold node? put
  rw [if_neg some, List.lookup_cons_self]

theorem lookup_filter (other : q ≠ p) : ∀ nodes : List (Path × Node),
    (nodes.filter fun m => m.1 ≠ p).lookup q = nodes.lookup q
  | [] => rfl
  | (r, m) :: nodes => by
    have others := lookup_filter other nodes
    by_cases same : r = p
    · have here : (q == r) = false := by simpa [same] using other
      rw [List.filter_cons_of_neg (by simpa using same), others, List.lookup_cons, here]
    · rw [List.filter_cons_of_pos (by simpa using same), List.lookup_cons, List.lookup_cons, others]

theorem node?_put_ne (other : q ≠ p) : (fs.put p n).node? q = fs.node? q := by
  have here : (q == p) = false := by simpa using other
  unfold node? put
  rw [List.lookup_cons, here, lookup_filter other]

/-! ## Where directories come and none goes -/

/-- No directory of `fs` is gone in `fs'`. -/
def Grows (fs fs' : Files) : Prop :=
  ∀ p, fs.node? p = some .directory → fs'.node? p = some .directory

theorem Grows.refl (fs : Files) : Grows fs fs := fun _ h => h

theorem Grows.trans {fs₁ : Files} (h : Grows fs fs₁) (h' : Grows fs₁ fs') : Grows fs fs' :=
  fun p there => h' p (h p there)

/-- Something is put where there is no directory, or a directory is. -/
theorem grows_put (h : fs.node? p ≠ some .directory ∨ n = .directory) : Grows fs (fs.put p n) := by
  intro q there
  by_cases same : q = p
  · rcases h with none | rfl
    · exact absurd (same ▸ there) none
    · by_cases root : p = []
      · rw [same, root]
        rfl
      · rw [same, node?_put_self root]
  · rw [node?_put_ne same]
    exact there

/-- A part that is not dots leads one directory down. -/
theorem walk_part {part : String} (above : part ≠ "..") (here : part ≠ ".") (fs : Files)
    (start names : Path) : fs.walk start (part :: names) =
      if 255 < part.utf8ByteSize then .error .invalidFilename
      else if names = [] then .ok (start ++ [part])
      else match fs.node? (start ++ [part]) with
        | none => .error .notFound
        | some (.file _) => .error .notADirectory
        | some .directory => fs.walk (start ++ [part]) names :=
  walk.eq_4 fs start part names above here

/-- **Where directories come and none goes**, every way leads on to where it did. -/
theorem walk_mono (grows : Grows fs fs') {start names : Path}
    (h : fs.walk start names = .ok q) : fs'.walk start names = .ok q := by
  fun_induction walk fs start names with
  | case1 start => exact h
  | case2 start names ih | case3 start names ih => exact ih h
  | case4 | case6 | case7 => cases h
  | case5 start part above here next short =>
    rw [walk_part above here, if_neg short, if_pos rfl]
    exact h
  | case8 start part names above here next short more directory ih =>
    have passed : fs'.node? (start ++ [part]) = some .directory := grows _ directory
    rw [walk_part above here, if_neg short, if_neg more, passed]
    exact ih h

theorem resolve_eq (h : admissible p = .ok ()) : fs.resolve p = fs.walk [] (p.filter (· ≠ "")) := by
  unfold resolve
  rw [h]
  rfl

theorem walk_of_resolve (h : fs.resolve p = .ok q) :
    admissible p = .ok () ∧ fs.walk [] (p.filter (· ≠ "")) = .ok q := by
  unfold resolve at h
  cases allowed : admissible p with
  | error e => rw [allowed] at h; cases h
  | ok =>
    rw [allowed] at h
    exact ⟨rfl, h⟩

theorem resolve_mono (grows : Grows fs fs') (h : fs.resolve p = .ok q) : fs'.resolve p = .ok q := by
  obtain ⟨allowed, way⟩ := walk_of_resolve h
  rw [resolve_eq allowed]
  exact walk_mono grows way

/-! ## What was written -/

/-- A file is written where there is no directory. -/
theorem put_of_write {content : Blob} (h : fs.write p content = .ok fs') :
    ∃ q, fs.resolve p = .ok q ∧ fs.node? q ≠ some .directory ∧ fs' = fs.put q (.file content) := by
  unfold write at h
  cases way : fs.resolve p with
  | error e => rw [way] at h; cases h
  | ok q =>
    rw [way] at h
    dsimp only [bind, Except.bind] at h
    split at h
    · cases h
    · next noDirectory => exact ⟨q, rfl, noDirectory, (Except.ok.inj h).symm⟩

theorem grows_write {content : Blob} (h : fs.write p content = .ok fs') : Grows fs fs' := by
  obtain ⟨q, -, noDirectory, rfl⟩ := put_of_write h
  exact grows_put (.inl noDirectory)

/-- **A file that was written is read.** -/
theorem read_write {path : Path} {content : Blob} (h : fs.write path content = .ok fs') :
    fs'.read path = .ok content := by
  obtain ⟨q, way, noDirectory, rfl⟩ := put_of_write h
  have some : q ≠ [] := by
    rintro rfl
    exact noDirectory rfl
  unfold read
  rw [resolve_mono (grows_put (.inl noDirectory)) way]
  dsimp only [bind, Except.bind]
  rw [node?_put_self some]

end Files

/-! ## Stores -/

/-- A blob that a store takes under a key is there under that key. -/
def Store.Keeps {σ : Type} (S : Store σ) : Prop :=
  ∀ (key : String) (blob : Blob) (s s' : σ), S.save key blob s = (.ok (), s') →
    S.load key s' = .ok blob

namespace Store

theorem keeps_memory : memory.Keeps := by
  intro key blob s s' h
  obtain rfl : s.insert key blob = s' := (Prod.mk.inj h).2
  unfold memory
  dsimp only
  rw [Dict.get?_insert, if_pos rfl]

/-- **A store in files keeps what it takes.** -/
theorem keeps_files (base : Path) : (files base).Keeps := by
  intro key blob fs fs' h
  unfold files at h
  dsimp only at h
  split at h
  · cases (Prod.mk.inj h).1
  · split at h
    · next written =>
      obtain rfl := (Prod.mk.inj h).2
      unfold files
      dsimp only
      rw [Files.read_write written]
    · cases (Prod.mk.inj h).1

end Store

/-! ## Values -/

/-- **A value that was saved is loaded**, if it comes back from its blob. -/
theorem Kept.load_save {α σ : Type} {K : Kept α} {S : Store σ} (keeps : S.Keeps) {key : String}
    {x : α} {s s' : σ} (returns : K.read? (K.write x) = some x) (some : K.write x ≠ [])
    (h : K.save S key x s = (.ok (), s')) : K.load S key s' = .ok (.some x) := by
  have there : S.load key s' = .ok (K.write x) := keeps key (K.write x) s s' h
  unfold Kept.load
  rw [there]
  split
  · next h => cases h
  · next h => cases h
  · next h => exact absurd (Except.ok.inj h) some
  · next h =>
    obtain rfl := Except.ok.inj h
    rw [returns]

end ChangeRelay
