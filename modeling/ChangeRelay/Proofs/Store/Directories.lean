import ChangeRelay.Proofs.Store.Kept
import Mathlib.Data.List.Infix
import Mathlib.Data.List.TakeWhile

/-!
# Directories below a directory

A text `base` that leads to a directory `dir` can be followed by names: then the way goes on from
`dir` along these names. Making the directories on such a way makes exactly those that are missing
on it, if no file stands in its way.

* `Files.walk_append`: a way goes on from the directory to which its first part leads.
* **`Files.Based.makeDirectories`**: what is made on a way below a directory.
-/

namespace ChangeRelay

namespace Path

/-- A part that is a name, and leads one directory down. -/
structure IsName (part : String) : Prop where
  nonempty : part ≠ ""
  here : part ≠ "."
  above : part ≠ ".."
  short : part.utf8ByteSize ≤ 255

instance (part : String) : Decidable (IsName part) :=
  decidable_of_iff (part ≠ "" ∧ part ≠ "." ∧ part ≠ ".." ∧ part.utf8ByteSize ≤ 255)
    ⟨fun h => ⟨h.1, h.2.1, h.2.2.1, h.2.2.2⟩, fun h => ⟨h.nonempty, h.here, h.above, h.short⟩⟩

/-- A path without the empty part that a slash at its end leaves. -/
def stem (base : Path) : Path := if base.getLast? = some "" then base.dropLast else base

variable {p q names : Path} {n : String}

theorem filter_stem (base : Path) : base.stem.filter (· ≠ "") = base.filter (· ≠ "") := by
  unfold stem
  split
  · next last =>
    obtain ⟨init, rfl⟩ := List.getLast?_eq_some_iff.mp last
    simp
  · rfl

theorem filter_names (all : ∀ part ∈ names, IsName part) : names.filter (· ≠ "") = names :=
  List.filter_eq_self.mpr fun part h => decide_eq_true (all part h).nonempty

/-- A name at the end leads somewhere. -/
theorem trim_concat (name : IsName n) : trim (p ++ [n]) = p ++ [n] := by
  have leads : isIdle n = false := by simp [isIdle, name.nonempty, name.here]
  simp [trim, leads]

/-- What is left out at the end leads nowhere. -/
theorem trim_append (p : Path) :
    ∃ idle, p = trim p ++ idle ∧ ∀ part ∈ idle, isIdle part = true := by
  refine ⟨(p.reverse.takeWhile isIdle).reverse, ?_, fun part h => ?_⟩
  · rw [trim, ← List.reverse_append, List.takeWhile_append_dropWhile, List.reverse_reverse]
  · exact List.mem_takeWhile_imp (List.mem_reverse.mp h)

theorem trim_initial (p : Path) : trim p <+: p := by
  obtain ⟨idle, split, -⟩ := trim_append p
  exact ⟨idle, split.symm⟩

theorem parent_concat (name : IsName n) : parent (p ++ [n]) = trim p := by
  rw [parent, trim_concat name, List.dropLast_concat]

end Path

namespace Files

variable {fs fs' : Files} {base dir start names init p q : Path} {n : String} {content : Blob}

/-! ## Ways -/

/-- All that stands on the way from `start` along `names`, its end included, is directories. -/
def Way (fs : Files) (start names : Path) : Prop :=
  ∀ q, q ≠ [] → q <+: names → fs.node? (start ++ q) = some .directory

/-- No file stands on it. -/
def Clear (fs : Files) (start names : Path) : Prop :=
  ∀ q, q ≠ [] → q <+: names → ∀ content, fs.node? (start ++ q) ≠ some (.file content)

theorem way_nil (fs : Files) (start : Path) : fs.Way start [] :=
  fun _ some sub => absurd (List.prefix_nil.mp sub) some

theorem way_cons {a : String} : fs.Way start (a :: names) ↔
    fs.node? (start ++ [a]) = some .directory ∧ fs.Way (start ++ [a]) names := by
  constructor
  · intro way
    refine ⟨way [a] (by simp) (by simp), fun q _ sub => ?_⟩
    rw [List.append_assoc]
    exact way (a :: q) (by simp) (List.cons_prefix_cons.mpr ⟨rfl, sub⟩)
  · rintro ⟨first, way⟩ q some sub
    cases q with
    | nil => exact absurd rfl some
    | cons b q =>
      obtain ⟨rfl, rest⟩ := List.cons_prefix_cons.mp sub
      by_cases last : q = []
      · rw [last]
        exact first
      · have := way q last rest
        rwa [List.append_assoc] at this

theorem Clear.cons {a : String} (clear : fs.Clear start (a :: names)) :
    (∀ content, fs.node? (start ++ [a]) ≠ some (.file content)) ∧
      fs.Clear (start ++ [a]) names := by
  refine ⟨clear [a] (by simp) (by simp), fun q _ sub => ?_⟩
  rw [List.append_assoc]
  exact clear (a :: q) (by simp) (List.cons_prefix_cons.mpr ⟨rfl, sub⟩)

theorem walk_name (name : Path.IsName n) : fs.walk start (n :: names) =
    if names = [] then .ok (start ++ [n])
    else match fs.node? (start ++ [n]) with
      | none => .error .notFound
      | some (.file _) => .error .notADirectory
      | some .directory => fs.walk (start ++ [n]) names :=
  (walk_part name.above name.here fs start names).trans (if_neg (Nat.not_lt.mpr name.short))

/-- **A way along names** on which directories stand comes to its end. -/
theorem walk_way : ∀ {init start : Path}, (∀ part ∈ init ++ [n], Path.IsName part) →
    fs.Way start init → fs.walk start (init ++ [n]) = .ok (start ++ (init ++ [n]))
  | [], start, all, _ => by
    rw [List.nil_append, walk_name (all n (by simp)), if_pos rfl]
  | a :: init, start, all, way => by
    obtain ⟨first, way⟩ := way_cons.mp way
    have rest := walk_way (fun part h => all part (List.mem_cons_of_mem a h)) way
    rw [List.cons_append, walk_name (all a (by simp)), if_neg (by simp), first]
    simp only [rest, List.append_assoc, List.singleton_append]

/-- One that is missing a directory, and on which no file stands, ends there. -/
theorem walk_missing : ∀ {init start : Path}, (∀ part ∈ init ++ [n], Path.IsName part) →
    fs.Clear start init → ¬fs.Way start init → fs.walk start (init ++ [n]) = .error .notFound
  | [], start, _, _, missing => absurd (way_nil fs start) missing
  | a :: init, start, all, clear, missing => by
    obtain ⟨first, clear⟩ := clear.cons
    rw [List.cons_append, walk_name (all a (by simp)), if_neg (by simp)]
    cases node : fs.node? (start ++ [a]) with
    | none => rfl
    | some x =>
      cases x with
      | file content => exact absurd node (first content)
      | directory =>
        have missing' : ¬fs.Way (start ++ [a]) init := fun way => missing (way_cons.mpr ⟨node, way⟩)
        exact walk_missing (fun part h => all part (List.mem_cons_of_mem a h)) clear missing'

/-- A way along names that comes to its end leads along directories. -/
theorem way_of_walk : ∀ {init start : Path}, (∀ part ∈ init ++ [n], Path.IsName part) →
    fs.walk start (init ++ [n]) = .ok q → q = start ++ (init ++ [n]) ∧ fs.Way start init
  | [], start, all, h => by
    rw [List.nil_append, walk_name (all n (by simp)), if_pos rfl] at h
    exact ⟨(Except.ok.inj h).symm, way_nil fs start⟩
  | a :: init, start, all, h => by
    rw [List.cons_append, walk_name (all a (by simp)), if_neg (by simp)] at h
    cases node : fs.node? (start ++ [a]) with
    | none => rw [node] at h; cases h
    | some x =>
      rw [node] at h
      cases x with
      | file content => cases h
      | directory =>
        obtain ⟨rfl, way⟩ := way_of_walk (fun part h => all part (List.mem_cons_of_mem a h)) h
        exact ⟨by simp, way_cons.mpr ⟨node, way⟩⟩

/-- **A way goes on** from the directory to which its first part leads. -/
theorem walk_append (h : fs.walk start p = .ok q) (directory : fs.node? q = some .directory) :
    fs.walk start (p ++ names) = fs.walk q names := by
  fun_induction walk fs start p with
  | case1 start =>
    obtain rfl := Except.ok.inj h
    rfl
  | case2 start p ih | case3 start p ih =>
    rw [List.cons_append, walk]
    exact ih h
  | case4 | case6 | case7 => cases h
  | case5 start part above here next short =>
    obtain rfl : start ++ [part] = q := Except.ok.inj h
    rw [List.cons_append, List.nil_append, walk_part above here, if_neg short]
    split
    · next last =>
      rw [last]
      rfl
    · rw [directory]
  | case8 start part p above here next short more inner ih =>
    have passed : fs.node? (start ++ [part]) = some .directory := inner
    rw [List.cons_append, walk_part above here, if_neg short, if_neg (by simp [more]), passed]
    exact ih h

theorem walk_dots {dots : Path} (idle : ∀ part ∈ dots, part = ".") :
    fs.walk start dots = .ok start := by
  induction dots with
  | nil => rfl
  | cons part dots ih =>
    obtain rfl := idle part List.mem_cons_self
    rw [walk]
    exact ih fun part h => idle part (List.mem_cons_of_mem _ h)

/-- Dots at the end can be left out. -/
theorem walk_of_dots {dots : Path} (idle : ∀ part ∈ dots, part = ".")
    (h : fs.walk start (p ++ dots) = .ok q) : fs.walk start p = .ok q := by
  fun_induction walk fs start p with
  | case1 start => exact (walk_dots idle).symm.trans h
  | case2 start p ih | case3 start p ih =>
    rw [List.cons_append, walk] at h
    exact ih h
  | case4 start part p above here long =>
    rw [List.cons_append, walk_part above here, if_pos long] at h
    exact h
  | case5 start part above here next short =>
    rw [List.cons_append, List.nil_append, walk_part above here, if_neg short] at h
    split at h
    · exact h
    · split at h
      · cases h
      · cases h
      · exact (walk_dots idle).symm.trans h
  | case6 start part p above here next short more none =>
    have missing : fs.node? (start ++ [part]) = .none := none
    rw [List.cons_append, walk_part above here, if_neg short, if_neg (by simp [more]), missing] at h
    exact h
  | case7 start part p above here next short more content file =>
    have filed : fs.node? (start ++ [part]) = some (.file content) := file
    rw [List.cons_append, walk_part above here, if_neg short, if_neg (by simp [more]), filed] at h
    exact h
  | case8 start part p above here next short more inner ih =>
    have passed : fs.node? (start ++ [part]) = some .directory := inner
    rw [List.cons_append, walk_part above here, if_neg short, if_neg (by simp [more]), passed] at h
    exact ih h

/-! ## Directories stay -/

theorem put_of_makeDirectory (h : fs.makeDirectory p = .ok fs') :
    ∃ q, fs.resolve p = .ok q ∧ fs.node? q = none ∧ fs' = fs.put q .directory := by
  unfold makeDirectory at h
  cases way : fs.resolve p with
  | error e => rw [way] at h; cases h
  | ok q =>
    rw [way] at h
    dsimp only [bind, Except.bind] at h
    split at h
    · cases h
    · next none => exact ⟨q, rfl, none, (Except.ok.inj h).symm⟩

/-- A directory was made, or it was there. -/
theorem made_or_old (h : fs.ensureDirectory p = .ok fs') :
    fs.makeDirectory p = .ok fs' ∨ fs' = fs ∧ fs.isDirectory p = true := by
  unfold ensureDirectory at h
  split at h
  · next made =>
    obtain rfl := Except.ok.inj h
    exact .inl made
  · split at h
    · next found => exact .inr ⟨(Except.ok.inj h).symm, found⟩
    · cases h

theorem grows_ensureDirectory (h : fs.ensureDirectory p = .ok fs') : Grows fs fs' := by
  rcases made_or_old h with made | ⟨rfl, -⟩
  · obtain ⟨q, -, -, rfl⟩ := put_of_makeDirectory made
    exact grows_put (.inr rfl)
  · exact .refl _

/-- No directory is gone when others are made. -/
theorem grows_makeDirectories (fs : Files) (p : Path) : Grows fs (fs.makeDirectories p).2 := by
  fun_induction makeDirectories fs p with
  | case1 p fs' made => exact grows_ensureDirectory made
  | case2 | case6 => exact .refl fs
  | case3 p _ _ e fs₁ above ih =>
    rw [above] at ih
    exact ih
  | case4 p _ _ fs₁ above fs' made ih =>
    rw [above] at ih
    exact ih.trans (grows_ensureDirectory made)
  | case5 p _ _ fs₁ above e _ ih =>
    rw [above] at ih
    exact ih

theorem isDirectory_of_ensureDirectory (h : fs.ensureDirectory p = .ok fs') :
    fs'.isDirectory p = true := by
  rcases made_or_old h with made | ⟨rfl, found⟩
  · obtain ⟨q, way, none, rfl⟩ := put_of_makeDirectory made
    have some : q ≠ [] := by
      rintro rfl
      cases none
    unfold isDirectory
    rw [resolve_mono (grows_put (.inr rfl)) way]
    exact decide_eq_true (node?_put_self some)
  · exact found

/-- A directory that was made is there. -/
theorem isDirectory_of_makeDirectories (h : fs.makeDirectories p = (.ok (), fs')) :
    fs'.isDirectory p = true := by
  rw [makeDirectories] at h
  split at h
  · next made =>
    obtain rfl := (Prod.mk.inj h).2
    exact isDirectory_of_ensureDirectory made
  · split at h
    · cases (Prod.mk.inj h).1
    · split at h
      · cases (Prod.mk.inj h).1
      · split at h
        · next made =>
          obtain rfl := (Prod.mk.inj h).2
          exact isDirectory_of_ensureDirectory made
        · cases (Prod.mk.inj h).1
  · cases (Prod.mk.inj h).1

/-! ## Texts that can be asked for -/

theorem pathLength_append (p q : Path) : pathLength p ≤ pathLength (p ++ q) := by
  unfold pathLength
  rw [List.foldl_append]
  induction q using List.reverseRecOn with
  | nil => exact Nat.le_refl _
  | append_singleton q part ih =>
    rw [List.foldl_append]
    exact ih.trans (by simp only [List.foldl_cons, List.foldl_nil]; omega)

theorem admissible_of_initial (sub : p <+: q) (h : admissible q = .ok ()) :
    admissible p = .ok () := by
  obtain ⟨rest, rfl⟩ := sub
  have longer := pathLength_append p rest
  unfold admissible at h ⊢
  split at h
  · cases h
  · next none =>
    split at h
    · cases h
    · next short =>
      rw [List.any_append, Bool.or_eq_true, not_or] at none
      rw [if_neg none.1, if_neg (by omega)]

/-! ## Making directories -/

theorem ensureDirectory_old (h : fs.resolve p = .ok q) (there : fs.node? q = some .directory) :
    fs.ensureDirectory p = .ok fs := by
  have found : fs.isDirectory p = true := by
    unfold isDirectory
    rw [h]
    exact decide_eq_true there
  unfold ensureDirectory makeDirectory
  rw [h]
  simp only [bind, Except.bind, there, found, if_true]

theorem ensureDirectory_new (h : fs.resolve p = .ok q) (none : fs.node? q = none) :
    fs.ensureDirectory p = .ok (fs.put q .directory) := by
  unfold ensureDirectory makeDirectory
  rw [h]
  simp only [bind, Except.bind, none]

theorem ensureDirectory_missing (h : fs.resolve p = .error .notFound) :
    fs.ensureDirectory p = .error .notFound := by
  have none : fs.isDirectory p = false := by
    unfold isDirectory
    rw [h]
  unfold ensureDirectory makeDirectory
  rw [h]
  simp only [bind, Except.bind, none]
  rfl

/-- The text `base` leads to the directory `dir`. -/
structure Based (fs : Files) (base dir : Path) : Prop where
  leads : fs.resolve base = .ok dir
  directory : fs.node? dir = some .directory

/-- In `fs'` the directories on the way from `dir` along `names` are made, and all else is as in
`fs`. -/
structure Made (fs fs' : Files) (dir names : Path) : Prop where
  way : fs'.Way dir names
  kept : ∀ p, (∀ q, q ≠ [] → q <+: names → p ≠ dir ++ q) → fs'.node? p = fs.node? p

theorem Made.grows (made : Made fs fs' dir names) : Grows fs fs' := by
  intro p there
  by_cases on : ∃ q, q ≠ [] ∧ q <+: names ∧ p = dir ++ q
  · obtain ⟨q, some, sub, rfl⟩ := on
    exact made.way q some sub
  · rw [made.kept p fun q some sub e => on ⟨q, some, sub, e⟩]
    exact there

theorem Based.mono (based : fs.Based base dir) (grows : Grows fs fs') : fs'.Based base dir where
  leads := resolve_mono grows based.leads
  directory := grows dir based.directory

theorem based_of_makeDirectories (h : fs.makeDirectories base = (.ok (), fs'))
    (leads : fs'.resolve base = .ok dir) : fs'.Based base dir where
  leads := leads
  directory := by
    have found := isDirectory_of_makeDirectories h
    unfold isDirectory at found
    rw [leads] at found
    exact of_decide_eq_true found

/-- **A text behind a base** leads along its names from the base's directory. -/
theorem Based.resolve (based : fs.Based base dir) (all : ∀ part ∈ names, Path.IsName part)
    (allowed : admissible (base.stem ++ names) = .ok ()) :
    fs.resolve (Path.trim (base.stem ++ names)) = fs.walk dir names := by
  have way := (walk_of_resolve based.leads).2
  rw [← Path.filter_stem] at way
  rw [resolve_eq (admissible_of_initial (Path.trim_initial _) allowed)]
  rcases List.eq_nil_or_concat names with rfl | ⟨init, n, rfl⟩
  · obtain ⟨idle, split, dots⟩ := Path.trim_append base.stem
    have idleDots : ∀ part ∈ idle.filter (· ≠ ""), part = "." := by
      intro part h
      obtain ⟨mem, some⟩ := List.mem_filter.mp h
      have := dots part mem
      simp only [Path.isIdle, Bool.or_eq_true, decide_eq_true_eq] at this some
      exact this.resolve_left some
    rw [split, List.filter_append] at way
    rw [List.append_nil]
    exact walk_of_dots idleDots way
  · rw [List.concat_eq_append] at all ⊢
    rw [← List.append_assoc, Path.trim_concat (all n (by simp)), List.append_assoc,
      List.filter_append, Path.filter_names all]
    exact walk_append way based.directory

/-- The last of the directories on a way. -/
theorem Based.ensureDirectory (based : fs.Based base dir)
    (all : ∀ part ∈ init ++ [n], Path.IsName part)
    (allowed : admissible (base.stem ++ (init ++ [n])) = .ok ()) (way : fs.Way dir init)
    (free : ∀ content, fs.node? (dir ++ (init ++ [n])) ≠ some (.file content)) :
    ∃ fs', fs.ensureDirectory (Path.trim (base.stem ++ (init ++ [n]))) = .ok fs' ∧
      fs'.node? (dir ++ (init ++ [n])) = some .directory ∧
      ∀ p, p ≠ dir ++ (init ++ [n]) → fs'.node? p = fs.node? p := by
  have leads := based.resolve all allowed
  rw [walk_way all way] at leads
  cases node : fs.node? (dir ++ (init ++ [n])) with
  | none =>
    refine ⟨_, ensureDirectory_new leads node, node?_put_self (by simp), fun p other => ?_⟩
    exact node?_put_ne other
  | some x =>
    cases x with
    | file content => exact absurd node (free content)
    | directory => exact ⟨fs, ensureDirectory_old leads node, node, fun _ _ => rfl⟩

/-- One more directory is made at the end of a way. -/
theorem Made.concat {fs₁ : Files} (made : Made fs fs₁ dir init)
    (last : fs'.node? (dir ++ (init ++ [n])) = some .directory)
    (kept : ∀ p, p ≠ dir ++ (init ++ [n]) → fs'.node? p = fs₁.node? p) :
    Made fs fs' dir (init ++ [n]) where
  way q some sub := by
    rcases List.prefix_concat_iff.mp sub with rfl | sub
    · exact last
    · by_cases same : dir ++ q = dir ++ (init ++ [n])
      · rw [same]
        exact last
      · rw [kept _ same]
        exact made.way q some sub
  kept p off := by
    rw [kept p (off _ (by simp) (List.prefix_refl _))]
    exact made.kept p fun q some sub => off q some (sub.trans (List.prefix_append _ _))

theorem makeDirectories_of_ensure (h : fs.ensureDirectory p = .ok fs') :
    fs.makeDirectories p = (.ok (), fs') := by
  rw [makeDirectories, h]

/-- **The directories on a way below a base** are made, and nothing else, if no file is in the
way. -/
theorem Based.makeDirectories (based : fs.Based base dir) (all : ∀ part ∈ names, Path.IsName part)
    (allowed : admissible (base.stem ++ names) = .ok ()) (clear : fs.Clear dir names) :
    ∃ fs', fs.makeDirectories (Path.trim (base.stem ++ names)) = (.ok (), fs') ∧
      Made fs fs' dir names := by
  induction names using List.reverseRecOn with
  | nil =>
    have leads := based.resolve all allowed
    refine ⟨fs, makeDirectories_of_ensure (ensureDirectory_old leads based.directory), ?_⟩
    exact ⟨way_nil fs dir, fun _ _ => rfl⟩
  | append_singleton init n ih =>
    have name : Path.IsName n := all n (by simp)
    have sub : init <+: init ++ [n] := List.prefix_append _ _
    have allInit : ∀ part ∈ init, Path.IsName part := fun part h => all part (sub.subset h)
    have clearInit : fs.Clear dir init := fun q some h => clear q some (h.trans sub)
    have free := clear (init ++ [n]) (by simp) (List.prefix_refl _)
    by_cases way : fs.Way dir init
    · obtain ⟨fs', ensured, last, kept⟩ := based.ensureDirectory all allowed way free
      have made : Made fs fs dir init := ⟨way, fun _ _ => rfl⟩
      exact ⟨fs', makeDirectories_of_ensure ensured, made.concat last kept⟩
    · -- Those above it are made first.
      have missing := based.resolve all allowed
      rw [walk_missing all clearInit way] at missing
      have allowedInit : admissible (base.stem ++ init) = .ok () :=
        admissible_of_initial ⟨[n], List.append_assoc _ _ _⟩ allowed
      obtain ⟨fs₁, above, made⟩ := ih allInit allowedInit clearInit
      have free₁ : ∀ content, fs₁.node? (dir ++ (init ++ [n])) ≠ some (.file content) := by
        rw [made.kept]
        · exact free
        · intro q _ h same
          have shorter := h.length_le
          rw [← List.append_cancel_left same, List.length_append, List.length_singleton] at shorter
          omega
      obtain ⟨fs', ensured, last, kept⟩ :=
        (based.mono made.grows).ensureDirectory all allowed made.way free₁
      refine ⟨fs', ?_, made.concat last kept⟩
      rw [← List.append_assoc, Path.trim_concat name] at missing ensured ⊢
      have whole : Path.trim (base.stem ++ init ++ [n]) ≠ [] := by
        rw [Path.trim_concat name]
        simp
      rw [Files.makeDirectories, ensureDirectory_missing missing]
      simp only [dif_neg whole, Path.parent_concat name, above, ensured]

end Files

end ChangeRelay
