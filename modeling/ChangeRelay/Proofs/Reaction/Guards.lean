import ChangeRelay.Proofs.Reaction.Once

/-!
# What the window represents

A delivery that marks an id guards the mark until it was applied, it failed, or it was dropped: it
has an `InFlight`, and the window is a `DedupWindow`.
`Represents` says what the window has to do with the guards and with what was applied: the marks are
those of the guards, and behind the other entries stand the ids that were applied last, each with
the reply of its latest application.

* **`Represents.begin`**, **`Represents.complete`**, **`Represents.abandon`**: every operation keeps
  it so.
* `represents_of_play`: and so do the operations of any guards, one after the other in any order.
* `represents_of_run`: those of a handler are among them.
* **`window_represents`**: both, with what an operation leaves alone.
-/

namespace ChangeRelay.Reaction

/-- The window `w` remembers `n` ids: `owned? c` is the id that the call `c` guards, and `done` has
the ids that were applied, in order, with their replies. -/
structure Represents (n : Nat) (w : Window) (owned? : CallId → Option String)
    (done : List (String × InvocationReply)) : Prop where
  nodup : w.completed.Nodup
  /-- The last ones that were applied are remembered, in the order in which they were. -/
  completed : w.completed = latest n (done.map Prod.fst)
  /-- They and no others have a reply to be given again, that of their latest application. -/
  kept : ∀ {x r}, w.seen? x = some (.done r) ↔ x ∈ w.completed ∧ done.reverse.lookup x = some r
  /-- The guarded ids and no others are marked. -/
  marked : ∀ {x c}, w.seen? x = some (.inFlight c) ↔ owned? c = some x

namespace Represents

variable {n : Nat} {w : Window} {owned? owned?' : CallId → Option String}
variable {done : List (String × InvocationReply)} {x : String} {c : CallId}

theorem start (n : Nat) : Represents n .empty (fun _ => none) [] where
  nodup := .nil
  completed := List.drop_nil.symm
  kept := by simp
  marked := by simp

theorem size (rep : Represents n w owned? done) : w.size = min n done.length := by
  rw [Window.size, rep.completed, length_latest, List.length_map]

/-- A remembered id has a reply. -/
theorem seen_of_mem (rep : Represents n w owned? done) (hx : x ∈ w.completed) :
    ∃ r, w.seen? x = some (.done r) := by
  have applied : x ∈ done.reverse.map Prod.fst := by
    rw [rep.completed] at hx
    rw [List.map_reverse, List.mem_reverse]
    exact (latest_sublist _ _).subset hx
  cases last : done.reverse.lookup x with
  | some r => exact ⟨r, rep.kept.mpr ⟨hx, last⟩⟩
  | none =>
    obtain ⟨p, hp, rfl⟩ := List.mem_map.mp applied
    exact absurd (List.lookup_eq_none_iff.mp last p hp) (by simp)

/-- **What is remembered is not in flight.** -/
theorem disjoint (rep : Represents n w owned? done) (hx : x ∈ w.completed) : owned? c ≠ some x := by
  intro own
  obtain ⟨r, seen⟩ := rep.seen_of_mem hx
  exact absurd ((rep.marked.mpr own).symm.trans seen) (by simp)

/-- **A new mark** is that of a new guard. -/
theorem begin (rep : Represents n w owned? done) (new : w.seen? x = none) (free : owned? c = none)
    (next : ∀ d, owned?' d = if d = c then some x else owned? d) :
    Represents n (w.begin x c) owned?' done where
  nodup := rep.nodup
  completed := rep.completed
  kept {y r} := by
    rw [Window.seen?_begin]
    by_cases hy : y = x
    · rw [if_pos hy, hy]
      refine iff_of_false (by simp) fun h => ?_
      obtain ⟨r, seen⟩ := rep.seen_of_mem h.1
      exact absurd (new.symm.trans seen) (by simp)
    · rw [if_neg hy]
      exact rep.kept
  marked {y d} := by
    rw [Window.seen?_begin, next]
    by_cases hy : y = x <;> by_cases hd : d = c
    · simp [hy, hd]
    · rw [if_pos hy, if_neg hd, hy, ← rep.marked, new]
      simp [Ne.symm hd]
    · rw [if_neg hy, if_pos hd, rep.marked, hd, free]
      simp [Ne.symm hy]
    · rw [if_neg hy, if_neg hd]
      exact rep.marked

/-- The marks after that of a guard is gone, which is no more. -/
theorem unmark (rep : Represents n w owned? done) (own : owned? c = some x)
    (next : ∀ d, owned?' d = if d = c then none else owned? d) {y : String} {d : CallId} :
    (y ≠ x ∧ w.seen? y = some (.inFlight d)) ↔ owned?' d = some y := by
  rw [next, rep.marked]
  by_cases hd : d = c
  · rw [if_pos hd, hd, own]
    simp [eq_comm]
  · rw [if_neg hd]
    refine and_iff_right_of_imp fun other => ?_
    rintro rfl
    have mark := rep.marked.mpr own
    rw [rep.marked.mpr other] at mark
    exact hd (Seen.inFlight.inj (Option.some.inj mark))

/-- **A mark that is taken back** leaves what is remembered. -/
theorem abandon (rep : Represents n w owned? done) (own : owned? c = some x)
    (next : ∀ d, owned?' d = if d = c then none else owned? d) :
    Represents n (w.abandon x) owned?' done where
  nodup := by
    rw [Window.completed_abandon]
    exact rep.nodup
  completed := (Window.completed_abandon w x).trans rep.completed
  kept {y r} := by
    rw [Window.seen?_abandon (rep.marked.mpr own), Window.completed_abandon]
    by_cases hy : y = x
    · rw [if_pos hy, hy]
      exact iff_of_false (by simp) fun h => rep.disjoint h.1 own
    · rw [if_neg hy]
      exact rep.kept
  marked {y d} := by
    rw [Window.seen?_abandon (rep.marked.mpr own), ← rep.unmark own next]
    by_cases hy : y = x <;> simp [hy]

/-- **An id that was applied** is the last one that is remembered. Those past the capacity are
forgotten, and of these none is in flight. -/
theorem complete (rep : Represents n w owned? done) (pos : 0 < n) (own : owned? c = some x)
    (next : ∀ d, owned?' d = if d = c then none else owned? d) (reply : InvocationReply) :
    Represents n (w.complete n x reply) owned?' (done ++ [(x, reply)]) := by
  have new : x ∉ w.completed := fun hx => rep.disjoint hx own
  have seen := Window.seen?_complete pos rep.nodup new reply
  constructor
  case nodup =>
    rw [Window.completed_complete]
    refine List.Nodup.sublist (latest_sublist _ _) ?_
    exact List.nodup_append_comm.mp (List.nodup_cons.mpr ⟨new, rep.nodup⟩)
  case completed =>
    rw [Window.completed_complete, rep.completed, latest_concat, List.map_append,
      List.map_singleton]
  case kept =>
    intro y r
    rw [seen, Window.completed_complete, List.reverse_append, List.reverse_singleton,
      List.singleton_append, List.lookup_cons]
    by_cases hy : y = x
    · have last : x ∈ latest n (w.completed ++ [x]) := mem_latest_append_cons pos
      simp [hy, last]
    · have other : (y == x) = false := by simpa using hy
      rw [if_neg hy, other]
      have old (last : y ∈ latest n (w.completed ++ [x])) : y ∈ w.completed := by
        have all := (latest_sublist _ _).subset last
        rw [List.mem_append, List.mem_singleton] at all
        exact all.resolve_right hy
      by_cases last : y ∈ latest n (w.completed ++ [x])
      · rw [if_neg fun h => h.2 last, rep.kept]
        exact and_congr_left fun _ => iff_of_true (old last) last
      · refine iff_of_false (fun h => ?_) fun h => last h.1
        split at h
        · exact absurd h (by simp)
        · next gone => exact gone ⟨(rep.kept.mp h).1, last⟩
  case marked =>
    intro y d
    rw [seen, ← rep.unmark own next]
    by_cases hy : y = x
    · simp [hy]
    · rw [if_neg hy, and_iff_right hy]
      split
      · next gone =>
        refine iff_of_false (by simp) fun mark => ?_
        exact rep.disjoint gone.1 (rep.marked.mp mark)
      · rfl

end Represents

/-! ## What an operation leaves alone -/

/-- No mark is gone but that of the call `c`. -/
def Window.KeepsMarks (w w' : Window) (c : CallId) : Prop :=
  ∀ {x d}, d ≠ c → w.seen? x = some (.inFlight d) → w'.seen? x = some (.inFlight d)

/-- Nothing that is remembered is gone. -/
def Window.KeepsReplies (w w' : Window) : Prop :=
  w'.completed = w.completed ∧ ∀ {x r}, w.seen? x = some (.done r) → w'.seen? x = some (.done r)

section Kept

variable {n : Nat} {w w' : Window} {owned? owned?' : CallId → Option String}
variable {done done' : List (String × InvocationReply)} {c : CallId}

theorem Represents.keepsMarks (rep : Represents n w owned? done)
    (rep' : Represents n w' owned?' done') (others : ∀ d, d ≠ c → owned?' d = owned? d) :
    w.KeepsMarks w' c := by
  intro x d hd mark
  rw [rep'.marked, others d hd]
  exact rep.marked.mp mark

/-- What was applied is all that matters. -/
theorem Represents.keepsReplies (rep : Represents n w owned? done)
    (rep' : Represents n w' owned?' done) : w.KeepsReplies w' := by
  have same : w'.completed = w.completed := rep'.completed.trans rep.completed.symm
  refine ⟨same, fun {x r} seen => ?_⟩
  rw [rep'.kept, same]
  exact rep.kept.mp seen

end Kept

/-! ## Operations in any order -/

/-- What a call does with the window. -/
inductive Act
  /-- It asks for an id. If nothing is known of the id, the call marks it and guards the mark. -/
  | begin (c : CallId) (x : String)
  /-- The id that it guards was applied, with this reply. -/
  | complete (c : CallId) (reply : InvocationReply)
  /-- The id that it guards was not applied: this failed, or the call was dropped. -/
  | abandon (c : CallId)
deriving DecidableEq

/-- A window with the ids that calls guard, and those that were applied so far. -/
structure Guarded where
  window : Window
  guards : Table CallId String
  done : List (String × InvocationReply)

namespace Guarded

/-- Nothing is known, guarded or applied. -/
def start : Guarded := ⟨.empty, .empty, []⟩

/-- One operation on a window that remembers `n` ids, if it can be taken. A call guards one id. -/
def act (n : Nat) (g : Guarded) : Act → Option Guarded
  | .begin c x =>
    if g.guards.contains c then none
    else match g.window.seen? x with
      | none => some { g with window := g.window.begin x c, guards := g.guards.set c x }
      | some _ => some g
  | .complete c reply => (g.guards.get? c).map fun x =>
      { window := g.window.complete n x reply
        guards := g.guards.erase c
        done := g.done ++ [(x, reply)] }
  | .abandon c => (g.guards.get? c).map fun x =>
      { g with window := g.window.abandon x, guards := g.guards.erase c }

/-- Operations one after the other. -/
def play (n : Nat) (acts : List Act) : Option Guarded := acts.foldlM (Guarded.act n) .start

/-- The window represents the guards and what was applied. -/
abbrev Sound (n : Nat) (g : Guarded) : Prop := Represents n g.window g.guards.get? g.done

end Guarded

/-- The call that takes an operation. -/
def Act.call : Act → CallId
  | .begin c _ => c
  | .complete c _ => c
  | .abandon c => c

section Play

variable {n : Nat} {g g' : Guarded} {a : Act}

/-- A call that asks for an id guards none, and then guards this one if nothing is known of it. -/
theorem Guarded.act_begin {c : CallId} {x : String} (h : g.act n (.begin c x) = some g') :
    g' = g ∨ g.guards.get? c = none ∧ g.window.seen? x = none ∧
      g' = { g with window := g.window.begin x c, guards := g.guards.set c x } := by
  simp only [Guarded.act] at h
  split at h
  · exact absurd h (by simp)
  · next free =>
    split at h
    · next new => exact .inr ⟨by simpa [Table.contains] using free, new, (Option.some.inj h).symm⟩
    · exact .inl (Option.some.inj h).symm

/-- **Every operation keeps a window sound.** -/
theorem Guarded.Sound.act (sound : g.Sound n) (pos : 0 < n) (h : g.act n a = some g') :
    g'.Sound n := by
  cases a with
  | begin c x =>
    rcases Guarded.act_begin h with rfl | ⟨free, new, rfl⟩
    · exact sound
    · exact sound.begin new free (Table.get?_set g.guards c x)
  | complete c reply =>
    obtain ⟨x, own, rfl⟩ := Option.map_eq_some_iff.mp h
    exact sound.complete pos own (Table.get?_erase g.guards c) reply
  | abandon c =>
    obtain ⟨x, own, rfl⟩ := Option.map_eq_some_iff.mp h
    exact sound.abandon own (Table.get?_erase g.guards c)

/-- Only the guard of the call that takes an operation changes. -/
theorem Guarded.act_others (h : g.act n a = some g') {d : CallId} (hd : d ≠ a.call) :
    g'.guards.get? d = g.guards.get? d := by
  cases a with
  | begin c x =>
    rcases Guarded.act_begin h with rfl | ⟨-, -, rfl⟩
    · rfl
    · exact (Table.get?_set g.guards c x d).trans (if_neg hd)
  | complete c reply =>
    obtain ⟨x, -, rfl⟩ := Option.map_eq_some_iff.mp h
    exact (Table.get?_erase g.guards c d).trans (if_neg hd)
  | abandon c =>
    obtain ⟨x, -, rfl⟩ := Option.map_eq_some_iff.mp h
    exact (Table.get?_erase g.guards c d).trans (if_neg hd)

/-- Only an application adds to what was applied. -/
theorem Guarded.act_done (h : g.act n a = some g') (other : ∀ c reply, a ≠ .complete c reply) :
    g'.done = g.done := by
  cases a with
  | begin c x => rcases Guarded.act_begin h with rfl | ⟨-, -, rfl⟩ <;> rfl
  | complete c reply => exact absurd rfl (other c reply)
  | abandon c =>
    obtain ⟨x, -, rfl⟩ := Option.map_eq_some_iff.mp h
    rfl

/-- **Operations of any guards, in any order**, keep a window sound. -/
theorem represents_of_play (pos : 0 < n) {acts : List Act} (h : Guarded.play n acts = some g) :
    g.Sound n := by
  have from_ : ∀ (acts : List Act) (g₀ : Guarded), g₀.Sound n →
      acts.foldlM (Guarded.act n) g₀ = some g → g.Sound n := by
    intro acts
    induction acts with
    | nil =>
      intro g₀ sound h
      obtain rfl := Option.some.inj h
      exact sound
    | cons a acts ih =>
      intro g₀ sound h
      obtain ⟨g₁, step, rest⟩ := Option.bind_eq_some_iff.mp ((List.foldlM_cons ..).symm.trans h)
      exact ih g₁ (sound.act pos step) rest
  exact from_ acts .start (.start n) h

end Play

/-! ## The operations of a handler -/

/-- The id that a delivery guards: it is being applied. -/
def Delivery.guarded? (d : Delivery) : Option String :=
  match d.phase with
  | .applying _ => some d.id
  | _ => none

/-- The id that a call guards. -/
def State.guarded? (st : State) (c : CallId) : Option String :=
  (st.deliveries.get? c).bind Delivery.guarded?

/-- The ids that were applied, in order, with their replies. -/
def applications (h : History) : List (String × InvocationReply) :=
  (applied h).map fun a => (a.id, appliedReply a)

variable {s : Settings} {st st' : State} {l : Label} {left : Left} {es : List Effect}
variable {h : History} {c : CallId}

theorem guarded?_eq_some {x : String} :
    st.guarded? c = some x ↔ ∃ a, st.deliveries.get? c = some ⟨x, .applying a⟩ := by
  unfold State.guarded?
  cases st.deliveries.get? c with
  | none => simp
  | some d =>
    obtain ⟨y, phase⟩ := d
    cases phase <;> simp [Delivery.guarded?]

theorem Left.guarded?_keep (left : Left) (id : CallId) (d : Delivery) :
    (left.keep id d).guarded? = d.guarded? := by
  unfold Left.keep
  cases left.release? with
  | none => rfl
  | some reply? =>
    simp only [Delivery.release]
    split
    · next waits => simp [Delivery.guarded?, waits]
    · rfl

/-- A step changes the guard of the delivery that takes it, and no other. -/
theorem After.guarded? (after : After st l.id left st') (d : CallId) :
    st'.guarded? d = if d = l.id then left.delivery?.bind Delivery.guarded? else st.guarded? d := by
  unfold State.guarded?
  rw [after.deliveries]
  by_cases hd : d = l.id
  · rw [if_pos hd, if_pos hd]
  · rw [if_neg hd, if_neg hd, Option.bind_map]
    refine congrArg _ (funext fun e => ?_)
    exact left.guarded?_keep l.id e

theorem applications_concat (h : History) (m : Moment State Label Effect) :
    applications (h ++ [m]) =
      applications h ++ (applied? m).toList.map fun a => (a.id, appliedReply a) := by
  rw [applications, applied_concat, List.map_append]
  rfl

/-- **A step of a handler** is operations on the window, if it is not aside from it: one to begin
with, one to begin with and to abandon, or one of the two that end a guard. -/
theorem Move.represents (o : Orderly st) (m : Move s st l left es) {n : Nat}
    {done : List (String × InvocationReply)} {guarded?' : CallId → Option String}
    (rep : Represents s.remembered st.window st.guarded? done)
    (next : ∀ d, guarded?' d =
      if d = l.id then left.delivery?.bind Delivery.guarded? else st.guarded? d) :
    Represents s.remembered left.window guarded?'
      (done ++ (applied? ⟨n, l, st, es⟩).toList.map fun a => (a.id, appliedReply a)) := by
  have quiet (other : ∀ c, l ≠ .answer c .taken) :
      done ++ (applied? ⟨n, l, st, es⟩).toList.map (fun a => (a.id, appliedReply a)) = done := by
    rw [applied?_none other]
    exact List.append_nil done
  have free {c : CallId} (h : ∀ x a, st.deliveries.get? c ≠ some ⟨x, .applying a⟩) :
      st.guarded? c = none := by
    refine Option.eq_none_iff_forall_ne_some.mpr fun x own => ?_
    obtain ⟨a, at_⟩ := guarded?_eq_some.mp own
    exact h x a at_
  -- A delivery that guards nothing, before or after.
  have aside (old : ∀ x a, st.deliveries.get? l.id ≠ some ⟨x, .applying a⟩)
      (new : left.delivery?.bind Delivery.guarded? = none) : guarded?' = st.guarded? := by
    funext d
    rw [next, new]
    by_cases hd : d = l.id
    · rw [if_pos hd, hd, free old]
    · rw [if_neg hd]
  cases m with
  | unnamed free _ => rw [quiet (by simp), aside (by simp [Label.id, free]) rfl]; exact rep
  | again free _ _ => rw [quiet (by simp), aside (by simp [Label.id, free]) rfl]; exact rep
  | await free _ _ => rw [quiet (by simp), aside (by simp [Label.id, free]) rfl]; exact rep
  | @refuse id i _ unseen _ new _ =>
    rw [quiet (by simp)]
    have begun := rep.begin (c := id) new (free (by simp [unseen])) fun _ => rfl
    refine begun.abandon (if_pos rfl) fun d => ?_
    rw [next]
    by_cases hd : d = id
    · exact (if_pos hd).trans (if_pos hd).symm
    · exact (if_neg hd).trans ((if_neg hd).trans (if_neg hd)).symm
  | @apply id _ _ unseen _ new _ =>
    rw [quiet (by simp)]
    exact rep.begin (c := id) new (free (by simp [unseen])) next
  | fail fault at_ =>
    rw [quiet (by simp), o.id_eq at_]
    exact rep.abandon (guarded?_eq_some.mpr ⟨_, at_⟩) next
  | complete at_ =>
    rw [applied?_eq_some rfl at_, Option.toList_some, List.map_singleton, o.id_eq at_]
    exact rep.complete (remembered_pos s) (guarded?_eq_some.mpr ⟨_, at_⟩) next _
  | resume at_ => rw [quiet (by simp), aside (by simp [Label.id, at_]) rfl]; exact rep
  | expire at_ => rw [quiet (by simp), aside (by simp [Label.id, at_]) rfl]; exact rep
  | interrupt at_ =>
    rw [quiet (by simp)]
    exact rep.abandon (guarded?_eq_some.mpr ⟨_, at_⟩) next
  | leave at_ idle =>
    have old : ∀ x a, st.deliveries.get? (Label.drop _).id ≠ some ⟨x, .applying a⟩ :=
      fun x a h => idle a (by rw [Option.some.inj (at_.symm.trans h)])
    rw [quiet (by simp), aside old rfl]
    exact rep

/-- **The window of a handler** represents its deliveries and what was applied, in every run. -/
theorem represents_of_run (run : (machine s).Run h st) :
    Represents s.remembered st.window st.guarded? (applications h) := by
  induction run with
  | start => exact .start _
  | @next h st st' l es run hs ih =>
    obtain ⟨left, m, after⟩ := step_move hs
    rw [after.window, applications_concat]
    exact m.represents (orderly_of_run run) ih after.guarded?

/-! ## The result -/

/-- The replies that were given when invocations were applied. -/
theorem success_of_applications {x : String} {r : InvocationReply}
    (last : (applications h).reverse.lookup x = some r) : r.success = true := by
  obtain ⟨later, earlier, split, -⟩ := List.lookup_eq_some_iff.mp last
  have mem : (x, r) ∈ (applications h).reverse := by
    rw [split]
    exact List.mem_append_right _ List.mem_cons_self
  obtain ⟨a, -, ha⟩ := List.mem_map.mp (List.mem_reverse.mp mem)
  obtain ⟨-, rfl⟩ := Prod.mk.inj ha
  rfl

/-- What there is to be said of a window of `n` ids that was operated on. -/
structure Guarded.Windowed (n : Nat) (g : Guarded) : Prop where
  represents : g.Sound n
  size : g.window.size = min n g.done.length
  disjoint : ∀ {x c}, x ∈ g.window.completed → g.guards.get? c ≠ some x
  /-- No operation takes the mark of another guard, also if ids are forgotten at it. -/
  evicts : ∀ {a g'}, g.act n a = some g' → g.window.KeepsMarks g'.window a.call
  /-- Only at an application ids are forgotten. -/
  abandons : ∀ {a g'}, g.act n a = some g' → (∀ c reply, a ≠ .complete c reply) →
    g.window.KeepsReplies g'.window

theorem windowed_of_play {n : Nat} (pos : 0 < n) {acts : List Act} {g : Guarded}
    (h : Guarded.play n acts = some g) : g.Windowed n := by
  have rep := represents_of_play pos h
  constructor
  case represents => exact rep
  case size => exact Represents.size rep
  case disjoint => exact Represents.disjoint rep
  case evicts =>
    intro a g' step
    exact Represents.keepsMarks rep (rep.act pos step) fun d hd => Guarded.act_others step hd
  case abandons =>
    intro a g' step other
    have rep' : Represents n _ _ _ := rep.act pos step
    rw [Guarded.act_done step other] at rep'
    exact Represents.keepsReplies rep rep'

/-- What there is to be said of the window of a handler after `h`. -/
structure Windowed (s : Settings) (h : History) (st : State) : Prop where
  represents : Represents (max s.capacity 1) st.window st.guarded? (applications h)
  size : st.window.size = min (max s.capacity 1) (applied h).length
  successful : ∀ {x r}, st.window.seen? x = some (.done r) → r.success = true
  disjoint : ∀ {x c}, x ∈ st.window.completed → st.guarded? c ≠ some x
  /-- No step takes the mark of another delivery, also if ids are forgotten at it. -/
  evicts : ∀ {l st' es}, step s st l = some (st', es) → st.window.KeepsMarks st'.window l.id
  /-- Only at an application ids are forgotten. -/
  abandons : ∀ {l st' es}, step s st l = some (st', es) → (∀ c, l ≠ .answer c .taken) →
    st.window.KeepsReplies st'.window

theorem windowed_of_run (run : (machine s).Run h st) : Windowed s h st := by
  have rep := represents_of_run run
  constructor
  case represents => exact rep
  case size => exact rep.size.trans (by rw [applications, List.length_map]; rfl)
  case successful => exact fun seen => success_of_applications (rep.kept.mp seen).2
  case disjoint => exact rep.disjoint
  case evicts =>
    intro l st' es hs
    obtain ⟨left, -, after⟩ := step_move hs
    exact rep.keepsMarks (represents_of_run (run.next hs)) fun d hd => by
      rw [after.guarded?, if_neg hd]
  case abandons =>
    intro l st' es hs other
    have rep' := represents_of_run (run.next hs)
    have same : applications (h ++ [next s h st l es]) = applications h := by
      rw [applications_concat, applied?_none other]
      exact List.append_nil _
    rw [same] at rep'
    exact rep.keepsReplies rep'

/-- **The window and its guards.** After operations of any guards in any order, and in every state
that a handler comes to, the window has the marks of those that guard one, and the ids that were
applied last with the replies of their latest applications. -/
theorem window_represents :
    (∀ n acts g, 0 < n → Guarded.play n acts = some g → g.Windowed n) ∧
      ∀ s h st, (machine s).Run h st → Windowed s h st :=
  ⟨fun _ _ _ pos played => windowed_of_play pos played, fun _ _ _ run => windowed_of_run run⟩

namespace Sample

def reply (id : String) : InvocationReply := ⟨true, "applied", id⟩

/-- Two ids are guarded at the same time. One of them is abandoned, begun again and applied, and it
is forgotten when the other one is applied, with a third one in flight. -/
def acts : List Act :=
  [.begin 0 "x", .begin 1 "y", .begin 2 "x", .abandon 0, .begin 2 "x", .complete 2 (reply "x"),
    .begin 0 "z", .complete 1 (reply "y"), .begin 2 "x"]

end Sample

theorem window_represents_sample :
    (∃ g, Guarded.play 1 Sample.acts = some g ∧ g.window.completed = ["y"] ∧ g.Windowed 1) ∧
      ∃ h st, (machine Sample.settings).play Sample.labels = some (h, st) ∧
        st.window.completed = ["x"] ∧ Windowed Sample.settings h st := by
  have acted : (Guarded.play 1 Sample.acts).map (fun g => g.window.completed) = some ["y"] := by
    decide +kernel
  have played : ((machine Sample.settings).play Sample.labels).map
      (fun r => r.2.window.completed) = some ["x"] := by
    decide +kernel
  obtain ⟨g, hg, last⟩ := Option.map_eq_some_iff.mp acted
  obtain ⟨⟨h, st⟩, hr, last'⟩ := Option.map_eq_some_iff.mp played
  exact ⟨⟨g, hg, last, window_represents.1 1 _ g (by decide) hg⟩,
    ⟨h, st, hr, last', window_represents.2 _ h st (Machine.run_of_play hr)⟩⟩

end ChangeRelay.Reaction
