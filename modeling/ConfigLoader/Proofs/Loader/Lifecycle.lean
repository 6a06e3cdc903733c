import Mathlib
import ConfigLoader.Proofs.Loader.Watched

/-! # The life of services

Loaders side by side are used in any way, while building, compiling and closing may fail. What one of
them does to the books is one of four steps, and the books are kept in order by each: a service has one
owner, is asked while it is in its slot, and is closed once when it leaves it.
-/
namespace ConfigLoader.Lifecycle
variable {W S : Type}

/-! ## Books -/

namespace Event

def loader : Event → Nat
  | attempt i | build i _ | ask i _ | close i _ => i

def service : Event → Option Nat
  | attempt _ => none
  | build _ k | ask _ k | close _ k => some k

def isClose (k : Nat) : Event → Bool
  | close _ j => j == k
  | _ => false

def isAttempt (i : Nat) : Event → Bool
  | attempt j => j == i
  | _ => false

end Event

def closes (k : Nat) (es : List Event) : Nat := es.countP (Event.isClose k)

/-- How often a loader tried to build a service. -/
def attempts (i : Nat) (es : List Event) : Nat := es.countP (Event.isAttempt i)

def chronicle (k : Nat) (es : List Event) : List Event := es.filter fun e => e.service == some k

/-- What is known of loaders: the number of the service in each slot, how many services were built,
and the events. -/
structure Books where
  slots : Nat → Option Nat
  built : Nat
  events : List Event

def books (x : Scene W S) : Books :=
  ⟨fun i => (x.slots i).map Prod.fst, x.state.world.built, x.state.world.events⟩

theorem books_put (i : Nat) (l : Loader (Watched W) (Nat × S)) (x : Scene W S) :
    books (x.put i l) = ⟨Function.update (books x).slots i (l.slot.map Prod.fst),
      l.state.world.built, l.state.world.events⟩ := by
  simp only [books, Group.put, Books.mk.injEq, and_true]
  funext j
  by_cases hj : j = i
  · rw [hj, if_pos rfl, Function.update_self]
  · rw [if_neg hj, Function.update_of_ne hj]

inductive Step (i : Nat) (x : Books) : Books → Prop
  | attempt (h : x.slots i = none) : Step i x { x with events := .attempt i :: x.events }
  | build (h : x.slots i = none) :
      Step i x ⟨Function.update x.slots i (some x.built), x.built + 1,
        .build i x.built :: x.events⟩
  | ask {k : Nat} (h : x.slots i = some k) : Step i x { x with events := .ask i k :: x.events }
  | close {k : Nat} (h : x.slots i = some k) :
      Step i x { x with slots := Function.update x.slots i none, events := .close i k :: x.events }

def Moves (is : List Nat) : Books → Books → Prop :=
  Relation.ReflTransGen fun x y => ∃ i ∈ is, Step i x y

theorem Moves.mono {is js : List Nat} {x y : Books} (h : Moves is x y) (hs : is ⊆ js) :
    Moves js x y :=
  Relation.ReflTransGen.mono (fun _ _ ⟨i, hi, hst⟩ => ⟨i, hs hi, hst⟩) _ _ h

/-! ## What uses do to the books -/

inductive Called (i : Nat) (x : Books) : Books → Prop
  /-- The content has no length. -/
  | kept {k : Nat} (h : x.slots i = some k) : Called i x x
  | asked {k : Nat} (h : x.slots i = some k) :
      Called i x { x with events := .ask i k :: x.events }
  | refused (h : x.slots i = none) : Called i x { x with events := .attempt i :: x.events }
  | built (h : x.slots i = none) :
      Called i x ⟨Function.update x.slots i (some x.built), x.built + 1,
        .build i x.built :: .attempt i :: x.events⟩
  | first (h : x.slots i = none) :
      Called i x ⟨Function.update x.slots i (some x.built), x.built + 1,
        .ask i x.built :: .build i x.built :: .attempt i :: x.events⟩

theorem Called.moves {i : Nat} {x y : Books} (h : Called i x y) : Moves [i] x y := by
  have one : ∀ {a b : Books}, Step i a b → ∃ j ∈ [i], Step j a b :=
    fun hs => ⟨i, List.mem_singleton_self i, hs⟩
  cases h with
  | kept h => exact .refl
  | asked h => exact .single (one (.ask h))
  | refused h => exact .single (one (.attempt h))
  | built h => exact .tail (.single (one (.attempt h))) (one (.build h))
  | first h =>
    refine .tail (.tail (.single (one (.attempt h))) (one (.build h))) (one (.ask ?_))
    exact Function.update_self ..

theorem Called.attempts {i : Nat} {x y : Books} (h : Called i x y) :
    attempts i y.events = attempts i x.events + if x.slots i = none then 1 else 0 := by
  cases h <;> simp [Lifecycle.attempts, Event.isAttempt, *]

section Calls
variable (ops : Nat → ServiceOps W S)

/-- The services of all loaders, watched. -/
def watch (i : Nat) : ServiceOps (Watched W) (Nat × S) :=
  watched i (ops i)

/-- Asking the service in a slot adds an event, unless the content has no length. -/
theorem ask_books (i : Nat) (path content : Value) (x : Scene W S) {s : Nat × S}
    {l : Loader (Watched W) (Nat × S)} (hl : l.slot = some s) :
    let b := books (x.put i l)
    let c := books (x.put i (l.ask (watch ops i) path content s).2)
    c = b ∨ c = { b with events := .ask i s.1 :: b.events } := by
  unfold Loader.ask
  cases Loader.contentLength content with
  | error f => exact .inl rfl
  | ok n =>
    right
    simp only [books_put, hl]
    rfl

theorem call_books (i : Nat) (path content : Value) (x : Scene W S) :
    Called i (books x) (books ((Use.call i path content).perform (watch ops) x).2) := by
  have hscene : ∀ l l' : Loader (Watched W) (Nat × S), l.scene = l'.scene →
      books (x.put i l) = books (x.put i l') := by
    intro l l' hl
    obtain ⟨hs, hw⟩ := Prod.mk.inj hl
    rw [books_put, books_put, hs, hw]
  simp only [Use.perform]
  -- The messages of a call are in no book, so it may be read as its attempt.
  rw [hscene _ _ (Loader.call_attempt (watch ops i) path content (x.loader i)).2]
  cases hs : x.slots i with
  | some s =>
    have hk : (books x).slots i = some s.1 := by simp only [books, hs, Option.map_some]
    rw [Loader.attempt_held (l := x.loader i) _ _ _ hs]
    have ha := ask_books ops i path content x (l := x.loader i) hs
    rw [Group.put_loader] at ha
    rcases ha with ha | ha
    · rw [ha]
      exact .kept hk
    · rw [ha]
      exact .asked hk
  | none =>
    have hk : (books x).slots i = none := by simp only [books, hs, Option.map_none]
    let t := x.state.world
    rcases hc : (ops i).create (bare ((x.loader i).note .info "Creating compiler service").state)
      with ⟨r, w⟩
    cases r with
    | error f =>
      have hw : (watch ops i).create ((x.loader i).note .info "Creating compiler service").state =
          (.error f, t.after t.built [.attempt i] w) := by
        simp only [watch, watched, hc]
        rfl
      rw [Loader.attempt_refused (l := x.loader i) _ _ _ hs hw, books_put]
      simp only [Option.map_none, ← hk, Function.update_eq_self]
      exact .refused hk
    | ok s =>
      have hw : (watch ops i).create ((x.loader i).note .info "Creating compiler service").state =
          (.ok (t.built, s), t.after (t.built + 1) [.build i t.built, .attempt i] w) := by
        simp only [watch, watched, hc]
        rfl
      rw [Loader.attempt_created (l := x.loader i) _ _ _ hs hw]
      rcases ask_books ops i path content x (s := (t.built, s))
        (l := ⟨some (t.built, s), t.after (t.built + 1) [.build i t.built, .attempt i] w⟩) rfl
        with ha | ha
      · rw [ha, books_put]
        exact .built hk
      · rw [ha, books_put]
        exact .first hk

theorem close_books (i : Nat) (x : Scene W S) :
    books (x.put i ((x.loader i).close (watch ops i)).2) =
      match (books x).slots i with
      | none => books x
      | some k => ⟨Function.update (books x).slots i none, (books x).built,
          .close i k :: (books x).events⟩ := by
  cases hs : x.slots i with
  | none =>
    have hl : (x.loader i).slot = none := hs
    simp only [books, hs, Option.map_none, Loader.close, hl, Group.put_loader]
  | some s =>
    have hl : (x.loader i).slot = some s := hs
    rw [books_put]
    simp only [books, hs, Option.map_some, Loader.close, hl]
    rfl

theorem close_moves (i : Nat) (x : Scene W S) :
    Moves [i] (books x) (books (x.put i ((x.loader i).close (watch ops i)).2)) := by
  rw [close_books]
  cases hk : (books x).slots i with
  | none => exact .refl
  | some k => exact .single ⟨i, List.mem_singleton_self i, .close hk⟩

theorem perform_moves (u : Use) (x : Scene W S) :
    Moves u.loaders (books x) (books (u.perform (watch ops) x).2) := by
  refine Use.perform_respects (R := fun x y => Moves u.loaders (books x) (books y))
    (fun _ => .refl) (fun h1 h2 => h1.trans h2) u ?_ ?_ x
  · intro i hi path content x
    exact (call_books ops i path content x).moves.mono (List.cons_subset.mpr ⟨hi, List.nil_subset _⟩)
  · intro i hi x
    exact (close_moves ops i x).mono (List.cons_subset.mpr ⟨hi, List.nil_subset _⟩)

theorem perform_slots {j : Nat} (u : Use) (x : Scene W S) (hj : j ∉ u.loaders) :
    (u.perform (watch ops) x).2.slots j = x.slots j := by
  refine Use.perform_respects (R := fun x y => y.slots j = x.slots j)
    (fun _ => rfl) (fun h1 h2 => h2.trans h1) u ?_ ?_ x
  · intro i hi path content x
    exact Group.put_slots_other fun h => hj (h ▸ hi)
  · intro i hi x
    exact Group.put_slots_other fun h => hj (h ▸ hi)

end Calls

/-! ## Books that are kept in order -/

structure Kept (x : Books) : Prop where
  numbered : ∀ e ∈ x.events, ∀ k, e.service = some k → k < x.built
  /-- Each service has an owner, and nothing was done with it but by its owner. -/
  owned : ∀ k, k < x.built → ∃ i, .build i k ∈ x.events ∧
    ∀ e ∈ x.events, e.service = some k → e.loader = i
  held : ∀ i k, x.slots i = some k → .build i k ∈ x.events
  closed : ∀ i k, .build i k ∈ x.events →
    closes k x.events = if x.slots i = some k then 0 else 1
  unasked : ∀ later earlier i j k, x.events = later ++ .close i k :: earlier → .ask j k ∉ later

section Kept
variable {x y : Books} {i j k : Nat}

theorem Kept.owner (hx : Kept x) {e : Event} (hb : .build i k ∈ x.events) (he : e ∈ x.events)
    (hk : e.service = some k) : e.loader = i := by
  obtain ⟨o, -, ho⟩ := hx.owned k (hx.numbered _ hb k rfl)
  exact (ho e he hk).trans (ho _ hb rfl).symm

theorem not_close_of_closes {es : List Event} (h : closes k es = 0) : .close i k ∉ es := by
  intro hm
  have hn := List.countP_eq_zero.mp h _ hm
  simp [Event.isClose] at hn

theorem closes_self {es : List Event} (h : closes k es = 0) : closes k (.close i k :: es) = 1 := by
  have hc : Event.isClose k (.close i k) = true := beq_self_eq_true k
  rw [closes, List.countP_cons_of_pos hc, ← closes, h]

/-- Another event on top of those before it: either it does not ask, or nobody closed what it asks. -/
theorem unasked_cons {e : Event} {es : List Event}
    (hx : ∀ later earlier i j k, es = later ++ .close i k :: earlier → .ask j k ∉ later)
    (he : ∀ i k, e = .ask i k → ∀ j, .close j k ∉ es) (later earlier : List Event) (i j k : Nat)
    (hes : e :: es = later ++ .close i k :: earlier) : .ask j k ∉ later := by
  cases later with
  | nil => exact List.not_mem_nil
  | cons a later =>
    obtain ⟨rfl, rfl⟩ := List.cons.inj hes
    intro hm
    rcases List.mem_cons.mp hm with rfl | hm
    · exact he j k rfl i (List.mem_append_right _ List.mem_cons_self)
    · exact hx later earlier i j k rfl hm

theorem Kept.start : Kept ⟨fun _ => none, 0, []⟩ where
  numbered _ he := absurd he List.not_mem_nil
  owned k hk := absurd hk (Nat.not_lt_zero k)
  held _ _ h := by cases h
  closed _ _ h := absurd h List.not_mem_nil
  unasked later earlier i j k h := by
    cases later <;> cases h

theorem Kept.owned_cons (hx : Kept x) {e : Event}
    (he : ∀ k, e.service = some k → .build e.loader k ∈ x.events) (hk : k < x.built) :
    ∃ i, .build i k ∈ e :: x.events ∧
      ∀ a ∈ e :: x.events, a.service = some k → a.loader = i := by
  obtain ⟨i, hi, ho⟩ := hx.owned k hk
  refine ⟨i, List.mem_cons_of_mem _ hi, fun a ha hak => ?_⟩
  rcases List.mem_cons.mp ha with rfl | ha
  · have h : (Event.build a.loader k).loader = i := ho _ (he k hak) rfl
    exact h
  · exact ho a ha hak

theorem Kept.numbered_cons (hx : Kept x) {e : Event}
    (he : ∀ k, e.service = some k → .build e.loader k ∈ x.events) :
    ∀ a ∈ e :: x.events, ∀ k, a.service = some k → k < x.built := by
  intro a ha k hk
  rcases List.mem_cons.mp ha with rfl | ha
  · exact hx.numbered _ (he k hk) k rfl
  · exact hx.numbered a ha k hk

theorem Kept.noted (hx : Kept x) (e : Event) (hb : ∀ i k, e ≠ .build i k)
    (hc : ∀ i k, e ≠ .close i k) (hs : ∀ k, e.service = some k → x.slots e.loader = some k) :
    Kept { x with events := e :: x.events } := by
  have hbuild : ∀ i k, .build i k ∈ e :: x.events → .build i k ∈ x.events := fun i k hm =>
    (List.mem_cons.mp hm).resolve_left (hb i k).symm
  have hcloses : ∀ k, closes k (e :: x.events) = closes k x.events := by
    intro k
    refine List.countP_cons_of_neg ?_
    cases e with
    | close i j => exact absurd rfl (hc i j)
    | attempt i | build i j | ask i j => exact Bool.false_ne_true
  have hmine : ∀ k, e.service = some k → .build e.loader k ∈ x.events :=
    fun k hk => hx.held _ k (hs k hk)
  refine ⟨hx.numbered_cons hmine, fun k hk => hx.owned_cons hmine hk,
    fun i k hk => List.mem_cons_of_mem _ (hx.held i k hk), ?_, ?_⟩
  · intro i k hm
    rw [hcloses]
    exact hx.closed i k (hbuild i k hm)
  · refine unasked_cons hx.unasked fun i k he j => ?_
    have hk := hs k (by rw [he]; rfl)
    have h0 := hx.closed _ k (hx.held _ k hk)
    rw [if_pos hk] at h0
    exact not_close_of_closes h0

theorem Kept.built (hx : Kept x) (hi : x.slots i = none) :
    Kept ⟨Function.update x.slots i (some x.built), x.built + 1, .build i x.built :: x.events⟩ := by
  -- The number of the service is new, so that nothing before was about it.
  have hnew : ∀ e ∈ x.events, e.service ≠ some x.built := fun e he h =>
    Nat.lt_irrefl _ (hx.numbered e he _ h)
  have hslot : ∀ j k, Function.update x.slots i (some x.built) j = some k ↔
      (j = i ∧ k = x.built) ∨ (j ≠ i ∧ x.slots j = some k) := by
    intro j k
    by_cases hj : j = i
    · subst hj
      simp [eq_comm]
    · simp [hj]
  have hcloses : ∀ k, closes k (.build i x.built :: x.events) = closes k x.events :=
    fun k => List.countP_cons_of_neg Bool.false_ne_true
  refine ⟨?_, ?_, ?_, ?_, unasked_cons hx.unasked fun _ _ h => by cases h⟩
  · intro e he k hk
    rcases List.mem_cons.mp he with rfl | he
    · cases hk
      exact Nat.lt_succ_self _
    · exact Nat.lt_succ_of_lt (hx.numbered e he k hk)
  · intro k hk
    rcases Nat.lt_succ_iff_lt_or_eq.mp hk with hk | rfl
    · obtain ⟨j, hj, ho⟩ := hx.owned k hk
      refine ⟨j, List.mem_cons_of_mem _ hj, fun e he hek => ?_⟩
      rcases List.mem_cons.mp he with rfl | he
      · cases hek
        exact absurd hk (Nat.lt_irrefl _)
      · exact ho e he hek
    · refine ⟨i, List.mem_cons_self, fun e he hek => ?_⟩
      rcases List.mem_cons.mp he with rfl | he
      · rfl
      · exact absurd hek (hnew e he)
  · intro j k hk
    rcases (hslot j k).mp hk with ⟨rfl, rfl⟩ | ⟨-, hk⟩
    · exact List.mem_cons_self
    · exact List.mem_cons_of_mem _ (hx.held j k hk)
  · intro j k hm
    rw [hcloses]
    rcases List.mem_cons.mp hm with he | hm
    · cases he
      rw [if_pos (Function.update_self ..)]
      refine List.countP_eq_zero.mpr fun e he hc => hnew e he ?_
      cases e with
      | close a b => exact congrArg some (eq_of_beq hc)
      | attempt a | build a b | ask a b => cases hc
    · -- An older service is not the one that is in the slot now, and was not in it before.
      rw [hx.closed j k hm]
      have hiff : Function.update x.slots i (some x.built) j = some k ↔ x.slots j = some k := by
        rw [hslot]
        constructor
        · rintro (⟨-, rfl⟩ | ⟨-, h⟩)
          · exact absurd rfl (hnew _ hm)
          · exact h
        · intro h
          refine .inr ⟨fun hj => ?_, h⟩
          rw [hj, hi] at h
          cases h
      simp only [hiff]

theorem Kept.emptied (hx : Kept x) (hi : x.slots i = some k) :
    Kept { x with slots := Function.update x.slots i none, events := .close i k :: x.events } := by
  have hb := hx.held i k hi
  have hslot : ∀ j l, Function.update x.slots i none j = some l ↔ j ≠ i ∧ x.slots j = some l := by
    intro j l
    by_cases hj : j = i
    · subst hj
      simp
    · simp [hj]
  have hmine : ∀ l, (Event.close i k).service = some l →
      .build (Event.close i k).loader l ∈ x.events := by
    intro l hl
    cases hl
    exact hb
  refine ⟨hx.numbered_cons hmine, fun l hl => hx.owned_cons hmine hl,
    fun j l hl => List.mem_cons_of_mem _ (hx.held j l ((hslot j l).mp hl).2), ?_,
    unasked_cons hx.unasked fun _ _ h => by cases h⟩
  · intro j l hmem
    have hm : .build j l ∈ x.events := (List.mem_cons.mp hmem).resolve_left nofun
    by_cases hl : l = k
    · subst hl
      obtain rfl : i = j := hx.owner hm hb rfl
      have h0 := hx.closed i l hb
      rw [if_pos hi] at h0
      rw [if_neg fun h => ((hslot i l).mp h).1 rfl]
      exact closes_self h0
    · have hc : closes l (.close i k :: x.events) = closes l x.events :=
        List.countP_cons_of_neg fun h => hl (eq_of_beq h).symm
      rw [hc, hx.closed j l hm]
      have hiff : Function.update x.slots i none j = some l ↔ x.slots j = some l := by
        rw [hslot]
        refine ⟨And.right, fun h => ⟨fun hj => ?_, h⟩⟩
        rw [hj, hi] at h
        exact hl (Option.some.inj h).symm
      simp only [hiff]

theorem Step.kept (hs : Step i x y) (hx : Kept x) : Kept y := by
  cases hs with
  | attempt h => exact hx.noted _ nofun nofun nofun
  | build h => exact hx.built h
  | ask h =>
    refine hx.noted _ nofun nofun fun l hl => ?_
    cases hl
    exact h
  | close h => exact hx.emptied h

theorem Moves.kept {is : List Nat} (h : Moves is x y) (hx : Kept x) : Kept y := by
  induction h with
  | refl => exact hx
  | tail _ hs ih =>
    obtain ⟨i, -, hs⟩ := hs
    exact hs.kept ih

theorem Moves.events {is : List Nat} (h : Moves is x y) :
    ∃ es, y.events = es ++ x.events ∧ ∀ e ∈ es, e.loader ∈ is := by
  induction h with
  | refl => exact ⟨[], rfl, nofun⟩
  | @tail y z _ hs ih =>
    obtain ⟨i, hi, hs⟩ := hs
    obtain ⟨es, hes, hl⟩ := ih
    have hone : ∃ e, z.events = e :: y.events ∧ e.loader = i := by
      cases hs <;> exact ⟨_, rfl, rfl⟩
    obtain ⟨e, he, rfl⟩ := hone
    refine ⟨e :: es, by rw [he, hes]; rfl, fun a ha => ?_⟩
    rcases List.mem_cons.mp ha with rfl | ha
    · exact hi
    · exact hl a ha

end Kept

/-! ## Runs -/

structure Lawful (ops : Nat → ServiceOps W S) (x : Scene W S) : Prop where
  /-- Each service was built by one loader, and all that was done with it was done by this one. -/
  owned : ∀ k, k < x.state.world.built → ∃ i, .build i k ∈ x.state.world.events ∧
    ∀ e ∈ x.state.world.events, e.service = some k → e.loader = i
  unasked : ∀ later earlier i j k,
    x.state.world.events = later ++ .close i k :: earlier → .ask j k ∉ later
  /-- A service was closed once, or never if it is in the slot. -/
  closed : ∀ i k, .build i k ∈ x.state.world.events →
    closes k x.state.world.events = if (x.slots i).map Prod.fst = some k then 0 else 1
  /-- A call tries to build a service once, if the slot is empty. -/
  attempted : ∀ i path content,
    let y := ((Use.call i path content).perform (watch ops) x).2
    attempts i y.state.world.events =
      attempts i x.state.world.events + if (x.slots i).isNone then 1 else 0
  /-- However a block ends, it closes the service that is in the slot then, and empties the slot. -/
  left : ∀ i body,
    let m := (body.perform (watch ops) x).2
    let y := ((Use.block i body).perform (watch ops) x).2
    y.slots i = none ∧
      match m.slots i with
      | none => y.state.world.events = m.state.world.events
      | some (k, _) => y.state.world.events = .close i k :: m.state.world.events ∧
          closes k m.state.world.events = 0 ∧ closes k y.state.world.events = 1
  /-- A use of other loaders leaves a loader as it is. -/
  others : ∀ (u : Use) (j : Nat), j ∉ u.loaders →
    let y := (u.perform (watch ops) x).2
    y.slots j = x.slots j ∧
      attempts j y.state.world.events = attempts j x.state.world.events ∧
      ∀ k, .build j k ∈ x.state.world.events →
        chronicle k y.state.world.events = chronicle k x.state.world.events

section Runs
variable {ops : Nat → ServiceOps W S} {x : Scene W S}

theorem run_books (us : List Use) (hx : Kept (books x)) :
    Kept (books (Use.run (watch ops) us x)) := by
  induction us generalizing x with
  | nil => exact hx
  | cons u us ih => exact ih ((perform_moves ops u x).kept hx)

theorem block_left (hx : Kept (books x)) (i : Nat) (body : Use) :
    let m := (body.perform (watch ops) x).2
    let y := ((Use.block i body).perform (watch ops) x).2
    y.slots i = none ∧
      match m.slots i with
      | none => y.state.world.events = m.state.world.events
      | some (k, _) => y.state.world.events = .close i k :: m.state.world.events ∧
          closes k m.state.world.events = 0 ∧ closes k y.state.world.events = 1 := by
  intro m y
  have hm : Kept (books m) := (perform_moves ops body x).kept hx
  have hy : books y = books (m.put i ((m.loader i).close (watch ops i)).2) :=
    congrArg books (Use.block_end body)
  rw [close_books] at hy
  cases hs : m.slots i with
  | none =>
    have hk : (books m).slots i = none := by simp only [books, hs, Option.map_none]
    rw [hk] at hy
    refine ⟨?_, congrArg Books.events hy⟩
    have h := congrFun (congrArg Books.slots hy) i
    exact Option.map_eq_none_iff.mp (h.trans hk)
  | some s =>
    have hk : (books m).slots i = some s.1 := by simp only [books, hs, Option.map_some]
    rw [hk] at hy
    have hev : y.state.world.events = .close i s.1 :: m.state.world.events :=
      congrArg Books.events hy
    have h0 := hm.closed i s.1 (hm.held i s.1 hk)
    rw [if_pos hk] at h0
    refine ⟨?_, hev, h0, ?_⟩
    · have h := congrFun (congrArg Books.slots hy) i
      exact Option.map_eq_none_iff.mp (h.trans (Function.update_self ..))
    · rw [hev]
      exact closes_self h0

theorem perform_others (hx : Kept (books x)) {u : Use} {j : Nat} (hj : j ∉ u.loaders) :
    let y := (u.perform (watch ops) x).2
    attempts j y.state.world.events = attempts j x.state.world.events ∧
      ∀ k, .build j k ∈ x.state.world.events →
        chronicle k y.state.world.events = chronicle k x.state.world.events := by
  intro y
  have hmoves := perform_moves ops u x
  have hy : Kept (books y) := hmoves.kept hx
  obtain ⟨es, hes, hl⟩ := hmoves.events
  have hev : y.state.world.events = es ++ x.state.world.events := hes
  refine ⟨?_, fun k hb => ?_⟩
  · have h0 : es.countP (Event.isAttempt j) = 0 := by
      refine List.countP_eq_zero.mpr fun e he ha => hj ?_
      cases e with
      | attempt i => exact eq_of_beq ha ▸ hl _ he
      | build i k | ask i k | close i k => cases ha
    rw [attempts, hev, List.countP_append, h0, Nat.zero_add, attempts]
  · have h0 : es.filter (fun e => e.service == some k) = [] := by
      refine List.filter_eq_nil_iff.mpr fun e he hk => hj ?_
      have hyb : .build j k ∈ (books y).events := hes ▸ List.mem_append_right es hb
      have hye : e ∈ (books y).events := hes ▸ List.mem_append_left _ he
      exact hy.owner hyb hye (eq_of_beq hk) ▸ hl e he
    rw [chronicle, hev, List.filter_append, h0, List.nil_append, chronicle]

/-- After any uses of any loaders, whatever fails, services are built, asked and closed in order. -/
theorem run_lawful (ops : Nat → ServiceOps W S) (w : W) (us : List Use) :
    Lawful ops (Use.run (watch ops) us (start w)) := by
  have hx : Kept (books (Use.run (watch ops) us (start w))) := run_books us Kept.start
  refine ⟨hx.owned, hx.unasked, hx.closed, fun i path content => ?_, block_left hx,
    fun u j hj => ⟨perform_slots ops u _ hj, perform_others hx hj⟩⟩
  have h := (call_books ops i path content (Use.run (watch ops) us (start w))).attempts
  simp only [books, Option.map_eq_none_iff] at h
  simp only [h, Option.isNone_iff_eq_none]

end Runs
end ConfigLoader.Lifecycle
