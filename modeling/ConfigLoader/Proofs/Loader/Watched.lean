import ConfigLoader.Loader.Group
import ConfigLoader.Proofs.Loader.Call

/-! # Watched loaders

Watching a loader changes nothing: it numbers the services in the order in which they are built, and
notes what each loader does with which service.
-/
namespace ConfigLoader
variable {W S : Type}

namespace Group
variable {i j : Nat} {g : Group W S} {l : Loader W S}

@[simp] theorem put_slots_self : (g.put i l).slots i = l.slot := if_pos rfl

@[simp] theorem put_slots_other (h : j ≠ i) : (g.put i l).slots j = g.slots j := if_neg h

@[simp] theorem put_state : (g.put i l).state = l.state := rfl

@[simp] theorem put_loader : g.put i (g.loader i) = g := by
  simp only [put, loader]
  congr 1
  funext j
  split
  · next h => rw [h]
  · rfl

end Group

/-! ## Uses -/

namespace Use
variable {ops : Nat → ServiceOps W S} {i : Nat} {g : Group W S}

theorem block_end (body : Use) : ((block i body).perform ops g).2 =
    (body.perform ops g).2.put i (((body.perform ops g).2.loader i).close (ops i)).2 := by
  simp only [perform]
  rcases ((body.perform ops g).2.loader i).close (ops i) with ⟨r, l⟩
  cases r <;> rfl

theorem perform_respects {R : Group W S → Group W S → Prop} (hrefl : ∀ g, R g g)
    (htrans : ∀ {g₁ g₂ g₃}, R g₁ g₂ → R g₂ g₃ → R g₁ g₃) (u : Use)
    (hcall : ∀ i ∈ u.loaders, ∀ path content g, R g ((call i path content).perform ops g).2)
    (hclose : ∀ i ∈ u.loaders, ∀ g, R g (g.put i ((g.loader i).close (ops i)).2))
    (g : Group W S) : R g (u.perform ops g).2 := by
  induction u generalizing g with
  | pass => exact hrefl g
  | fail f => exact hrefl g
  | call i path content => exact hcall i List.mem_cons_self path content g
  | close i => exact hclose i List.mem_cons_self g
  | rescue body ih =>
    have h := ih hcall hclose g
    simp only [perform]
    rcases e : body.perform ops g with ⟨r, g₁⟩
    rw [e] at h
    cases r <;> exact h
  | seq first second ih1 ih2 =>
    have h1 := ih1 (fun i hi => hcall i (List.mem_append_left _ hi))
      (fun i hi => hclose i (List.mem_append_left _ hi)) g
    simp only [perform]
    rcases e : first.perform ops g with ⟨r, g₁⟩
    rw [e] at h1
    cases r with
    | error f => exact h1
    | ok vs =>
      exact htrans h1 (ih2 (fun i hi => hcall i (List.mem_append_right _ hi))
        (fun i hi => hclose i (List.mem_append_right _ hi)) g₁)
  | block i body ih =>
    rw [block_end]
    exact htrans (ih (fun j hj => hcall j (List.mem_cons_of_mem i hj))
      (fun j hj => hclose j (List.mem_cons_of_mem i hj)) g) (hclose i List.mem_cons_self _)

end Use

/-! ## Watching -/

namespace Lifecycle

inductive Event
  | attempt (i : Nat)
  | build (i k : Nat)
  | ask (i k : Nat)
  | close (i k : Nat)
  deriving DecidableEq

structure Watched (W : Type) where
  world : W
  /-- How many services were built. -/
  built : Nat
  /-- The last event first. -/
  events : List Event

/-- A world without its watch. -/
def bare (l : Logged (Watched W)) : Logged W := ⟨l.world.world, l.log⟩

/-- A world that came after a watched one, with some events between them. -/
def Watched.after (t : Watched W) (built : Nat) (es : List Event) (m : Logged W) :
    Logged (Watched W) :=
  ⟨⟨m.world, built, es ++ t.events⟩, m.log⟩

def watched (i : Nat) (ops : ServiceOps W S) : ServiceOps (Watched W) (Nat × S) where
  create l :=
    let n := l.world.built
    match ops.create (bare l) with
    | (.ok s, m) => (.ok (n, s), l.world.after (n + 1) [.build i n, .attempt i] m)
    | (.error f, m) => (.error f, l.world.after n [.attempt i] m)
  compile path content s l :=
    let (r, s', m) := ops.compile path content s.2 (bare l)
    (r, (s.1, s'), l.world.after l.world.built [.ask i s.1] m)
  close s l :=
    let (r, m) := ops.close s.2 (bare l)
    (r, l.world.after l.world.built [.close i s.1] m)

abbrev Scene (W S : Type) := Group (Watched W) (Nat × S)

def start (w : W) : Scene W S := .start ⟨w, 0, []⟩

def unwatched (x : Scene W S) : Group W S := ⟨fun i => (x.slots i).map Prod.snd, bare x.state⟩

def unwatchedLoader (l : Loader (Watched W) (Nat × S)) : Loader W S :=
  ⟨l.slot.map Prod.snd, bare l.state⟩

section Unwatched
variable {i : Nat} {ops : ServiceOps W S} {path content : Value}
  {l : Loader (Watched W) (Nat × S)}

theorem watched_over (i : Nat) (ops : ServiceOps W S) :
    (watched i ops).Over ops Watched.world Prod.snd where
  create l := by
    change ops.create (bare l) = _
    simp only [watched]
    rcases ops.create (bare l) with ⟨r, m⟩
    cases r <;> rfl
  compile _ _ _ _ := rfl
  close _ _ := rfl

theorem call_unwatched : (unwatchedLoader l).call ops path content =
    ((l.call (watched i ops) path content).1,
      unwatchedLoader (l.call (watched i ops) path content).2) :=
  Loader.call_over (watched_over i ops) l

theorem close_unwatched : (unwatchedLoader l).close ops =
    ((l.close (watched i ops)).1, unwatchedLoader (l.close (watched i ops)).2) :=
  Loader.close_over (watched_over i ops) l

end Unwatched

section Uses
variable {ops : Nat → ServiceOps W S}

@[simp] theorem unwatched_put (i : Nat) (l : Loader (Watched W) (Nat × S)) (x : Scene W S) :
    unwatched (x.put i l) = (unwatched x).put i (unwatchedLoader l) := by
  simp only [unwatched, Group.put, unwatchedLoader, Group.mk.injEq, and_true]
  funext j
  split <;> rfl

theorem perform_unwatched (u : Use) (x : Scene W S) : u.perform ops (unwatched x) =
    ((u.perform (fun i => watched i (ops i)) x).1,
      unwatched (u.perform (fun i => watched i (ops i)) x).2) := by
  have hl : ∀ (i : Nat) (x : Scene W S), (unwatched x).loader i = unwatchedLoader (x.loader i) :=
    fun _ _ => rfl
  induction u generalizing x with
  | pass => rfl
  | fail f => rfl
  | call i path content =>
    simp only [Use.perform, hl, call_unwatched (i := i), unwatched_put]
  | close i => simp only [Use.perform, hl, close_unwatched (i := i), unwatched_put]
  | rescue body ih =>
    simp only [Use.perform, ih]
    rcases body.perform (fun i => watched i (ops i)) x with ⟨r, y⟩
    cases r <;> rfl
  | seq first second ih1 ih2 =>
    simp only [Use.perform, ih1]
    rcases first.perform (fun i => watched i (ops i)) x with ⟨r, y⟩
    cases r with
    | error f => rfl
    | ok vs => simp only [ih2]
  | block i body ih =>
    simp only [Use.perform, ih, hl, close_unwatched (i := i)]
    rcases body.perform (fun i => watched i (ops i)) x with ⟨r, y⟩
    rcases (y.loader i).close (watched i (ops i)) with ⟨q, l⟩
    cases q <;> simp only [unwatched_put]

end Uses
end Lifecycle
end ConfigLoader
