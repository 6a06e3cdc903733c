import ConfigLoader.Proofs.Loader.Call
import ConfigLoader.Proofs.Threads.Slot

/-! # Threads and the operations of services

Threads are watched at the operations of services: what is noted there, and by the task that a thread
is at, is what they really do to services. The watch changes nothing else.
-/
namespace ConfigLoader.Threads
variable {W S V T : Type}

/-! ## Other services -/

section Maps
variable (p : V → W) (q : T → S)

def CallPoint.map : CallPoint T → CallPoint S
  | .waiting => .waiting
  | .checking => .checking
  | .building => .building
  | .storing s => .storing (q s)
  | .taking => .taking
  | .leaving r => .leaving r
  | .asking k => .asking k
  | .reporting r => .reporting r

def Activity.map : Activity T → Activity S
  | .idle => .idle
  | .call path content point => .call path content (point.map q)
  | .close point => .close point

def Thread.map (t : Thread T) : Thread S := ⟨t.tasks, t.activity.map q, t.results⟩

def Shared.map (x : Shared V T) : Shared W S where
  slot := x.slot
  holder := x.holder
  state := x.state.map p
  built := x.built.map q
  events := x.events

def Crew.map (x : Crew V T) : Crew W S := ⟨x.shared.map p q, x.threads.map (Thread.map q)⟩

end Maps

section Over
variable {p : V → W} {q : T → S} {ops' : ServiceOps V T} {ops : ServiceOps W S} {i : Nat}
  {x : Shared V T} {t : Thread T}

@[simp] theorem service?_map (k : Option Nat) :
    (x.map p q).service? k = (x.service? k).map fun r => (r.1, q r.2) := by
  cases k with
  | none => rfl
  | some k =>
    simp only [Shared.service?, Shared.map, Option.bind_some, List.getElem?_map]
    cases x.built[k]? <;> rfl

theorem ask_over (h : ops'.Over ops p q) (a : Actor) (path content : Value) (k : Option Nat) :
    (x.map p q).ask ops a path content k =
      ((x.ask ops' a path content k).1, (x.ask ops' a path content k).2.map p q) := by
  unfold Shared.ask
  cases Loader.contentLength content with
  | error f => rfl
  | ok n =>
    have hs := service?_map (p := p) (q := q) (x := x.note .debug
      ("Compiling " ++ path.display ++ " (" ++ Text.ofNat n ++ " chars)")) k
    change Shared.service? (Shared.note _ _ (x.map p q)) k = _ at hs
    simp only [hs]
    cases hk : (x.note .debug
      ("Compiling " ++ path.display ++ " (" ++ Text.ofNat n ++ " chars)")).service? k with
    | none => rfl
    | some r =>
      have hc := h.compile path content r.2 (x.note .debug
        ("Compiling " ++ path.display ++ " (" ++ Text.ofNat n ++ " chars)")).state
      change ops.compile path content (q r.2)
        (Shared.note _ _ (x.map p q)).state = _ at hc
      simp only [Option.map_some, hc]
      simp only [Shared.map, Shared.see, List.map_set]
      rfl

theorem shut_over (h : ops'.Over ops p q) (a : Actor) (k : Nat) :
    (x.map p q).shut ops a k = ((x.shut ops' a k).1, (x.shut ops' a k).2.map p q) := by
  unfold Shared.shut
  rw [service?_map]
  cases x.service? (some k) with
  | none => rfl
  | some r =>
    have hc := h.close r.2 x.state
    change ops.close (q r.2) (x.map p q).state = _ at hc
    simp only [Option.map_some, hc]
    rfl

@[simp] theorem lock?_map (i : Nat) : (x.map p q).lock? i = (x.lock? i).map (Shared.map p q) := by
  obtain ⟨slot, holder, state, built, events⟩ := x
  cases holder <;> rfl

theorem callStep_over (h : ops'.Over ops p q) (path content : Value) (point : CallPoint T) :
    (t.map q).callStep ops i path content (x.map p q) (point.map q) =
      (t.callStep ops' i path content x point).map fun r => (r.1.map q, r.2.map p q) := by
  cases point with
  | waiting =>
    simp only [CallPoint.map, Thread.callStep, lock?_map, Option.map_map]
    rfl
  | checking =>
    obtain ⟨slot, holder, state, built, events⟩ := x
    cases slot <;> rfl
  | building =>
    have hc := h.create x.state
    change ops.create (x.map p q).state = _ at hc
    simp only [CallPoint.map, Thread.callStep, hc]
    rcases ops'.create x.state with ⟨r, w⟩
    cases r <;> rfl
  | storing s =>
    simp only [CallPoint.map, Thread.callStep, Shared.map, Option.map_some, Shared.see,
      List.length_map, List.map_append]
    rfl
  | taking => rfl
  | leaving r => cases r <;> rfl
  | asking k =>
    simp only [CallPoint.map, Thread.callStep]
    rw [ask_over h]
    rfl
  | reporting r =>
    cases r with
    | ok v => rfl
    | error f =>
      simp only [CallPoint.map, Thread.callStep, Shared.report]
      cases f.isOrdinary <;> rfl

theorem closeStep_over (h : ops'.Over ops p q) (point : ClosePoint) :
    (t.map q).closeStep ops i (x.map p q) point =
      (t.closeStep ops' i x point).map fun r => (r.1.map q, r.2.map p q) := by
  cases point with
  | emptying => rfl
  | leaving k => cases k <;> rfl
  | closing k =>
    simp only [Thread.closeStep]
    rw [shut_over h]
    rfl

theorem step_over (h : ops'.Over ops p q) :
    (t.map q).step ops i (x.map p q) =
      (t.step ops' i x).map fun r => (r.1.map q, r.2.map p q) := by
  obtain ⟨tasks, activity, results⟩ := t
  cases activity with
  | call path content point => exact callStep_over h path content point
  | close point => exact closeStep_over h point
  | idle =>
    cases tasks with
    | nil => rfl
    | cons task ts =>
      cases task with
      | call path content =>
        obtain ⟨slot, holder, state, built, events⟩ := x
        cases slot <;> rfl
      | close =>
        simp only [Thread.step, Thread.map, Activity.map, lock?_map, Option.map_map]
        rfl

theorem Crew.step?_over (h : ops'.Over ops p q) (x : Crew V T) :
    (x.map p q).step? ops i = (x.step? ops' i).map (Crew.map p q) := by
  simp only [Crew.step?, Crew.map, List.getElem?_map]
  cases x.threads[i]? with
  | none => rfl
  | some t =>
    simp only [Option.map_some, Option.bind_some, step_over h, Option.map_map]
    congr 1
    funext r
    simp only [Function.comp_apply, Crew.map, List.map_set]

end Over

/-! ## The watch -/

/-- What a task does with the operations of services, which are known by the order in which they
were built. -/
inductive Handling
  | build (a : Actor) (k : Nat)
  | refuse (a : Actor)
  | ask (a : Actor) (k : Nat)
  | close (a : Actor) (k : Nat)
  deriving DecidableEq

structure Watched (W : Type) where
  world : W
  /-- How many services were built. -/
  built : Nat
  /-- The last one first. -/
  handlings : List Handling

namespace Watched

/-- A world that came after a watched one by a handling of a service. -/
def after (t : Watched W) (built : Nat) (h : Handling) (m : Logged W) : Logged (Watched W) :=
  ⟨⟨m.world, built, h :: t.handlings⟩, m.log⟩

/-- Services that are watched while a task is at work. -/
def ops (a : Actor) (ops : ServiceOps W S) : ServiceOps (Watched W) (Nat × S) where
  create l :=
    let n := l.world.built
    match ops.create (l.map world) with
    | (.ok s, m) => (.ok (n, s), l.world.after (n + 1) (.build a n) m)
    | (.error f, m) => (.error f, l.world.after n (.refuse a) m)
  compile path content s l :=
    let (r, s', m) := ops.compile path content s.2 (l.map world)
    (r, (s.1, s'), l.world.after l.world.built (.ask a s.1) m)
  close s l :=
    let (r, m) := ops.close s.2 (l.map world)
    (r, l.world.after l.world.built (.close a s.1) m)

theorem ops_over (a : Actor) (ops : ServiceOps W S) :
    (Watched.ops a ops).Over ops Watched.world Prod.snd where
  create l := by
    simp only [Watched.ops]
    rcases ops.create (l.map world) with ⟨r, m⟩
    cases r <;> rfl
  compile _ _ _ _ := rfl
  close _ _ := rfl

end Watched

def watchedLoader (l : Loader W S) : Loader (Watched W) (Nat × S) :=
  ⟨l.slot.map fun s => (0, s), ⟨⟨l.state.world, l.slot.toList.length, []⟩, l.state.log⟩⟩

namespace Crew

def watchedStep? (ops : ServiceOps W S) (i : Nat) (x : Crew (Watched W) (Nat × S)) :
    Option (Crew (Watched W) (Nat × S)) :=
  x.threads[i]?.bind fun t => x.step? (Watched.ops (t.actor i) ops) i

def watchedRun (ops : ServiceOps W S) (schedule : List Nat) (x : Crew (Watched W) (Nat × S)) :
    Crew (Watched W) (Nat × S) :=
  schedule.foldl (fun x i => (x.watchedStep? ops i).getD x) x

def unwatched (x : Crew (Watched W) (Nat × S)) : Crew W S := x.map Watched.world Prod.snd

/-- What was done with services, the last handling first. -/
def handlings (x : Crew (Watched W) (Nat × S)) : List Handling := x.shared.state.world.handlings

variable {ops : ServiceOps W S} {i : Nat} {x x' : Crew (Watched W) (Nat × S)}

theorem watchedStep?_cases (h : x.watchedStep? ops i = some x') :
    ∃ t t', x.threads[i]? = some t ∧
      Step (Watched.ops (t.actor i) ops) i t x.shared t' x'.shared ∧
      x'.threads = x.threads.set i t' := by
  obtain ⟨t, ht, h⟩ := Option.bind_eq_some_iff.mp h
  obtain ⟨u, t', hu, hs, hth⟩ := step?_cases h
  obtain rfl : u = t := Option.some.inj (hu.symm.trans ht)
  exact ⟨u, t', hu, hs, hth⟩

theorem watchedStep?_unwatched (x : Crew (Watched W) (Nat × S)) :
    (x.watchedStep? ops i).map unwatched = x.unwatched.step? ops i := by
  cases ht : x.threads[i]? with
  | none =>
    simp only [watchedStep?, ht, Option.bind_none, Option.map_none, step?, unwatched, Crew.map,
      List.getElem?_map]
  | some t =>
    simp only [watchedStep?, ht, Option.bind_some, unwatched,
      step?_over (Watched.ops_over (t.actor i) ops)]
    rfl

@[simp] theorem watchedRun_cons (i : Nat) (schedule : List Nat) :
    x.watchedRun ops (i :: schedule) = ((x.watchedStep? ops i).getD x).watchedRun ops schedule := rfl

@[simp] theorem watchedRun_unwatched (schedule : List Nat) (x : Crew (Watched W) (Nat × S)) :
    (x.watchedRun ops schedule).unwatched = x.unwatched.run ops schedule := by
  induction schedule generalizing x with
  | nil => rfl
  | cons i schedule ih =>
    rw [watchedRun_cons, ih, run_cons, ← watchedStep?_unwatched]
    cases x.watchedStep? ops i <;> rfl

@[simp] theorem start_unwatched (l : Loader W S) (tasks : List (List Task)) :
    (start (watchedLoader l) tasks).unwatched = start l tasks := by
  obtain ⟨slot, state⟩ := l
  simp only [unwatched, start, watchedLoader, Crew.map, Shared.map, Logged.map, List.map_map]
  cases slot <;> rfl

theorem watchedRun_preserves (ops : ServiceOps W S) {P : Crew (Watched W) (Nat × S) → Prop}
    (hstep : ∀ i x x', x.watchedStep? ops i = some x' → P x → P x') (schedule : List Nat)
    (hx : P x) : P (x.watchedRun ops schedule) := by
  induction schedule generalizing x with
  | nil => exact hx
  | cons i schedule ih =>
    rw [watchedRun_cons]
    refine ih ?_
    cases h : x.watchedStep? ops i with
    | none => exact hx
    | some x' => exact hstep i x x' h hx

end Crew
end ConfigLoader.Threads
