import ConfigLoader.Loader.Threads
import ConfigLoader.Proofs.Loader.Call

/-! # What a step can do

Everything that is known of a step of a thread is said once, by cases. A run is made of such steps,
so what they preserve is preserved by a run.
-/
namespace ConfigLoader.Threads
variable {W S : Type}

namespace Shared

@[simp] theorem see_events (e : Event) (x : Shared W S) : (x.see e).events = e :: x.events := rfl

@[simp] theorem see_slot (e : Event) (x : Shared W S) : (x.see e).slot = x.slot := rfl

@[simp] theorem see_holder (e : Event) (x : Shared W S) : (x.see e).holder = x.holder := rfl

@[simp] theorem see_built (e : Event) (x : Shared W S) : (x.see e).built = x.built := rfl

@[simp] theorem see_state (e : Event) (x : Shared W S) : (x.see e).state = x.state := rfl

@[simp] theorem note_events (v : Level) (m : Text) (x : Shared W S) :
    (x.note v m).events = x.events := rfl

@[simp] theorem note_slot (v : Level) (m : Text) (x : Shared W S) :
    (x.note v m).slot = x.slot := rfl

@[simp] theorem note_holder (v : Level) (m : Text) (x : Shared W S) :
    (x.note v m).holder = x.holder := rfl

@[simp] theorem note_built (v : Level) (m : Text) (x : Shared W S) :
    (x.note v m).built = x.built := rfl

@[simp] theorem note_world (v : Level) (m : Text) (x : Shared W S) :
    (x.note v m).state.world = x.state.world := rfl

theorem service?_some {x : Shared W S} {k : Nat} {s : S} (hs : x.built[k]? = some s) :
    x.service? (some k) = some (k, s) := by
  simp only [service?, Option.bind_some, hs, Option.map_some]

end Shared

inductive Step (ops : ServiceOps W S) (i : Nat) (t : Thread S) (x : Shared W S) :
    Thread S → Shared W S → Prop
  | see {path content ts k} (ha : t.activity = .idle) (ht : t.tasks = .call path content :: ts)
      (hs : x.slot = some k) :
      Step ops i t x ⟨ts, .call path content (.asking (some k)), t.results⟩ x
  | miss {path content ts} (ha : t.activity = .idle) (ht : t.tasks = .call path content :: ts)
      (hs : x.slot = none) : Step ops i t x ⟨ts, .call path content .waiting, t.results⟩ x
  | enter {path content} (ha : t.activity = .call path content .waiting) (hh : x.holder = none) :
      Step ops i t x (t.goes (.call path content .checking)) { x with holder := some i }
  | reuse {path content k} (ha : t.activity = .call path content .checking)
      (hs : x.slot = some k) : Step ops i t x (t.goes (.call path content .taking)) x
  | attempt {path content} (ha : t.activity = .call path content .checking)
      (hs : x.slot = none) :
      Step ops i t x (t.goes (.call path content .building))
        ((x.note .info "Creating compiler service").see (.attempt (t.actor i)))
  | create {path content s w} (ha : t.activity = .call path content .building)
      (hc : ops.create x.state = (.ok s, w)) :
      Step ops i t x (t.goes (.call path content (.storing s))) { x with state := w }
  | refuse {path content f w} (ha : t.activity = .call path content .building)
      (hc : ops.create x.state = (.error f, w)) :
      Step ops i t x (t.goes (.call path content (.leaving (.error f))))
        ({ x with state := w }.see (.refuse (t.actor i) f))
  | fill {path content s} (ha : t.activity = .call path content (.storing s)) :
      Step ops i t x (t.goes (.call path content .taking))
        ({ x with slot := some x.built.length, built := x.built ++ [s] }.see
          (.fill (t.actor i) x.built.length))
  | take {path content} (ha : t.activity = .call path content .taking) :
      Step ops i t x (t.goes (.call path content (.leaving (.ok x.slot)))) x
  | leave {path content k} (ha : t.activity = .call path content (.leaving (.ok k))) :
      Step ops i t x (t.goes (.call path content (.asking k))) x.unlock
  | fail {path content f} (ha : t.activity = .call path content (.leaving (.error f))) :
      Step ops i t x (t.goes (.call path content (.reporting (.error f)))) x.unlock
  | ask {path content k r y} (ha : t.activity = .call path content (.asking k))
      (hr : x.ask ops (t.actor i) path content k = (r, y)) :
      Step ops i t x (t.goes (.call path content (.reporting r))) y
  | answer {path content r log} (ha : t.activity = .call path content (.reporting r)) :
      Step ops i t x (t.ends (Loader.answer r)) { x with state := { x.state with log := log } }
  | lock {ts} (ha : t.activity = .idle) (ht : t.tasks = .close :: ts) (hh : x.holder = none) :
      Step ops i t x ⟨ts, .close .emptying, t.results⟩ { x with holder := some i }
  | empty (ha : t.activity = .close .emptying) :
      Step ops i t x (t.goes (.close (.leaving x.slot)))
        ({ x with slot := none }.see (.empty (t.actor i) x.slot))
  | pass (ha : t.activity = .close (.leaving none)) :
      Step ops i t x (t.ends (.ok .null)) x.unlock
  | release {k} (ha : t.activity = .close (.leaving (some k))) :
      Step ops i t x (t.goes (.close (.closing k))) x.unlock
  | close {k r y} (ha : t.activity = .close (.closing k))
      (hr : x.shut ops (t.actor i) k = (r, y)) : Step ops i t x (t.ends r) y

section Cases
variable {ops : ServiceOps W S} {i : Nat} {t t' : Thread S} {x x' : Shared W S}

theorem lock?_cases (hl : x.lock? i = some x') : x.holder = none ∧ x' = { x with holder := some i } := by
  unfold Shared.lock? at hl
  cases hh : x.holder with
  | some j =>
    rw [hh] at hl
    cases hl
  | none =>
    rw [hh] at hl
    cases hl
    exact ⟨rfl, rfl⟩

theorem callStep_cases {path content : Value} {p : CallPoint S}
    (ha : t.activity = .call path content p)
    (h : t.callStep ops i path content x p = some (t', x')) : Step ops i t x t' x' := by
  cases p with
  | waiting =>
    obtain ⟨y, hy, h⟩ := Option.map_eq_some_iff.mp h
    obtain ⟨hh, rfl⟩ := lock?_cases hy
    cases h
    exact .enter ha hh
  | checking =>
    cases hs : x.slot with
    | some k =>
      simp only [Thread.callStep, hs] at h
      cases h
      exact .reuse ha hs
    | none =>
      simp only [Thread.callStep, hs] at h
      cases h
      exact .attempt ha hs
  | building =>
    rcases hc : ops.create x.state with ⟨r, w⟩
    simp only [Thread.callStep, hc] at h
    cases r with
    | ok s =>
      cases h
      exact .create ha hc
    | error f =>
      cases h
      exact .refuse ha hc
  | storing s =>
    cases h
    exact .fill ha
  | taking =>
    cases h
    exact .take ha
  | leaving r =>
    cases r with
    | ok k =>
      cases h
      exact .leave ha
    | error f =>
      cases h
      exact .fail ha
  | asking k =>
    rcases hr : x.ask ops (t.actor i) path content k with ⟨r, y⟩
    simp only [Thread.callStep, hr] at h
    cases h
    exact .ask ha hr
  | reporting r =>
    cases r with
    | ok v =>
      cases h
      exact .answer ha
    | error f =>
      by_cases hf : f.isOrdinary = true
      · have hw : Loader.answer (.error f) = .error f.wrap := by
          simp only [Loader.answer_error, Fault.reported, hf, if_true]
        simp only [Thread.callStep, Shared.report, hf, if_true] at h
        cases h
        rw [← hw]
        exact .answer ha
      · have hw : Loader.answer (.error f) = .error f := by
          simp only [Loader.answer_error, Fault.reported, hf, if_false, Bool.false_eq_true]
        simp only [Thread.callStep, Shared.report, hf, if_false, Bool.false_eq_true] at h
        cases h
        rw [← hw]
        exact .answer ha

theorem closeStep_cases {p : ClosePoint} (ha : t.activity = .close p)
    (h : t.closeStep ops i x p = some (t', x')) : Step ops i t x t' x' := by
  cases p with
  | emptying =>
    cases h
    exact .empty ha
  | leaving k =>
    cases k with
    | none =>
      cases h
      exact .pass ha
    | some k =>
      cases h
      exact .release ha
  | closing k =>
    rcases hr : x.shut ops (t.actor i) k with ⟨r, y⟩
    simp only [Thread.closeStep, hr] at h
    cases h
    exact .close ha hr

theorem step_cases (h : t.step ops i x = some (t', x')) : Step ops i t x t' x' := by
  unfold Thread.step at h
  cases ha : t.activity with
  | call path content p =>
    simp only [ha] at h
    exact callStep_cases ha h
  | close p =>
    simp only [ha] at h
    exact closeStep_cases ha h
  | idle =>
    cases ht : t.tasks with
    | nil =>
      simp only [ha, ht] at h
      cases h
    | cons task ts =>
      cases task with
      | close =>
        simp only [ha, ht] at h
        obtain ⟨y, hy, h⟩ := Option.map_eq_some_iff.mp h
        obtain ⟨hh, rfl⟩ := lock?_cases hy
        cases h
        exact .lock ha ht hh
      | call path content =>
        simp only [ha, ht] at h
        cases hs : x.slot with
        | some k =>
          simp only [hs] at h
          cases h
          exact .see ha ht hs
        | none =>
          simp only [hs] at h
          cases h
          exact .miss ha ht hs

end Cases

namespace Crew
variable {ops : ServiceOps W S} {i : Nat} {x x' : Crew W S}

theorem step?_cases (h : x.step? ops i = some x') :
    ∃ t t', x.threads[i]? = some t ∧ Step ops i t x.shared t' x'.shared ∧
      x'.threads = x.threads.set i t' := by
  obtain ⟨t, ht, h⟩ := Option.bind_eq_some_iff.mp h
  obtain ⟨⟨t', y⟩, hs, rfl⟩ := Option.map_eq_some_iff.mp h
  exact ⟨t, t', ht, step_cases hs, rfl⟩

@[simp] theorem run_cons (i : Nat) (schedule : List Nat) :
    x.run ops (i :: schedule) = ((x.step? ops i).getD x).run ops schedule := rfl

theorem run_preserves {P : Crew W S → Prop}
    (hstep : ∀ i x x', x.step? ops i = some x' → P x → P x') (schedule : List Nat) (hx : P x) :
    P (x.run ops schedule) := by
  induction schedule generalizing x with
  | nil => exact hx
  | cons i schedule ih =>
    rw [run_cons]
    refine ih ?_
    cases h : x.step? ops i with
    | none => exact hx
    | some x' => exact hstep i x x' h hx

@[simp] theorem run_length (schedule : List Nat) :
    (x.run ops schedule).threads.length = x.threads.length := by
  refine run_preserves (P := fun y => y.threads.length = x.threads.length) ?_ schedule rfl
  intro i y y' h hy
  obtain ⟨t, t', -, -, hth⟩ := step?_cases h
  rw [hth, List.length_set, hy]

theorem run_append (first second : List Nat) :
    x.run ops (first ++ second) = (x.run ops first).run ops second :=
  List.foldl_append

end Crew
end ConfigLoader.Threads
