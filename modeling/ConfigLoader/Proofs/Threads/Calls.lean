import ConfigLoader.Proofs.Threads.Progress

/-! # Threads with one call each

A call with a text for its content ends in one of two ways: no service could be built for it, or a
service was asked once. Both are events, so the events tell how the calls end, whichever thread made
them.
-/
namespace ConfigLoader.Threads
variable {W S : Type}

/-- Threads that are about to make one call each. -/
def Crew.calling (l : Loader W S) (calls : List (Value × Text)) : Crew W S :=
  .start l (calls.map fun c => [.call c.1 (.text c.2)])

@[simp] theorem Crew.calling_length (l : Loader W S) (calls : List (Value × Text)) :
    (Crew.calling l calls).threads.length = calls.length := by
  simp only [Crew.calling, Crew.start, List.length_map]

/-! ## Ends of calls -/

def Event.end? : Event → Option (Actor × Except Fault Value)
  | .refuse a f => some (a, .error f)
  | .ask a _ r => some (a, r)
  | _ => none

def ends (es : List Event) : List (Actor × Except Fault Value) := es.filterMap Event.end?

theorem ends_skip {e : Event} (he : e.end? = none) (es : List Event) : ends (e :: es) = ends es := by
  simp only [ends, List.filterMap_cons, he]

theorem ends_cons {e : Event} {p : Actor × Except Fault Value} (he : e.end? = some p)
    (es : List Event) : ends (e :: es) = p :: ends es := by
  simp only [ends, List.filterMap_cons, he]

def CallPoint.isOpen : CallPoint S → Bool
  | .leaving (.error _) | .reporting _ => false
  | _ => true

inductive Once (es : List Event) (i : Nat) : Thread S → Prop
  | before {path : Value} {c : Text} (h : ⟨i, 0⟩ ∉ (ends es).map Prod.fst) :
      Once es i ⟨[.call path (.text c)], .idle, []⟩
  | inside {path : Value} {c : Text} {p : CallPoint S} (hp : p.isOpen = true)
      (h : ⟨i, 0⟩ ∉ (ends es).map Prod.fst) : Once es i ⟨[], .call path (.text c) p, []⟩
  | refused {path : Value} {c : Text} {f : Fault} (h : (⟨i, 0⟩, .error f) ∈ ends es) :
      Once es i ⟨[], .call path (.text c) (.leaving (.error f)), []⟩
  | ended {path : Value} {c : Text} {r : Except Fault Value} (h : (⟨i, 0⟩, r) ∈ ends es) :
      Once es i ⟨[], .call path (.text c) (.reporting r), []⟩
  | done {r : Except Fault Value} (h : (⟨i, 0⟩, r) ∈ ends es) :
      Once es i ⟨[], .idle, [Loader.answer r]⟩

structure Calling (x : Crew W S) : Prop where
  once : ∀ (i : Nat) (t : Thread S), x.threads[i]? = some t → Once x.shared.events i t
  nodup : ((ends x.shared.events).map Prod.fst).Nodup
  actors : ∀ a ∈ (ends x.shared.events).map Prod.fst, a.task = 0 ∧ a.thread < x.threads.length

theorem ask_text (ops : ServiceOps W S) {x x' : Shared W S} {a : Actor} {path : Value} {c : Text}
    {k : Option Nat} {r : Except Fault Value} (hk : ∃ j, k = some j ∧ j < x.built.length)
    (h : x.ask ops a path (.text c) k = (r, x')) :
    ∃ j s s' w m, k = some j ∧ x.built[j]? = some s ∧
      ops.compile path (.text c) s (x.note .debug m).state = (r, s', w) ∧
      x' = { x with state := w, built := x.built.set j s' }.see (.ask a j r) := by
  obtain ⟨j, rfl, hj⟩ := hk
  have hs := List.getElem?_eq_getElem hj
  unfold Shared.ask Loader.contentLength at h
  simp only [Shared.service?_some (x := x.note .debug _) hs] at h
  cases h
  exact ⟨j, _, _, _, _, rfl, hs, rfl, rfl⟩

section Steps
variable {ops : ServiceOps W S} {i n : Nat} {t t' : Thread S} {x x' : Crew W S}

theorem Once.open {es : List Event} {path content : Value} {p : CallPoint S} (ho : Once es i t)
    (ha : t.activity = .call path content p) (hp : p.isOpen = true) :
    ∃ c, t = ⟨[], .call path (.text c) p, []⟩ ∧ ⟨i, 0⟩ ∉ (ends es).map Prod.fst := by
  cases ho with
  | before h => cases ha
  | inside hp' h =>
    cases ha
    exact ⟨_, rfl, h⟩
  | refused h =>
    cases ha
    cases hp
  | ended h =>
    cases ha
    cases hp
  | done h => cases ha

theorem Once.goes {es fs : List Event} {path content : Value} {p q : CallPoint S}
    (ho : Once es i t) (ha : t.activity = .call path content p) (hp : p.isOpen = true)
    (hq : q.isOpen = true) (he : ends fs = ends es) :
    Once fs i (t.goes (.call path content q)) := by
  obtain ⟨c, rfl, h⟩ := ho.open ha hp
  cases ha
  exact .inside hq (he ▸ h)

theorem Once.not_close {es : List Event} {p : ClosePoint} (ho : Once es i t) :
    t.activity ≠ .close p := by
  intro ha
  cases ho <;> cases ha

theorem Step.ends {x x' : Shared W S} (h : Step ops i t x t' x') (ho : Once x.events i t)
    (hp : ∀ path content p, t.activity = .call path content p → p.Fits x) :
    (ends x'.events = ends x.events ∧ Once x'.events i t') ∨
    ∃ r, ends x'.events = (⟨i, 0⟩, r) :: ends x.events ∧ ⟨i, 0⟩ ∉ (ends x.events).map Prod.fst ∧
      Once x'.events i t' := by
  cases h with
  | see ha ht hs | miss ha ht hs =>
    left
    cases ho with
    | before h =>
      cases ht
      exact ⟨rfl, .inside rfl h⟩
    | done h => cases ht
    | inside hp h | refused h | ended h => cases ha
  | enter ha hh => exact .inl ⟨rfl, ho.goes ha rfl rfl rfl⟩
  | reuse ha hs => exact .inl ⟨rfl, ho.goes ha rfl rfl rfl⟩
  | attempt ha hs =>
    have he := ends_skip (e := .attempt (t.actor i)) rfl x.events
    exact .inl ⟨he, ho.goes ha rfl rfl he⟩
  | create ha hc => exact .inl ⟨rfl, ho.goes ha rfl rfl rfl⟩
  | fill ha =>
    have he := ends_skip (e := .fill (t.actor i) x.built.length) rfl x.events
    exact .inl ⟨he, ho.goes ha rfl rfl he⟩
  | take ha => exact .inl ⟨rfl, ho.goes ha rfl rfl rfl⟩
  | leave ha => exact .inl ⟨rfl, ho.goes ha rfl rfl rfl⟩
  | @refuse path content f w ha hc =>
    right
    obtain ⟨c, rfl, hno⟩ := ho.open ha rfl
    cases ha
    have he := ends_cons (e := .refuse ⟨i, 0⟩ f) rfl x.events
    exact ⟨_, he, hno, .refused (he ▸ List.mem_cons_self)⟩
  | @ask path content k r y ha hr =>
    right
    obtain ⟨c, rfl, hno⟩ := ho.open ha rfl
    cases ha
    obtain ⟨j, s, s', w, m, -, -, -, rfl⟩ := ask_text ops (hp _ _ _ rfl) hr
    have he := ends_cons (e := .ask ⟨i, 0⟩ j r) rfl x.events
    exact ⟨_, he, hno, .ended (he ▸ List.mem_cons_self)⟩
  | fail ha =>
    left
    cases ho with
    | refused h =>
      cases ha
      exact ⟨rfl, .ended h⟩
    | inside hq h =>
      cases ha
      cases hq
    | before h | ended h | done h => cases ha
  | answer ha =>
    left
    cases ho with
    | ended h =>
      cases ha
      exact ⟨rfl, .done h⟩
    | inside hq h =>
      cases ha
      cases hq
    | before h | refused h | done h => cases ha
  | lock ha ht hh =>
    cases ho with
    | before h => cases ht
    | done h => cases ht
    | inside hp h | refused h | ended h => cases ha
  | empty ha | pass ha | release ha | close ha hr => exact absurd ha ho.not_close

theorem Once.frame {es fs : List Event} (ho : Once es i t)
    (hfs : ∀ r, (⟨i, 0⟩, r) ∈ ends fs ↔ (⟨i, 0⟩, r) ∈ ends es) : Once fs i t := by
  have hno : (⟨i, 0⟩ : Actor) ∉ (ends es).map Prod.fst → ⟨i, 0⟩ ∉ (ends fs).map Prod.fst := by
    intro h hm
    obtain ⟨⟨a, r⟩, hr, rfl⟩ := List.mem_map.mp hm
    exact h (List.mem_map.mpr ⟨_, (hfs r).mp hr, rfl⟩)
  cases ho with
  | before h => exact .before (hno h)
  | inside hp h => exact .inside hp (hno h)
  | refused h => exact .refused ((hfs _).mpr h)
  | ended h => exact .ended ((hfs _).mpr h)
  | done h => exact .done ((hfs _).mpr h)

theorem Calling.step (hx : Calling x) (hc : Custody x) (h : x.step? ops i = some x') :
    Calling x' := by
  obtain ⟨t, t', ht, hs, hth⟩ := Crew.step?_cases h
  have hi := (List.getElem?_eq_some_iff.mp ht).1
  have hlen : x'.threads.length = x.threads.length := by rw [hth, List.length_set]
  rcases hs.ends (hx.once i t ht) (hc.point i t · · · ht) with ⟨he, ho⟩ | ⟨r, he, hno, ho⟩
  · refine ⟨fun j u hu => ?_, he ▸ hx.nodup, fun a ha => hlen ▸ hx.actors a (he ▸ ha)⟩
    rw [hth] at hu
    rcases set_cases hu with ⟨rfl, rfl⟩ | ⟨hj, hu⟩
    · exact ho
    · exact (hx.once j u hu).frame fun r => by rw [he]
  · refine ⟨fun j u hu => ?_, ?_, fun a ha => ?_⟩
    · rw [hth] at hu
      rcases set_cases hu with ⟨rfl, rfl⟩ | ⟨hj, hu⟩
      · exact ho
      · refine (hx.once j u hu).frame fun r' => ?_
        rw [he, List.mem_cons, or_iff_right]
        intro h
        cases h
        exact hj rfl
    · rw [he, List.map_cons]
      exact List.nodup_cons.mpr ⟨hno, hx.nodup⟩
    · rw [he, List.map_cons] at ha
      rw [hlen]
      rcases List.mem_cons.mp ha with rfl | ha
      · exact ⟨rfl, hi⟩
      · exact hx.actors a ha

theorem Calling.start (l : Loader W S) (calls : List (Value × Text)) :
    Calling (Crew.calling l calls) := by
  refine ⟨fun i t ht => ?_, List.nodup_nil, nofun⟩
  obtain ⟨ts, hts, rfl⟩ := Option.map_eq_some_iff.mp ((List.getElem?_map ..).symm.trans ht)
  obtain ⟨c, -, rfl⟩ := Option.map_eq_some_iff.mp ((List.getElem?_map ..).symm.trans hts)
  exact .before nofun

variable (ops) in
theorem Calling.run (schedule : List Nat) (hx : Calling x) (hn : Sane n x) :
    Calling (x.run ops schedule) :=
  (Crew.run_preserves (P := fun x => Calling x ∧ Sane n x)
    (fun _ _ _ h hx => ⟨hx.1.step hx.2.custody h, hx.2.step h⟩) schedule ⟨hx, hn⟩).1

end Steps

/-! ## When all calls are done -/

section Done
variable {x : Crew W S}

def Crew.resultsOf (x : Crew W S) (i : Nat) : List (Except Fault Value) :=
  match x.threads[i]? with
  | some t => t.results
  | none => []

def Crew.results (x : Crew W S) : List (Except Fault Value) := x.threads.flatMap Thread.results

theorem Calling.done (hx : Calling x) (hd : x.isDone = true) {i : Nat}
    (hi : i < x.threads.length) :
    ∃ r, (⟨i, 0⟩, r) ∈ ends x.shared.events ∧ x.resultsOf i = [Loader.answer r] := by
  have ht := List.getElem?_eq_getElem hi
  have ho := hx.once i _ ht
  have hdone := List.all_eq_true.mp hd _ (List.mem_of_getElem? ht)
  unfold Crew.resultsOf
  rw [ht]
  generalize x.threads[i] = t at ho hdone
  cases ho with
  | done h => exact ⟨_, h, rfl⟩
  | _ => cases hdone

theorem Calling.result (hx : Calling x) (hd : x.isDone = true) {a : Actor}
    {r : Except Fault Value} (ha : (a, r) ∈ ends x.shared.events) :
    x.resultsOf a.thread = [Loader.answer r] := by
  have hmem : a ∈ (ends x.shared.events).map Prod.fst := List.mem_map.mpr ⟨_, ha, rfl⟩
  obtain ⟨htask, hlt⟩ := hx.actors a hmem
  obtain ⟨r', hr', hres⟩ := hx.done hd hlt
  have hself : (⟨a.thread, 0⟩ : Actor) = a := by rw [← htask]
  rw [hself] at hr'
  obtain ⟨-, rfl⟩ := Prod.mk.inj (List.inj_on_of_nodup_map hx.nodup ha hr' rfl)
  exact hres

theorem Calling.actors_perm (hx : Calling x) (hd : x.isDone = true) :
    (((ends x.shared.events).map Prod.fst).map Actor.thread).Perm
      (List.range x.threads.length) := by
  have hinj : ∀ a ∈ (ends x.shared.events).map Prod.fst, ∀ b ∈ (ends x.shared.events).map Prod.fst,
      a.thread = b.thread → a = b := by
    rintro ⟨i, k⟩ ha ⟨j, m⟩ hb rfl
    obtain rfl : k = 0 := (hx.actors _ ha).1
    obtain rfl : m = 0 := (hx.actors _ hb).1
    rfl
  refine (List.perm_ext_iff_of_nodup (hx.nodup.map_on hinj) List.nodup_range).mpr fun i => ?_
  rw [List.mem_range, List.mem_map]
  constructor
  · rintro ⟨a, ha, rfl⟩
    exact (hx.actors a ha).2
  · intro hi
    obtain ⟨r, hr, -⟩ := hx.done hd hi
    exact ⟨⟨i, 0⟩, List.mem_map.mpr ⟨_, hr, rfl⟩, rfl⟩

theorem Crew.results_eq (x : Crew W S) :
    x.results = (List.range x.threads.length).flatMap x.resultsOf := by
  unfold Crew.results
  rw [List.flatMap_def, List.flatMap_def]
  congr 1
  refine List.ext_getElem (by simp) fun i h1 h2 => ?_
  rw [List.length_map] at h1
  simp only [List.getElem_map, List.getElem_range, Crew.resultsOf, List.getElem?_eq_getElem h1]

theorem Calling.results_perm (hx : Calling x) (hd : x.isDone = true) :
    x.results.Perm ((ends x.shared.events).map fun p => Loader.answer p.2) := by
  have hends : (ends x.shared.events).map (fun p => Loader.answer p.2) =
      (((ends x.shared.events).map Prod.fst).map Actor.thread).flatMap x.resultsOf := by
    rw [List.map_map, List.flatMap_map, List.map_eq_flatMap]
    exact List.flatMap_congr fun p hp => (hx.result hd hp).symm
  rw [x.results_eq, hends]
  exact (hx.actors_perm hd).symm.flatMap_right _

end Done
end ConfigLoader.Threads
