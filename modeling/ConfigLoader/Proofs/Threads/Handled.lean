import ConfigLoader.Proofs.Threads.Watched

/-! # What threads do to services

What is noted at the operations of services is set against what is known of the slot: every attempt to
build a service asks for one once, what was built is kept, and a service is closed by the task that took
it out, once.
-/
namespace ConfigLoader.Threads
variable {W S : Type}

/-! ## Handlings -/

def Handling.isBuild : Handling → Bool
  | .build _ _ => true
  | _ => false

def Handling.isRefusal : Handling → Bool
  | .refuse _ => true
  | _ => false

def Handling.closes (k : Nat) : Handling → Option Actor
  | .close a j => if j = k then some a else none
  | _ => none

/-- The tasks that called a service to close, the last one first. -/
def callers (k : Nat) (hs : List Handling) : List Actor := hs.filterMap (Handling.closes k)

theorem callers_close (k : Nat) (a : Actor) (j : Nat) (hs : List Handling) (es : List Event)
    (h : callers k hs = closers k es) :
    callers k (.close a j :: hs) = closers k (.close a j :: es) := by
  simp only [callers, closers, List.filterMap_cons, Handling.closes, Event.closes] at h ⊢
  rw [h]

/-- Whether a thread has a service that is not in the slot yet. -/
def Activity.stores : Activity S → Bool
  | .call _ _ (.storing _) => true
  | _ => false

theorem Activity.stores_builds {a : Activity S} (h : a.stores = true) : a.builds = true := by
  cases a with
  | call path content p =>
    cases p with
    | storing s => rfl
    | _ => cases h
  | _ => cases h

/-! ## Numbers -/

def Placed (ss : List (Nat × S)) : Prop := ss.map Prod.fst = List.range ss.length

theorem Placed.get {ss : List (Nat × S)} (h : Placed ss) {k : Nat} {s : Nat × S}
    (hs : ss[k]? = some s) : s.1 = k := by
  have hk := (List.getElem?_eq_some_iff.mp hs).1
  have he : (ss.map Prod.fst)[k]? = some s.1 := by rw [List.getElem?_map, hs, Option.map_some]
  rw [h, List.getElem?_range hk] at he
  exact (Option.some.inj he).symm

theorem Placed.append {ss : List (Nat × S)} (h : Placed ss) {s : Nat × S}
    (hs : s.1 = ss.length) : Placed (ss ++ [s]) := by
  rw [Placed, List.map_append, h, List.length_append, List.length_singleton, List.range_succ, ← hs]
  rfl

theorem Placed.set {ss : List (Nat × S)} (h : Placed ss) {k : Nat} {s : Nat × S}
    (hs : ss[k]? = some s) (u : S) : Placed (ss.set k (s.1, u)) := by
  obtain ⟨hk, rfl⟩ := List.getElem?_eq_some_iff.mp hs
  have hk' : k < (ss.map Prod.fst).length := by rwa [List.length_map]
  have he : (ss.map Prod.fst)[k] = ss[k].1 := List.getElem_map ..
  rw [Placed, List.length_set, List.map_set, ← he, List.set_getElem_self hk', h]

/-! ## Operations in steps -/

section Operations
variable {ops : ServiceOps W S} {a : Actor} {x x' : Shared (Watched W) (Nat × S)}
  {r : Except Fault Value}

theorem service?_cases {x : Shared W S} {k : Option Nat} {j : Nat} {s : S}
    (h : x.service? k = some (j, s)) : x.built[j]? = some s := by
  obtain ⟨k, rfl, h⟩ := Option.bind_eq_some_iff.mp h
  obtain ⟨u, hu, h⟩ := Option.map_eq_some_iff.mp h
  cases h
  exact hu

theorem ask_handled {path content : Value} {k : Option Nat}
    (h : x.ask (Watched.ops a ops) a path content k = (r, x')) (hp : Placed x.built) :
    Placed x'.built ∧ x'.state.world.built = x.state.world.built ∧
      (x'.state.world.handlings = x.state.world.handlings ∨
        ∃ j, x'.state.world.handlings = .ask a j :: x.state.world.handlings) := by
  unfold Shared.ask at h
  cases hn : Loader.contentLength content with
  | error f =>
    rw [hn] at h
    cases h
    exact ⟨hp, rfl, .inl rfl⟩
  | ok n =>
    simp only [hn] at h
    split at h
    · cases h
      exact ⟨hp, rfl, .inl rfl⟩
    · next j s hs =>
      cases h
      exact ⟨hp.set (service?_cases hs) _, rfl, .inr ⟨_, rfl⟩⟩

theorem shut_handled {k : Nat} (hp : Placed x.built) (hk : k < x.built.length)
    (h : x.shut (Watched.ops a ops) a k = (r, x')) :
    x'.state.world.built = x.state.world.built ∧
      x'.state.world.handlings = .close a k :: x.state.world.handlings := by
  have hs := List.getElem?_eq_getElem hk
  unfold Shared.shut at h
  rw [Shared.service?_some hs] at h
  cases h
  refine ⟨rfl, ?_⟩
  change Handling.close a (x.built[k]).1 :: _ = _
  rw [hp.get hs]

end Operations

/-! ## Every reachable state -/

structure Recorded (x : Crew (Watched W) (Nat × S)) : Prop where
  placed : Placed x.shared.built
  /-- The next service to be put in the slot has the next number. -/
  storing : ∀ (i : Nat) (t : Thread (Nat × S)) path content s, x.threads[i]? = some t →
    t.activity = .call path content (.storing s) → s.1 = x.shared.built.length
  number : x.shared.state.world.built =
    x.shared.built.length + x.threads.countP fun t => t.activity.stores
  builds : x.handlings.countP Handling.isBuild =
    x.shared.events.countP Event.isFilling + x.threads.countP fun t => t.activity.stores
  refusals : x.handlings.countP Handling.isRefusal = x.shared.events.countP Event.isRefusal
  closes : ∀ k, callers k x.handlings = closers k x.shared.events

section Steps
variable {ops : ServiceOps W S} {i n : Nat} {t t' : Thread (Nat × S)}
  {x x' : Crew (Watched W) (Nat × S)}

/-- While a thread is building a service, none has one that is not in the slot yet. -/
theorem Sane.none_stores (hx : Sane n x) {path content : Value} (ht : x.threads[i]? = some t)
    (ha : t.activity = .call path content .building) :
    (x.threads.countP fun t => t.activity.stores) = 0 := by
  refine List.countP_eq_zero.mpr fun u hu hstores => ?_
  obtain ⟨j, hj, rfl⟩ := List.mem_iff_getElem.mp hu
  have huj := List.getElem?_eq_getElem hj
  have hi := (hx.locked.lock i t ht).mp (by rw [ha]; rfl)
  have hj' := (hx.locked.lock j _ huj).mp
    (Activity.builds_holds (Activity.stores_builds hstores))
  obtain rfl : i = j := Option.some.inj (hi.symm.trans hj')
  obtain rfl : t = x.threads[i] := Option.some.inj (ht.symm.trans huj)
  rw [ha] at hstores
  cases hstores

/-- A step that builds no service, fills nothing and is refused nothing. -/
structure Even (t : Thread (Nat × S)) (x : Shared (Watched W) (Nat × S)) (t' : Thread (Nat × S))
    (x' : Shared (Watched W) (Nat × S)) : Prop where
  placed : Placed x'.built
  size : x'.built.length = x.built.length
  number : x'.state.world.built = x.state.world.built
  stores : t'.activity.stores = false ∧ t.activity.stores = false
  builds : x'.state.world.handlings.countP Handling.isBuild =
    x.state.world.handlings.countP Handling.isBuild
  refusals : x'.state.world.handlings.countP Handling.isRefusal =
    x.state.world.handlings.countP Handling.isRefusal
  fillings : x'.events.countP Event.isFilling = x.events.countP Event.isFilling
  refused : x'.events.countP Event.isRefusal = x.events.countP Event.isRefusal
  closes : ∀ k, callers k x.state.world.handlings = closers k x.events →
    callers k x'.state.world.handlings = closers k x'.events

theorem Even.kept {x x' : Shared (Watched W) (Nat × S)} (hp : Placed x.built)
    (hb : x'.built = x.built) (hw : x'.state.world = x.state.world)
    (he : x'.events = x.events ∨ ∃ e, e.isQuiet = true ∧ e.isRefusal = false ∧
      x'.events = e :: x.events)
    (hs : t'.activity.stores = false ∧ t.activity.stores = false) : Even t x t' x' := by
  have hcount : ∀ p : Event → Bool, (∀ e : Event, e.isQuiet = true → e.isRefusal = false → p e = false) →
      x'.events.countP p = x.events.countP p := by
    intro p hp
    rcases he with he | ⟨e, hq, hr, he⟩
    · rw [he]
    · rw [he, List.countP_cons, hp e hq hr]
      rfl
  refine ⟨hb ▸ hp, by rw [hb], by rw [hw], hs, by rw [hw], by rw [hw], hcount _ ?_, hcount _ ?_, ?_⟩
  · intro e hq _
    cases e with
    | fill a k => cases hq
    | _ => rfl
  · exact fun e _ hr => hr
  · intro k hk
    rw [hw, hk]
    rcases he with he | ⟨e, hq, -, he⟩
    · rw [he]
    · rw [he, closers_skip (e.closes_quiet hq k)]

theorem Even.asked {x x' : Shared (Watched W) (Nat × S)} {a : Actor} {path content : Value}
    {k : Option Nat} {r : Except Fault Value} (hp : Placed x.built)
    (hr : x.ask (Watched.ops a ops) a path content k = (r, x'))
    (hs : t'.activity.stores = false ∧ t.activity.stores = false) : Even t x t' x' := by
  obtain ⟨hplaced, hnumber, hh⟩ := ask_handled hr hp
  obtain ⟨-, -, hsize, he⟩ := ask_effect hr
  have hhandled : ∀ p : Handling → Bool, (∀ j, p (.ask a j) = false) →
      x'.state.world.handlings.countP p = x.state.world.handlings.countP p := by
    intro p hp
    rcases hh with hh | ⟨j, hh⟩
    · rw [hh]
    · rw [hh, List.countP_cons, hp]
      rfl
  have hcount : ∀ p : Event → Bool, (∀ a k r, p (.ask a k r) = false) →
      x'.events.countP p = x.events.countP p := by
    intro p hp
    rcases he with he | ⟨j, he⟩
    · rw [he]
    · rw [he, List.countP_cons, hp]
      rfl
  refine ⟨hplaced, hsize, hnumber, hs, hhandled _ fun _ => rfl, hhandled _ fun _ => rfl,
    hcount _ fun _ _ _ => rfl, hcount _ fun _ _ _ => rfl, fun k hclose => ?_⟩
  have h1 : callers k x'.state.world.handlings = callers k x.state.world.handlings := by
    rcases hh with hh | ⟨j, hh⟩ <;> rw [hh]
    rfl
  have h2 : closers k x'.events = closers k x.events := by
    rcases he with he | ⟨j, he⟩ <;> rw [he]
    rfl
  rw [h1, hclose, h2]

inductive Handled (i : Nat) (t : Thread (Nat × S)) (x : Shared (Watched W) (Nat × S))
    (t' : Thread (Nat × S)) (x' : Shared (Watched W) (Nat × S)) : Prop
  | even (h : Even t x t' x')
  | build {path content : Value} {s : S} {w : Logged W}
      (ha : t.activity = .call path content .building)
      (ht : t' = t.goes (.call path content (.storing (x.state.world.built, s))))
      (hx : x' = { x with state := (x.state.world.after (x.state.world.built + 1)
        (.build (t.actor i) x.state.world.built) w) })
  | refuse {path content : Value} {f : Fault} {w : Logged W}
      (ha : t.activity = .call path content .building)
      (ht : t' = t.goes (.call path content (.leaving (.error f))))
      (hx : x' = Shared.see (.refuse (t.actor i) f)
        { x with state := x.state.world.after x.state.world.built (.refuse (t.actor i)) w })
  | fill {path content : Value} {s : Nat × S} (ha : t.activity = .call path content (.storing s))
      (ht : t' = t.goes (.call path content .taking))
      (hx : x' = Shared.see (.fill (t.actor i) x.built.length)
        { x with slot := some x.built.length, built := x.built ++ [s] })

theorem Step.handled {x x' : Shared (Watched W) (Nat × S)}
    (h : Step (Watched.ops (t.actor i) ops) i t x t' x') (hp : Placed x.built)
    (hk : ∀ k, t.activity.owes = some k → k < x.built.length) : Handled i t x t' x' := by
  cases h with
  | create ha hc =>
    rcases e : ops.create (x.state.map Watched.world) with ⟨r, m⟩
    simp only [Watched.ops, e] at hc
    cases r with
    | ok s =>
      cases hc
      exact .build ha rfl rfl
    | error f => cases hc
  | refuse ha hc =>
    rcases e : ops.create (x.state.map Watched.world) with ⟨r, m⟩
    simp only [Watched.ops, e] at hc
    cases r with
    | ok s => cases hc
    | error f =>
      cases hc
      exact .refuse ha rfl rfl
  | fill ha => exact .fill ha rfl rfl
  | ask ha hr =>
    exact .even (.asked hp hr ⟨rfl, by rw [ha]; rfl⟩)
  | close ha hr =>
    have hlt := hk _ (by rw [ha]; rfl)
    obtain ⟨hnumber, hh⟩ := shut_handled hp hlt hr
    obtain ⟨-, -, hb, he⟩ := shut_effect hlt hr
    refine .even ⟨hb ▸ hp, by rw [hb], hnumber, ⟨rfl, by rw [ha]; rfl⟩, by rw [hh]; rfl,
      by rw [hh]; rfl, by rw [he]; rfl, by rw [he]; rfl, ?_⟩
    intro j hj
    rw [hh, he]
    exact callers_close j _ _ _ _ hj
  | attempt ha hs =>
    exact .even (.kept hp rfl rfl (.inr ⟨_, rfl, rfl, rfl⟩) ⟨rfl, by rw [ha]; rfl⟩)
  | empty ha =>
    refine .even ⟨hp, rfl, rfl, ⟨rfl, by rw [ha]; rfl⟩, rfl, rfl, rfl, rfl, fun k hk => hk⟩
  | _ => exact .even (.kept hp rfl rfl (.inl rfl) ⟨rfl, by simp only [*]; rfl⟩)

section
variable (ht : x.threads[i]? = some t) (hth : x'.threads = x.threads.set i t')
include hth

/-- Where no service is put in the slot, those that threads have keep their number. -/
theorem Recorded.stored (hr : Recorded x) (hsize : x'.shared.built.length = x.shared.built.length)
    (hnew : ∀ path content s, t'.activity = .call path content (.storing s) →
      s.1 = x.shared.built.length) (j : Nat) (u : Thread (Nat × S)) (path content : Value)
    (s : Nat × S) (hu : x'.threads[j]? = some u) (ha : u.activity = .call path content (.storing s)) :
    s.1 = x'.shared.built.length := by
  rw [hth] at hu
  rw [hsize]
  rcases set_cases hu with ⟨rfl, rfl⟩ | ⟨-, hu⟩
  · exact hnew path content s ha
  · exact hr.storing j u path content s hu ha

include ht

theorem countP_stores : (x'.threads.countP fun t => t.activity.stores) + t.activity.stores.toNat =
    (x.threads.countP fun t => t.activity.stores) + t'.activity.stores.toNat := by
  rw [hth]
  exact countP_set ht fun t => t.activity.stores

theorem Recorded.even (hr : Recorded x) (he : Even t x.shared t' x'.shared) : Recorded x' := by
  have hcount := countP_stores ht hth
  rw [he.stores.1, he.stores.2] at hcount
  have hbuilds := hr.builds
  rw [Crew.handlings] at hbuilds
  refine ⟨he.placed, hr.stored hth he.size fun path content s ha => ?_,
    by rw [he.number, he.size, hr.number]; omega, ?_, ?_, fun k => he.closes k (hr.closes k)⟩
  · have hstores := he.stores.1
    rw [ha] at hstores
    cases hstores
  · rw [he.fillings, Crew.handlings, he.builds]
    omega
  · rw [he.refused, Crew.handlings, he.refusals]
    exact hr.refusals

/-- A service that was built is counted, and has the next number for the slot. -/
theorem Recorded.building (hr : Recorded x) (hx : Sane n x) {path content : Value} {s : S}
    {w : Logged W} (ha : t.activity = .call path content .building)
    (ht' : t' = t.goes (.call path content (.storing (x.shared.state.world.built, s))))
    (hx' : x'.shared = { x.shared with state := (x.shared.state.world.after
      (x.shared.state.world.built + 1) (.build (t.actor i) x.shared.state.world.built) w) }) :
    Recorded x' := by
  have hnone := hx.none_stores ht ha
  have hcount := countP_stores ht hth
  have hnew : t'.activity.stores = true := by rw [ht']; rfl
  have hold : t.activity.stores = false := by rw [ha]; rfl
  rw [hnew, hold, hnone, Bool.toNat_true, Bool.toNat_false] at hcount
  have hnumber := hr.number
  have hbuilds := hr.builds
  rw [Crew.handlings] at hbuilds
  rw [hnone] at hnumber hbuilds
  refine ⟨by rw [hx']; exact hr.placed, hr.stored hth (by rw [hx']) fun _ _ _ hau => ?_, ?_, ?_,
    by rw [Crew.handlings, hx']; exact hr.refusals, by rw [Crew.handlings, hx']; exact hr.closes⟩
  · rw [ht'] at hau
    cases hau
    exact hnumber
  · rw [hx']
    simp only [Watched.after]
    omega
  · rw [Crew.handlings, hx']
    simp only [Watched.after, List.countP_cons, Handling.isBuild, if_true]
    omega

theorem Recorded.refusing (hr : Recorded x) {path content : Value} {f : Fault} {w : Logged W}
    (ha : t.activity = .call path content .building)
    (ht' : t' = t.goes (.call path content (.leaving (.error f))))
    (hx' : x'.shared = Shared.see (.refuse (t.actor i) f)
      { x.shared with state := (x.shared.state.world.after x.shared.state.world.built
        (.refuse (t.actor i)) w) }) :
    Recorded x' := by
  have hcount := countP_stores ht hth
  have hnew : t'.activity.stores = false := by rw [ht']; rfl
  have hold : t.activity.stores = false := by rw [ha]; rfl
  rw [hnew, hold, Bool.toNat_false, Nat.add_zero, Nat.add_zero] at hcount
  have hrefusals := hr.refusals
  rw [Crew.handlings] at hrefusals
  refine ⟨by rw [hx']; exact hr.placed, hr.stored hth (by rw [hx']; rfl) fun _ _ _ hau => ?_,
    by rw [hcount, hx']; exact hr.number, by rw [Crew.handlings, hcount, hx']; exact hr.builds, ?_,
    by rw [Crew.handlings, hx']; exact hr.closes⟩
  · rw [hau] at hnew
    cases hnew
  · rw [Crew.handlings, hx']
    simp only [Watched.after, Shared.see_events, Shared.see_state, List.countP_cons,
      Handling.isRefusal, Event.isRefusal, if_true, hrefusals]

/-- The service of the thread that has the lock is put in the slot, and no other thread has one. -/
theorem Recorded.filling (hr : Recorded x) (hx : Sane n x) {path content : Value} {s : Nat × S}
    (ha : t.activity = .call path content (.storing s)) (ht' : t' = t.goes (.call path content .taking))
    (hx' : x'.shared = Shared.see (.fill (t.actor i) x.shared.built.length)
      { x.shared with slot := some x.shared.built.length, built := x.shared.built ++ [s] }) :
    Recorded x' := by
  have hcount := countP_stores ht hth
  have hnew : t'.activity.stores = false := by rw [ht']; rfl
  have hold : t.activity.stores = true := by rw [ha]; rfl
  rw [hnew, hold, Bool.toNat_true, Bool.toNat_false, Nat.add_zero] at hcount
  have hnumber := hr.number
  have hbuilds := hr.builds
  rw [Crew.handlings] at hbuilds
  refine ⟨?_, ?_, ?_, ?_, by rw [Crew.handlings, hx']; exact hr.refusals,
    by rw [Crew.handlings, hx']; exact hr.closes⟩
  · rw [hx']
    exact hr.placed.append (hr.storing i t _ _ _ ht ha)
  · intro j u path content s hu hau
    rw [hth] at hu
    rcases set_cases hu with ⟨rfl, rfl⟩ | ⟨hj, hu⟩
    · rw [hau] at hnew
      cases hnew
    · -- only one thread has the lock
      have hi := (hx.locked.lock i t ht).mp (by rw [ha]; rfl)
      have hj' := (hx.locked.lock j u hu).mp (by rw [hau]; rfl)
      exact absurd (Option.some.inj (hj'.symm.trans hi)) hj
  · rw [hx']
    simp only [Shared.see_state, Shared.see_built, List.length_append, List.length_singleton]
    omega
  · rw [Crew.handlings, hx']
    simp only [Shared.see_state, Shared.see_events, List.countP_cons, Event.isFilling, if_true]
    omega

end

theorem Recorded.step (h : x.watchedStep? ops i = some x') (hx : Sane n x) (hr : Recorded x) :
    Recorded x' := by
  obtain ⟨t, t', ht, hs, hth⟩ := Crew.watchedStep?_cases h
  cases hs.handled hr.placed (fun k hk => (hx.custody.owes i t k ht hk).1) with
  | even he => exact hr.even ht hth he
  | build ha ht' hx' => exact hr.building ht hth hx ha ht' hx'
  | refuse ha ht' hx' => exact hr.refusing ht hth ha ht' hx'
  | fill ha ht' hx' => exact hr.filling ht hth hx ha ht' hx'

theorem Sane.watchedStep (h : x.watchedStep? ops i = some x') (hx : Sane n x) : Sane n x' := by
  obtain ⟨t, -, h⟩ := Option.bind_eq_some_iff.mp h
  exact hx.step h

theorem Recorded.start (l : Loader W S) (tasks : List (List Task)) :
    Recorded (Crew.start (watchedLoader l) tasks) := by
  have hnone : ((Crew.start (watchedLoader l) tasks).threads.countP fun t => t.activity.stores) = 0 := by
    refine List.countP_eq_zero.mpr fun t ht => ?_
    obtain ⟨i, hi, rfl⟩ := List.mem_iff_getElem.mp ht
    rw [start_idle (List.getElem?_eq_getElem hi)]
    exact Bool.false_ne_true
  refine ⟨?_, fun i t _ _ _ ht ha => ?_, ?_, ?_, rfl, fun _ => rfl⟩
  · obtain ⟨slot, state⟩ := l
    cases slot <;> rfl
  · rw [start_idle ht] at ha
    cases ha
  · rw [hnone]
    obtain ⟨slot, state⟩ := l
    cases slot <;> rfl
  · rw [hnone]
    rfl

end Steps

/-! ## Soundness -/

/-- How the slot of a loader and its services are used by threads. Services are known by the order in
which they were built; `n` were there at the start. -/
structure Sound (ops : ServiceOps W S) (n : Nat) (x : Crew (Watched W) (Nat × S)) : Prop where
  /-- At most one thread is building a service, and the slot is empty until it is there. -/
  one_attempt : ∀ (i j : Nat) (t u : Thread (Nat × S)), x.threads[i]? = some t →
    x.threads[j]? = some u → t.activity.builds = true → u.activity.builds = true → i = j
  attempt_empty : ∀ (i : Nat) (t : Thread (Nat × S)), x.threads[i]? = some t →
    t.activity.builds = true → x.shared.slot = none
  counted : Counted n x
  /-- What was built is in the slot or on its way to it, and the attempts that were refused failed. -/
  built : x.handlings.countP Handling.isBuild =
    x.shared.events.countP Event.isFilling + x.threads.countP fun t => t.activity.stores
  refused : x.handlings.countP Handling.isRefusal = x.shared.events.countP Event.isRefusal
  placed : Placed x.shared.built
  never_overwritten : ∀ i x' k, x.watchedStep? ops i = some x' → x.shared.slot = some k →
    x'.shared.slot = some k ∨
      x'.shared.slot = none ∧ ∃ a, x'.shared.events = .empty a (some k) :: x.shared.events
  /-- A service is in the slot, or one close took it out, and no other task closes it. -/
  custody : ∀ k, k < x.shared.built.length →
    (x.shared.slot = some k ∧ takers k x.shared.events = [] ∧ callers k x.handlings = []) ∨
    (x.shared.slot ≠ some k ∧ ∃ a, takers k x.shared.events = [a] ∧
      (callers k x.handlings = [] ∨ callers k x.handlings = [a]))
  unbuilt : ∀ k, x.shared.built.length ≤ k → callers k x.handlings = []
  all_closed : x.isDone = true → ∀ k, k < x.shared.built.length → x.shared.slot ≠ some k →
    ∃ a, takers k x.shared.events = [a] ∧ callers k x.handlings = [a]
  /-- Between two emptyings the slot is filled at most once. -/
  one_filling : ∀ es fs gs, x.shared.events = es ++ (fs ++ gs) →
    (∀ e ∈ fs, e.isEmptying = false) → fs.countP Event.isFilling ≤ 1
  failure : ∀ (i : Nat) (t : Thread (Nat × S)) path content f, x.threads[i]? = some t →
    t.activity = .call path content (.leaving (.error f)) →
    x.shared.slot = none ∧ x.shared.holder = some i ∧
      ∃ x', x.watchedStep? ops i = some x' ∧ x'.shared.slot = none ∧ x'.shared.holder = none

theorem Sane.sound (ops : ServiceOps W S) {n : Nat} {x : Crew (Watched W) (Nat × S)}
    (hx : Sane n x) (hr : Recorded x) : Sound ops n x where
  one_attempt i j t u ht hu hbt hbu := by
    have hi := (hx.locked.lock i t ht).mp (Activity.builds_holds hbt)
    have hj := (hx.locked.lock j u hu).mp (Activity.builds_holds hbu)
    exact Option.some.inj (hi.symm.trans hj)
  attempt_empty _ _ := hx.slot_of_builds
  counted := hx.counted
  built := hr.builds
  refused := hr.refusals
  placed := hr.placed
  never_overwritten i x' k h hk := by
    obtain ⟨t, -, h⟩ := Option.bind_eq_some_iff.mp h
    exact hx.step_slot h hk
  custody k hk := by
    rw [hr.closes]
    by_cases hs : x.shared.slot = some k
    · exact .inl ⟨hs, hx.custody.kept k (.inl hs)⟩
    · obtain ⟨a, h1, h2⟩ := hx.custody.gone k hk hs
      refine .inr ⟨hs, a, h1, ?_⟩
      rcases h2 with h2 | ⟨t, ht, -, ho⟩
      · exact .inr h2
      · exact .inl (hx.custody.owes a.thread t k ht ho).2.2.2
  unbuilt k hk := (hr.closes k).trans (hx.custody.kept k (.inr hk)).2
  all_closed hd k := by
    rw [hr.closes]
    exact hx.closed_of_done hd
  one_filling es fs gs he hfs := by
    have hone := hx.alternating.once (fs ++ gs) ⟨es, he.symm⟩
    rw [sinceEmptied_append gs hfs] at hone
    omega
  failure i t _ _ _ ht ha := by
    obtain ⟨h1, h2, x', h3, h4⟩ := hx.failure (Watched.ops (t.actor i) ops) ht ha
    exact ⟨h1, h2, x', by rw [Crew.watchedStep?, ht, Option.bind_some, h3], h4⟩

/-- Whatever threads do with a loader, and in whatever order they take their steps. They are watched
at the operations of the services, which changes nothing of what they do. -/
theorem run_sound (ops : ServiceOps W S) (l : Loader W S) (tasks : List (List Task))
    (schedule : List Nat) :
    ((Crew.start (watchedLoader l) tasks).watchedRun ops schedule).unwatched =
      (Crew.start l tasks).run ops schedule ∧
    Sound ops l.slot.toList.length
      ((Crew.start (watchedLoader l) tasks).watchedRun ops schedule) := by
  refine ⟨by rw [Crew.watchedRun_unwatched, Crew.start_unwatched], ?_⟩
  have hstart := Sane.start (watchedLoader l) tasks
  have hlength : (watchedLoader l).slot.toList.length = l.slot.toList.length := by
    obtain ⟨slot, state⟩ := l
    cases slot <;> rfl
  rw [hlength] at hstart
  obtain ⟨hx, hr⟩ := Crew.watchedRun_preserves ops
    (P := fun x => Sane l.slot.toList.length x ∧ Recorded x)
    (fun _ _ _ h hx => ⟨hx.1.watchedStep h, hx.2.step h hx.1⟩) schedule ⟨hstart, .start l tasks⟩
  exact hx.sound ops hr

end ConfigLoader.Threads
