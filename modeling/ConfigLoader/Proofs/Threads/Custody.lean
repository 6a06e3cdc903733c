import ConfigLoader.Proofs.Threads.Steps

/-! # Who has the lock, and who has a service

The lock belongs to the thread that is between taking it and giving it back, and only that thread
changes the slot. A service that was built is in the slot until one close takes it out; from then on
this close owes it a close of its own.
-/
namespace ConfigLoader.Threads
variable {W S : Type}

/-! ## What a thread has -/

def CallPoint.holds : CallPoint S → Bool
  | .checking | .building | .storing _ | .taking | .leaving _ => true
  | .waiting | .asking _ | .reporting _ => false

def Activity.holds : Activity S → Bool
  | .idle => false
  | .call _ _ p => p.holds
  | .close .emptying | .close (.leaving _) => true
  | .close (.closing _) => false

/-- Whether a thread is building a service, up to the time that it is in the slot. -/
def Activity.builds : Activity S → Bool
  | .call _ _ .building | .call _ _ (.storing _) => true
  | _ => false

/-- The service that a thread took out of the slot and has not closed yet. -/
def Activity.owes : Activity S → Option Nat
  | .close (.leaving k) => k
  | .close (.closing k) => some k
  | _ => none

/-! ## What events tell of a service -/

def Event.takes (k : Nat) : Event → Option Actor
  | .empty a (some j) => if j = k then some a else none
  | _ => none

def Event.closes (k : Nat) : Event → Option Actor
  | .close a j => if j = k then some a else none
  | _ => none

/-- The tasks that took a service out of the slot, the last one first. -/
def takers (k : Nat) (es : List Event) : List Actor := es.filterMap (Event.takes k)

/-- The tasks that closed a service, the last one first. -/
def closers (k : Nat) (es : List Event) : List Actor := es.filterMap (Event.closes k)

theorem takers_skip {k : Nat} {e : Event} (he : e.takes k = none) (es : List Event) :
    takers k (e :: es) = takers k es := by
  simp only [takers, List.filterMap_cons, he]

theorem closers_skip {k : Nat} {e : Event} (he : e.closes k = none) (es : List Event) :
    closers k (e :: es) = closers k es := by
  simp only [closers, List.filterMap_cons, he]

@[simp] theorem takers_empty (a : Actor) (k : Nat) (es : List Event) :
    takers k (.empty a (some k) :: es) = a :: takers k es := by
  simp only [takers, List.filterMap_cons, Event.takes, if_true]

@[simp] theorem closers_close (a : Actor) (k : Nat) (es : List Event) :
    closers k (.close a k :: es) = a :: closers k es := by
  simp only [closers, List.filterMap_cons, Event.closes, if_true]

def Event.isQuiet : Event → Bool
  | .attempt _ | .refuse _ _ | .ask _ _ _ => true
  | .fill _ _ | .empty _ _ | .close _ _ => false

theorem Event.takes_quiet (e : Event) (h : e.isQuiet = true) (k : Nat) : e.takes k = none := by
  cases e with
  | empty a o => cases h
  | _ => rfl

theorem Event.closes_quiet (e : Event) (h : e.isQuiet = true) (k : Nat) : e.closes k = none := by
  cases e with
  | close a j => cases h
  | _ => rfl

/-! ## What a step does to a service -/

section Effects
variable {ops : ServiceOps W S} {i : Nat} {t t' : Thread S} {x x' : Shared W S}

theorem ask_effect {a : Actor} {path content : Value} {k : Option Nat} {r : Except Fault Value}
    (h : x.ask ops a path content k = (r, x')) :
    x'.slot = x.slot ∧ x'.holder = x.holder ∧ x'.built.length = x.built.length ∧
      (x'.events = x.events ∨ ∃ j, x'.events = .ask a j r :: x.events) := by
  unfold Shared.ask at h
  cases hn : Loader.contentLength content with
  | error f =>
    rw [hn] at h
    cases h
    exact ⟨rfl, rfl, rfl, .inl rfl⟩
  | ok n =>
    simp only [hn] at h
    split at h
    · cases h
      exact ⟨rfl, rfl, rfl, .inl rfl⟩
    · cases h
      exact ⟨rfl, rfl, List.length_set, .inr ⟨_, rfl⟩⟩

theorem shut_effect {a : Actor} {k : Nat} {r : Except Fault Value} (hk : k < x.built.length)
    (h : x.shut ops a k = (r, x')) :
    x'.slot = x.slot ∧ x'.holder = x.holder ∧ x'.built = x.built ∧
      x'.events = .close a k :: x.events := by
  unfold Shared.shut at h
  rw [Shared.service?_some (List.getElem?_eq_getElem hk)] at h
  cases h
  exact ⟨rfl, rfl, rfl, rfl⟩

/-- A step changes the lock only by taking it or giving it back. -/
theorem Step.holder (h : Step ops i t x t' x')
    (hk : ∀ k, t.activity.owes = some k → k < x.built.length) :
    (x'.holder = x.holder ∧ t'.activity.holds = t.activity.holds) ∨
    (x.holder = none ∧ x'.holder = some i ∧ t'.activity.holds = true) ∨
    (t.activity.holds = true ∧ x'.holder = none ∧ t'.activity.holds = false) := by
  cases h with
  | enter ha hh => exact .inr (.inl ⟨hh, rfl, rfl⟩)
  | lock ha ht hh => exact .inr (.inl ⟨hh, rfl, rfl⟩)
  | leave ha | fail ha | pass ha | release ha => exact .inr (.inr ⟨by rw [ha]; rfl, rfl, rfl⟩)
  | ask ha hr => exact .inl ⟨(ask_effect hr).2.1, by rw [ha]; rfl⟩
  | close ha hr => exact .inl ⟨(shut_effect (hk _ (by rw [ha]; rfl)) hr).2.1, by rw [ha]; rfl⟩
  | _ => exact .inl ⟨rfl, by simp only [*]; rfl⟩

/-- A step that neither fills nor empties the slot and closes nothing. -/
structure Quiet (t : Thread S) (x : Shared W S) (t' : Thread S) (x' : Shared W S) : Prop where
  slot : x'.slot = x.slot
  size : x'.built.length = x.built.length
  events : x'.events = x.events ∨ ∃ e, e.isQuiet = true ∧ x'.events = e :: x.events
  owes : t'.activity.owes = t.activity.owes
  results : t.activity.owes ≠ none → t'.results = t.results

theorem Quiet.takers (h : Quiet t x t' x') (k : Nat) :
    takers k x'.events = takers k x.events := by
  rcases h.events with he | ⟨e, hq, he⟩
  · rw [he]
  · rw [he, takers_skip (e.takes_quiet hq k)]

theorem Quiet.closers (h : Quiet t x t' x') (k : Nat) :
    closers k x'.events = closers k x.events := by
  rcases h.events with he | ⟨e, hq, he⟩
  · rw [he]
  · rw [he, closers_skip (e.closes_quiet hq k)]

inductive Effect (i : Nat) (t : Thread S) (x : Shared W S) (t' : Thread S) (x' : Shared W S) : Prop
  | quiet (h : Quiet t x t' x')
  | fill {path content : Value} {s : S} (ha : t.activity = .call path content (.storing s))
      (ht : t' = t.goes (.call path content .taking))
      (hx : x' = { x with slot := some x.built.length, built := x.built ++ [s] }.see
        (.fill (t.actor i) x.built.length))
  | empty (ha : t.activity = .close .emptying) (ht : t' = t.goes (.close (.leaving x.slot)))
      (hx : x' = { x with slot := none }.see (.empty (t.actor i) x.slot))
  | close {k : Nat} {r : Except Fault Value} (ha : t.activity = .close (.closing k))
      (ht : t' = t.ends r) (hs : x'.slot = x.slot) (hb : x'.built = x.built)
      (he : x'.events = .close (t.actor i) k :: x.events)

theorem Step.effect (h : Step ops i t x t' x')
    (hk : ∀ k, t.activity.owes = some k → k < x.built.length) : Effect i t x t' x' := by
  cases h with
  | fill ha => exact .fill ha rfl rfl
  | empty ha => exact .empty ha rfl rfl
  | close ha hr =>
    obtain ⟨hs, -, hb, he⟩ := shut_effect (hk _ (by rw [ha]; rfl)) hr
    exact .close ha rfl hs hb he
  | ask ha hr =>
    obtain ⟨hs, -, hb, he⟩ := ask_effect hr
    refine .quiet ⟨hs, hb, he.imp id ?_, by rw [ha]; rfl, fun _ => rfl⟩
    rintro ⟨j, he⟩
    exact ⟨_, rfl, he⟩
  | attempt ha hs | refuse ha hc =>
    exact .quiet ⟨rfl, rfl, .inr ⟨_, rfl, rfl⟩, by rw [ha]; rfl, fun _ => rfl⟩
  | answer ha | pass ha =>
    refine .quiet ⟨rfl, rfl, .inl rfl, by rw [ha]; rfl, ?_⟩
    intro ho
    rw [ha] at ho
    exact absurd rfl ho
  | _ => exact .quiet ⟨rfl, rfl, .inl rfl, by simp only [*]; rfl, fun _ => rfl⟩

theorem Effect.slot (h : Effect i t x t' x') :
    (x'.slot = x.slot ∨ t.activity.holds = true) ∧ x.built.length ≤ x'.built.length := by
  cases h with
  | quiet h => exact ⟨.inl h.slot, Nat.le_of_eq h.size.symm⟩
  | fill ha ht hx =>
    rw [hx, ha]
    refine ⟨.inr rfl, ?_⟩
    simp only [Shared.see_built, List.length_append]
    exact Nat.le_add_right _ _
  | empty ha ht hx =>
    rw [hx, ha]
    exact ⟨.inr rfl, Nat.le_refl _⟩
  | close ha ht hs hb he => exact ⟨.inl hs, Nat.le_of_eq (by rw [hb])⟩

end Effects

/-! ## The lock -/

structure Locked (x : Crew W S) : Prop where
  lock : ∀ i t, x.threads[i]? = some t → (t.activity.holds = true ↔ x.shared.holder = some i)
  holder : ∀ i, x.shared.holder = some i → i < x.threads.length

def CallPoint.Fits (x : Shared W S) : CallPoint S → Prop
  | .building | .storing _ | .leaving (.error _) => x.slot = none
  | .taking => ∃ k, x.slot = some k
  | .leaving (.ok k) | .asking k => ∃ j, k = some j ∧ j < x.built.length
  | .waiting | .checking | .reporting _ => True

theorem CallPoint.Fits.mono {p : CallPoint S} {x x' : Shared W S} (h : p.Fits x)
    (hs : x'.slot = x.slot ∨ p.holds = false) (hb : x.built.length ≤ x'.built.length) :
    p.Fits x' := by
  cases p with
  | waiting | checking | reporting r => trivial
  | asking k =>
    obtain ⟨j, hk, hj⟩ := h
    exact ⟨j, hk, Nat.lt_of_lt_of_le hj hb⟩
  | building | storing s =>
    rcases hs with hs | hs
    · exact hs.trans h
    · cases hs
  | taking =>
    rcases hs with hs | hs
    · obtain ⟨k, hk⟩ := h
      exact ⟨k, hs.trans hk⟩
    · cases hs
  | leaving r =>
    rcases hs with hs | hs
    · cases r with
      | ok k =>
        obtain ⟨j, hk, hj⟩ := h
        exact ⟨j, hk, Nat.lt_of_lt_of_le hj hb⟩
      | error f => exact hs.trans h
    · cases hs

/-! ## Services -/

/-- Where a service is that was taken out: closed, or owed by the thread that took it. -/
def Gone (x : Crew W S) (k : Nat) : Prop :=
  ∃ a, takers k x.shared.events = [a] ∧ (closers k x.shared.events = [a] ∨
    ∃ t : Thread S, x.threads[a.thread]? = some t ∧ t.actor a.thread = a ∧ t.activity.owes = some k)

structure Custody (x : Crew W S) : Prop where
  last : ∀ k, x.shared.slot = some k → k + 1 = x.shared.built.length
  point : ∀ (i : Nat) (t : Thread S) path content p, x.threads[i]? = some t →
    t.activity = .call path content p → p.Fits x.shared
  kept : ∀ k, x.shared.slot = some k ∨ x.shared.built.length ≤ k →
    takers k x.shared.events = [] ∧ closers k x.shared.events = []
  owes : ∀ (i : Nat) (t : Thread S) k, x.threads[i]? = some t → t.activity.owes = some k →
    k < x.shared.built.length ∧ x.shared.slot ≠ some k ∧
      takers k x.shared.events = [t.actor i] ∧ closers k x.shared.events = []
  gone : ∀ k, k < x.shared.built.length → x.shared.slot ≠ some k → Gone x k

theorem set_cases {α : Type} {ts : List α} {i j : Nat} {t u : α}
    (h : (ts.set i t)[j]? = some u) : (j = i ∧ u = t) ∨ (j ≠ i ∧ ts[j]? = some u) := by
  by_cases hj : j = i
  · subst hj
    have hlt := (List.getElem?_eq_some_iff.mp h).1
    rw [List.length_set] at hlt
    rw [List.getElem?_set_self hlt] at h
    exact .inl ⟨rfl, (Option.some.inj h).symm⟩
  · rw [List.getElem?_set_ne (Ne.symm hj)] at h
    exact .inr ⟨hj, h⟩

section Preserved
variable {ops : ServiceOps W S} {i : Nat} {t t' : Thread S} {x x' : Crew W S}

theorem Locked.step (hx : Locked x) (hc : Custody x) (ht : x.threads[i]? = some t)
    (hs : Step ops i t x.shared t' x'.shared) (hth : x'.threads = x.threads.set i t') :
    Locked x' := by
  have hi := (List.getElem?_eq_some_iff.mp ht).1
  have hl := hx.lock i t ht
  have hcases := hs.holder (fun k hk => (hc.owes i t k ht hk).1)
  constructor
  · intro j u hu
    rw [hth] at hu
    rcases set_cases hu with ⟨rfl, rfl⟩ | ⟨hj, hu⟩
    · rcases hcases with ⟨hh, ho⟩ | ⟨-, hh, ho⟩ | ⟨-, hh, ho⟩
      · rw [hh, ho]
        exact hl
      · rw [hh, ho]
        exact iff_of_true rfl rfl
      · rw [hh, ho]
        exact iff_of_false Bool.false_ne_true (by simp)
    · have hlj := hx.lock j u hu
      rcases hcases with ⟨hh, ho⟩ | ⟨hn, hh, ho⟩ | ⟨ho, hh, -⟩
      · rw [hh]
        exact hlj
      · rw [hlj, hn, hh]
        exact iff_of_false (by simp) (fun h => hj (Option.some.inj h).symm)
      · rw [hlj, hl.mp ho, hh]
        exact iff_of_false (fun h => hj (Option.some.inj h).symm) (by simp)
  · intro j hj
    rw [hth, List.length_set]
    rcases hcases with ⟨hh, -⟩ | ⟨-, hh, -⟩ | ⟨-, hh, -⟩
    · exact hx.holder j (hh ▸ hj)
    · rw [hh] at hj
      cases hj
      exact hi
    · rw [hh] at hj
      cases hj

theorem Step.point {path content : Value} {p : CallPoint S} (hc : Custody x)
    (ht : x.threads[i]? = some t) (hs : Step ops i t x.shared t' x'.shared)
    (ha' : t'.activity = .call path content p) : p.Fits x'.shared := by
  have hp := hc.point i t
  generalize x'.shared = y at hs ⊢
  cases hs with
  | see ha ht hs =>
    cases ha'
    exact ⟨_, rfl, Nat.lt_of_succ_le (Nat.le_of_eq (hc.last _ hs))⟩
  | miss ha ht hs =>
    cases ha'
    trivial
  | enter ha hh =>
    cases ha'
    trivial
  | reuse ha hs =>
    cases ha'
    exact ⟨_, hs⟩
  | attempt ha hs =>
    cases ha'
    exact hs
  | create ha hcr =>
    cases ha'
    exact hp _ _ _ ht ha
  | refuse ha hcr =>
    cases ha'
    exact hp _ _ _ ht ha
  | fill ha =>
    cases ha'
    exact ⟨_, rfl⟩
  | take ha =>
    cases ha'
    obtain ⟨k, hk⟩ := hp _ _ _ ht ha
    exact ⟨k, hk, Nat.lt_of_succ_le (Nat.le_of_eq (hc.last _ hk))⟩
  | leave ha =>
    cases ha'
    exact hp _ _ _ ht ha
  | fail ha =>
    cases ha'
    trivial
  | ask ha hr =>
    cases ha'
    trivial
  | _ => cases ha'

theorem Effect.last (hc : Custody x) (he : Effect i t x.shared t' x'.shared) (k : Nat)
    (hk : x'.shared.slot = some k) : k + 1 = x'.shared.built.length := by
  cases he with
  | quiet h =>
    rw [h.slot] at hk
    rw [h.size]
    exact hc.last k hk
  | fill ha hth hx =>
    rw [hx] at hk ⊢
    cases hk
    simp only [Shared.see_built, List.length_append, List.length_singleton]
  | empty ha hth hx =>
    rw [hx] at hk
    cases hk
  | close ha hth hs hb he =>
    rw [hs] at hk
    rw [hb]
    exact hc.last k hk

/-- A service that a thread took out is another one than those in the slot or not yet built. -/
theorem Event.takes_empty_ne {a : Actor} {o : Option Nat} {k : Nat} (h : o ≠ some k) :
    (Event.empty a o).takes k = none := by
  cases o with
  | none => rfl
  | some j => exact if_neg fun hj => h (by rw [hj])

theorem Event.closes_close_ne {a : Actor} {j k : Nat} (h : j ≠ k) :
    (Event.close a j).closes k = none :=
  if_neg h

theorem Effect.kept (hc : Custody x) (ht : x.threads[i]? = some t)
    (he : Effect i t x.shared t' x'.shared) (k : Nat)
    (hk : x'.shared.slot = some k ∨ x'.shared.built.length ≤ k) :
    takers k x'.shared.events = [] ∧ closers k x'.shared.events = [] := by
  cases he with
  | quiet h =>
    rw [h.slot, h.size] at hk
    rw [h.takers, h.closers]
    exact hc.kept k hk
  | fill ha hth hx =>
    rw [hx] at hk ⊢
    refine hc.kept k (.inr ?_)
    rcases hk with hk | hk
    · cases hk
      exact Nat.le_refl _
    · simp only [Shared.see_built, List.length_append] at hk
      exact Nat.le_trans (Nat.le_add_right _ _) hk
  | empty ha hth hx =>
    rw [hx] at hk ⊢
    have hk : x.shared.built.length ≤ k := hk.resolve_left (fun h => by cases h)
    have hne : x.shared.slot ≠ some k := by
      intro hs
      have := hc.last k hs
      omega
    rw [Shared.see_events, takers_skip (Event.takes_empty_ne hne), closers_skip rfl]
    exact hc.kept k (.inr hk)
  | @close j r ha hth hs hb he =>
    rw [hs, hb] at hk
    obtain ⟨hj, hne, -, -⟩ := hc.owes i t j ht (by rw [ha]; rfl)
    have hjk : j ≠ k := by
      rintro rfl
      rcases hk with hk | hk
      · exact hne hk
      · omega
    rw [he, takers_skip rfl, closers_skip (Event.closes_close_ne hjk)]
    exact hc.kept k hk

/-- A service that was taken out and is owed stays so, unless it is the one closed now. -/
theorem Effect.owed (he : Effect i t x.shared t' x'.shared) {k : Nat} {as : List Actor}
    (hk : k < x.shared.built.length) (hne : x.shared.slot ≠ some k)
    (htake : takers k x.shared.events = as) (hclose : closers k x.shared.events = [])
    (hnot : t.activity ≠ .close (.closing k)) :
    k < x'.shared.built.length ∧ x'.shared.slot ≠ some k ∧
      takers k x'.shared.events = as ∧ closers k x'.shared.events = [] := by
  cases he with
  | quiet h =>
    rw [h.slot, h.size, h.takers, h.closers]
    exact ⟨hk, hne, htake, hclose⟩
  | fill ha hth hx =>
    rw [hx]
    refine ⟨?_, fun h => ?_, htake, hclose⟩
    · simp only [Shared.see_built, List.length_append]
      omega
    · cases h
      exact Nat.lt_irrefl _ hk
  | empty ha hth hx =>
    rw [hx, Shared.see_events, takers_skip (Event.takes_empty_ne hne), closers_skip rfl]
    exact ⟨hk, nofun, htake, hclose⟩
  | @close j r ha hth hs hb he =>
    have hjk : j ≠ k := by
      rintro rfl
      exact hnot ha
    rw [he, hs, hb, takers_skip rfl, closers_skip (Event.closes_close_ne hjk)]
    exact ⟨hk, hne, htake, hclose⟩

theorem Effect.owes (hc : Custody x) (ht : x.threads[i]? = some t)
    (he : Effect i t x.shared t' x'.shared) (hth : x'.threads = x.threads.set i t') {j : Nat}
    {u : Thread S} {k : Nat} (hu : x'.threads[j]? = some u) (hk : u.activity.owes = some k) :
    k < x'.shared.built.length ∧ x'.shared.slot ≠ some k ∧
      takers k x'.shared.events = [u.actor j] ∧ closers k x'.shared.events = [] := by
  rw [hth] at hu
  rcases set_cases hu with ⟨rfl, rfl⟩ | ⟨hj, hu⟩
  · cases he with
    | quiet h =>
      rw [h.owes] at hk
      have hactor : u.actor j = t.actor j := by
        rw [Thread.actor, h.results (by rw [hk]; simp), Thread.actor]
      rw [h.slot, h.size, h.takers, h.closers, hactor]
      exact hc.owes j t k ht hk
    | fill ha hth' hx =>
      rw [hth'] at hk
      cases hk
    | empty ha hth' hx =>
      rw [hth'] at hk ⊢
      have hs : x.shared.slot = some k := hk
      obtain ⟨h1, h2⟩ := hc.kept k (.inl hs)
      rw [hx, Shared.see_events, hs, takers_empty, h1, closers_skip rfl, h2]
      exact ⟨Nat.lt_of_succ_le (Nat.le_of_eq (hc.last k hs)), nofun, rfl, rfl⟩
    | close ha hth' hs hb he =>
      rw [hth'] at hk
      cases hk
  · obtain ⟨h1, h2, h3, h4⟩ := hc.owes j u k hu hk
    refine he.owed h1 h2 h3 h4 ?_
    intro ha
    obtain ⟨-, -, h5, -⟩ := hc.owes i t k ht (by rw [ha]; rfl)
    rw [h3] at h5
    exact hj (congrArg Actor.thread (List.cons.inj h5).1)

theorem Gone.keep {k : Nat} (h : Gone x k) (ht : x.threads[i]? = some t)
    (hth : x'.threads = x.threads.set i t')
    (htake : takers k x'.shared.events = takers k x.shared.events)
    (hclose : closers k x'.shared.events = closers k x.shared.events)
    (howes : t.activity.owes = some k → t'.activity.owes = some k ∧ t'.results = t.results) :
    Gone x' k := by
  obtain ⟨a, ha, h⟩ := h
  refine ⟨a, htake.trans ha, ?_⟩
  rcases h with h | ⟨u, hu, hau, hku⟩
  · exact .inl (hclose.trans h)
  · right
    by_cases hi : i = a.thread
    · subst hi
      rw [ht] at hu
      cases hu
      obtain ⟨h1, h2⟩ := howes hku
      refine ⟨t', ?_, ?_, h1⟩
      · rw [hth, List.getElem?_set_self (List.getElem?_eq_some_iff.mp ht).1]
      · rw [← hau, Thread.actor, h2, Thread.actor]
    · refine ⟨u, ?_, hau, hku⟩
      rw [hth, List.getElem?_set_ne hi]
      exact hu

theorem Effect.gone (hc : Custody x) (ht : x.threads[i]? = some t)
    (he : Effect i t x.shared t' x'.shared) (hth : x'.threads = x.threads.set i t') {k : Nat}
    (hk : k < x'.shared.built.length) (hne : x'.shared.slot ≠ some k) : Gone x' k := by
  have hi := (List.getElem?_eq_some_iff.mp ht).1
  cases he with
  | quiet h =>
    rw [h.size] at hk
    rw [h.slot] at hne
    refine (hc.gone k hk hne).keep ht hth (h.takers k) (h.closers k) ?_
    intro hu
    exact ⟨h.owes.trans hu, h.results (by rw [hu]; simp)⟩
  | fill ha ht' hx =>
    -- the slot was empty, so that no service is driven out
    have hs : x.shared.slot = none := hc.point i t _ _ _ ht ha
    have hlt : k < x.shared.built.length := by
      rw [hx] at hk hne
      simp only [Shared.see_built, List.length_append, List.length_singleton] at hk
      have : x.shared.built.length ≠ k := fun h => hne (congrArg some h)
      omega
    refine (hc.gone k hlt (by rw [hs]; nofun)).keep ht hth ?_ ?_ ?_
    · rw [hx]
      exact takers_skip rfl _
    · rw [hx]
      exact closers_skip rfl _
    · rw [ha]
      nofun
  | empty ha ht' hx =>
    have hlt : k < x.shared.built.length := by
      rw [hx] at hk
      exact hk
    by_cases hs : x.shared.slot = some k
    · obtain ⟨h1, h2⟩ := hc.kept k (.inl hs)
      refine ⟨t.actor i, ?_, .inr ⟨t', ?_, ?_, ?_⟩⟩
      · rw [hx, Shared.see_events, hs, takers_empty, h1]
      · rw [hth, Thread.actor, List.getElem?_set_self hi]
      · rw [ht']
        rfl
      · rw [ht']
        exact hs
    · refine (hc.gone k hlt hs).keep ht hth ?_ ?_ ?_
      · rw [hx]
        exact takers_skip (Event.takes_empty_ne hs) _
      · rw [hx]
        exact closers_skip rfl _
      · rw [ha]
        nofun
  | @close j r ha ht' hs hb he =>
    obtain ⟨-, -, h1, h2⟩ := hc.owes i t j ht (by rw [ha]; rfl)
    by_cases hj : j = k
    · subst hj
      refine ⟨t.actor i, ?_, .inl ?_⟩
      · rw [he, takers_skip rfl, h1]
      · rw [he, closers_close, h2]
    · rw [hb] at hk
      rw [hs] at hne
      refine (hc.gone k hk hne).keep ht hth ?_ ?_ ?_
      · rw [he, takers_skip rfl]
      · rw [he, closers_skip (Event.closes_close_ne hj)]
      · rw [ha]
        intro h
        exact absurd (Option.some.inj h) hj

theorem Custody.step (hl : Locked x) (hc : Custody x) (ht : x.threads[i]? = some t)
    (hs : Step ops i t x.shared t' x'.shared) (hth : x'.threads = x.threads.set i t') :
    Custody x' := by
  have he := hs.effect (fun k hk => (hc.owes i t k ht hk).1)
  refine ⟨he.last hc, ?_, he.kept hc ht, fun j u k hu hk => he.owes hc ht hth hu hk,
    fun k hk hne => he.gone hc ht hth hk hne⟩
  intro j u path content p hu ha
  rw [hth] at hu
  rcases set_cases hu with ⟨rfl, rfl⟩ | ⟨hj, hu⟩
  · exact hs.point hc ht ha
  · refine (hc.point j u path content p hu ha).mono ?_ he.slot.2
    refine he.slot.1.imp id ?_
    intro hholds
    have hi := (hl.lock i t ht).mp hholds
    have hnot : ¬ u.activity.holds = true := by
      rw [hl.lock j u hu, hi]
      exact fun h => hj (Option.some.inj h).symm
    rw [ha] at hnot
    exact Bool.eq_false_iff.mpr hnot

end Preserved

end ConfigLoader.Threads
