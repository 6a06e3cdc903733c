import ConfigLoader.Proofs.Threads.Custody

/-! # The slot under threads

Whatever threads do with a loader and in whatever order their steps are taken: services are built one
at a time and for an empty slot only, and each is in the slot until one close takes it out, which alone
closes it.
-/
namespace ConfigLoader.Threads
variable {W S : Type}

/-! ## Attempts -/

def Event.isAttempt : Event → Bool
  | .attempt _ => true
  | _ => false

def Event.isRefusal : Event → Bool
  | .refuse _ _ => true
  | _ => false

def Event.isFilling : Event → Bool
  | .fill _ _ => true
  | _ => false

def Event.isEmptying : Event → Bool
  | .empty _ (some _) => true
  | _ => false

/-- Every attempt to build a service has failed, or has filled the slot, or is in progress. The
services are the `n` of the start and those that filled the slot. -/
structure Counted (n : Nat) (x : Crew W S) : Prop where
  attempts : x.shared.events.countP Event.isAttempt =
    x.shared.events.countP Event.isRefusal + x.shared.events.countP Event.isFilling +
      x.threads.countP fun t => t.activity.builds
  services : x.shared.built.length = n + x.shared.events.countP Event.isFilling

theorem countP_set {ts : List (Thread S)} {i : Nat} {t u : Thread S} (ht : ts[i]? = some t)
    (p : Thread S → Bool) :
    (ts.set i u).countP p + (p t).toNat = ts.countP p + (p u).toNat := by
  induction ts generalizing i with
  | nil => cases ht
  | cons v ts ih =>
    cases i with
    | zero =>
      cases ht
      simp only [List.set_cons_zero, List.countP_cons]
      cases p t <;> cases p u <;> simp
    | succ i =>
      have := ih (i := i) ht
      simp only [List.set_cons_succ, List.countP_cons]
      omega

section Steps
variable {ops : ServiceOps W S} {i : Nat} {t t' : Thread S} {x x' : Crew W S}

theorem Step.counted {x x' : Shared W S} (h : Step ops i t x t' x')
    (hk : ∀ k, t.activity.owes = some k → k < x.built.length) :
    x'.events.countP Event.isAttempt + x.events.countP Event.isRefusal +
        x.events.countP Event.isFilling + t.activity.builds.toNat =
      x.events.countP Event.isAttempt + x'.events.countP Event.isRefusal +
        x'.events.countP Event.isFilling + t'.activity.builds.toNat := by
  cases h with
  | ask ha hr =>
    rw [ha]
    rcases (ask_effect hr).2.2.2 with he | ⟨j, he⟩
    · rw [he]
      rfl
    · rw [he]
      rfl
  | close ha hr =>
    obtain ⟨-, -, -, he⟩ := shut_effect (hk _ (by rw [ha]; rfl)) hr
    rw [he, ha]
    rfl
  | attempt ha hs | refuse ha hc | fill ha =>
    rw [ha]
    simp only [Shared.see_events, Shared.note_events, List.countP_cons, Event.isAttempt,
      Event.isRefusal, Event.isFilling, Thread.goes, Activity.builds, Bool.toNat_true,
      Bool.toNat_false, Bool.false_eq_true, if_true, if_false]
    omega
  | empty ha =>
    rw [ha]
    rfl
  | _ =>
    simp only [*]
    rfl

theorem Counted.step {n : Nat} (hx : Counted n x) (hc : Custody x) (ht : x.threads[i]? = some t)
    (hs : Step ops i t x.shared t' x'.shared) (hth : x'.threads = x.threads.set i t') :
    Counted n x' := by
  have howes : ∀ k, t.activity.owes = some k → k < x.shared.built.length :=
    fun k hk => (hc.owes i t k ht hk).1
  constructor
  · have hcount := hs.counted howes
    have hset := countP_set (u := t') ht fun t => t.activity.builds
    have hold := hx.attempts
    rw [hth]
    omega
  · have hold := hx.services
    cases hs.effect howes with
    | quiet h =>
      rw [h.size, hold]
      rcases h.events with he | ⟨e, hq, he⟩
      · rw [he]
      · have hf : e.isFilling = false := by
          cases e with
          | fill a k => cases hq
          | _ => rfl
        rw [he, List.countP_cons, hf]
        rfl
    | fill ha ht' hx' =>
      rw [hx']
      simp only [Shared.see_built, Shared.see_events, List.length_append, List.length_singleton,
        List.countP_cons, Event.isFilling, if_true]
      omega
    | empty ha ht' hx' =>
      rw [hx']
      exact hold
    | close ha ht' hs hb he =>
      rw [hb, he]
      exact hold

end Steps

/-! ## Fillings -/

def sinceEmptied : List Event → Nat
  | [] => 0
  | .fill _ _ :: es => sinceEmptied es + 1
  | .empty _ (some _) :: _ => 0
  | _ :: es => sinceEmptied es

theorem sinceEmptied_quiet {e : Event} (he : e.isQuiet = true) (es : List Event) :
    sinceEmptied (e :: es) = sinceEmptied es := by
  cases e with
  | attempt a | refuse a f | ask a k r => rfl
  | fill a k | empty a o | close a k => cases he

theorem sinceEmptied_append {es : List Event} (fs : List Event)
    (hes : ∀ e ∈ es, e.isEmptying = false) :
    sinceEmptied (es ++ fs) = es.countP Event.isFilling + sinceEmptied fs := by
  induction es with
  | nil => simp
  | cons e es ih =>
    have ih := ih fun e he => hes e (List.mem_cons_of_mem _ he)
    have he := hes e List.mem_cons_self
    cases e with
    | fill a k =>
      simp only [List.cons_append, sinceEmptied, ih, List.countP_cons, Event.isFilling, if_true]
      omega
    | empty a o =>
      cases o with
      | some k => cases he
      | none => exact ih
    | attempt a | refuse a f | ask a k r | close a k => exact ih

/-- At all times the slot had been filled at most once since it was last emptied, and it is empty if
it was not filled since. -/
structure Alternating (x : Shared W S) : Prop where
  once : ∀ es, es <:+ x.events → sinceEmptied es ≤ 1
  empty : x.slot = none → sinceEmptied x.events = 0

section Steps
variable {ops : ServiceOps W S} {i : Nat} {t t' : Thread S} {x x' : Crew W S}

theorem Alternating.cons {y y' : Shared W S} {e : Event} (hy : Alternating y)
    (he : y'.events = e :: y.events) (hone : sinceEmptied (e :: y.events) ≤ 1)
    (hempty : y'.slot = none → sinceEmptied (e :: y.events) = 0) : Alternating y' := by
  refine ⟨fun es hes => ?_, fun hs => he ▸ hempty hs⟩
  rw [he] at hes
  rcases List.suffix_cons_iff.mp hes with rfl | hes
  · exact hone
  · exact hy.once es hes

theorem Alternating.step (hx : Alternating x.shared) (hc : Custody x)
    (ht : x.threads[i]? = some t) (hs : Step ops i t x.shared t' x'.shared) :
    Alternating x'.shared := by
  have hone := hx.once _ List.suffix_rfl
  cases hs.effect (fun k hk => (hc.owes i t k ht hk).1) with
  | quiet h =>
    rcases h.events with he | ⟨e, hq, he⟩
    · refine ⟨fun es hes => hx.once es (he ▸ hes), fun hs => ?_⟩
      rw [he]
      exact hx.empty (h.slot ▸ hs)
    · refine hx.cons he ?_ ?_
      · rwa [sinceEmptied_quiet hq]
      · intro hs
        rw [sinceEmptied_quiet hq]
        exact hx.empty (h.slot ▸ hs)
  | fill ha ht' hx' =>
    have h0 := hx.empty (hc.point i t _ _ _ ht ha)
    rw [hx']
    exact hx.cons rfl (Nat.succ_le_succ (Nat.le_of_eq h0)) nofun
  | empty ha ht' hx' =>
    have h0 : sinceEmptied (.empty (t.actor i) x.shared.slot :: x.shared.events) = 0 := by
      cases hs : x.shared.slot with
      | none => exact hx.empty hs
      | some k => rfl
    rw [hx']
    exact hx.cons rfl (h0 ▸ Nat.zero_le 1) fun _ => h0
  | close ha ht' hs hb he => exact hx.cons he hone fun h => hx.empty (hs ▸ h)

end Steps

/-! ## Every reachable state -/

/-- What holds of threads and of what they share after every step. -/
structure Sane (n : Nat) (x : Crew W S) : Prop where
  locked : Locked x
  custody : Custody x
  counted : Counted n x
  alternating : Alternating x.shared

theorem start_idle {l : Loader W S} {tasks : List (List Task)} {i : Nat} {t : Thread S}
    (ht : (Crew.start l tasks).threads[i]? = some t) : t.activity = .idle := by
  obtain ⟨ts, -, rfl⟩ := Option.map_eq_some_iff.mp ((List.getElem?_map ..).symm.trans ht)
  rfl

theorem Custody.start (l : Loader W S) (tasks : List (List Task)) :
    Custody (Crew.start l tasks) where
  last k hk := by
    obtain ⟨s, hs, rfl⟩ := Option.map_eq_some_iff.mp hk
    simp only [Crew.start, hs, Option.toList_some, List.length_singleton]
  point i t path content p ht ha := by
    rw [start_idle ht] at ha
    cases ha
  kept _ _ := ⟨rfl, rfl⟩
  owes i t k ht hk := by
    rw [start_idle ht] at hk
    cases hk
  gone k hk hne := by
    cases hs : l.slot with
    | none =>
      simp only [Crew.start, hs, Option.toList_none, List.length_nil] at hk
      exact absurd hk (Nat.not_lt_zero k)
    | some s =>
      simp only [Crew.start, hs, Option.toList_some, List.length_singleton, Nat.lt_one_iff] at hk
      simp only [Crew.start, hs, hk, Option.map_some] at hne
      exact absurd rfl hne

theorem Sane.start (l : Loader W S) (tasks : List (List Task)) :
    Sane l.slot.toList.length (Crew.start l tasks) where
  locked := by
    refine ⟨fun i t ht => ?_, nofun⟩
    rw [start_idle ht]
    exact iff_of_false Bool.false_ne_true nofun
  custody := .start l tasks
  counted := by
    refine ⟨?_, rfl⟩
    have hnone : (Crew.start l tasks).threads.countP (fun t => t.activity.builds) = 0 := by
      refine List.countP_eq_zero.mpr fun t ht => ?_
      obtain ⟨i, hi, rfl⟩ := List.mem_iff_getElem.mp ht
      rw [start_idle (List.getElem?_eq_getElem hi)]
      exact Bool.false_ne_true
    rw [hnone]
    rfl
  alternating := by
    refine ⟨fun es hes => ?_, fun _ => rfl⟩
    rw [List.suffix_nil.mp hes]
    exact Nat.zero_le 1

section Reached
variable {ops : ServiceOps W S} {i n : Nat} {x x' : Crew W S}

theorem Sane.step (h : x.step? ops i = some x') (hx : Sane n x) : Sane n x' := by
  obtain ⟨t, t', ht, hs, hth⟩ := Crew.step?_cases h
  exact ⟨hx.locked.step hx.custody ht hs hth, hx.custody.step hx.locked ht hs hth,
    hx.counted.step hx.custody ht hs hth, hx.alternating.step hx.custody ht hs⟩

variable (ops) in
theorem Sane.run (schedule : List Nat) (hx : Sane n x) : Sane n (x.run ops schedule) :=
  Crew.run_preserves (fun _ _ _ => Sane.step) schedule hx

theorem Activity.builds_holds {a : Activity S} (h : a.builds = true) : a.holds = true := by
  cases a with
  | call path content p =>
    cases p with
    | building | storing s => rfl
    | _ => cases h
  | _ => cases h

theorem Sane.slot_of_builds {t : Thread S} (hx : Sane n x) (ht : x.threads[i]? = some t)
    (hb : t.activity.builds = true) : x.shared.slot = none := by
  cases ha : t.activity with
  | call path content p =>
    rw [ha] at hb
    cases p with
    | building | storing s => exact hx.custody.point i t _ _ _ ht ha
    | _ => cases hb
  | _ =>
    rw [ha] at hb
    cases hb

theorem Sane.step_slot (hx : Sane n x) (h : x.step? ops i = some x') {k : Nat}
    (hk : x.shared.slot = some k) : x'.shared.slot = some k ∨
      x'.shared.slot = none ∧ ∃ a, x'.shared.events = .empty a (some k) :: x.shared.events := by
  obtain ⟨t, t', ht, hs, -⟩ := Crew.step?_cases h
  cases hs.effect (fun k hk => (hx.custody.owes i t k ht hk).1) with
  | quiet h => exact .inl (h.slot.trans hk)
  | fill ha ht' hx' =>
    have hnone : x.shared.slot = none := hx.custody.point i t _ _ _ ht ha
    rw [hnone] at hk
    cases hk
  | empty ha ht' hx' =>
    rw [hx', hk]
    exact .inr ⟨rfl, _, rfl⟩
  | close ha ht' hs hb he => exact .inl (hs.trans hk)

theorem isDone_idle {t : Thread S} (h : t.isDone = true) : t.activity = .idle := by
  cases ha : t.activity with
  | idle => rfl
  | call path content p | close p =>
    rw [Thread.isDone, ha] at h
    cases h

theorem Sane.closed_of_done (hx : Sane n x) (hd : x.isDone = true) {k : Nat}
    (hk : k < x.shared.built.length) (hne : x.shared.slot ≠ some k) :
    ∃ a, takers k x.shared.events = [a] ∧ closers k x.shared.events = [a] := by
  obtain ⟨a, h1, h2⟩ := hx.custody.gone k hk hne
  rcases h2 with h2 | ⟨t, ht, -, ho⟩
  · exact ⟨a, h1, h2⟩
  · rw [isDone_idle (List.all_eq_true.mp hd t (List.mem_of_getElem? ht))] at ho
    cases ho

/-- A failure to build a service leaves the slot empty, and the next step of its thread frees the
lock. -/
theorem Sane.failure (ops : ServiceOps W S) (hx : Sane n x) {t : Thread S} {path content : Value} {f : Fault}
    (ht : x.threads[i]? = some t) (ha : t.activity = .call path content (.leaving (.error f))) :
    x.shared.slot = none ∧ x.shared.holder = some i ∧
      ∃ x', x.step? ops i = some x' ∧ x'.shared.slot = none ∧ x'.shared.holder = none := by
  have hs : x.shared.slot = none := hx.custody.point i t _ _ _ ht ha
  refine ⟨hs, (hx.locked.lock i t ht).mp (by rw [ha]; rfl), ?_⟩
  refine ⟨⟨x.shared.unlock, x.threads.set i (t.goes (.call path content (.reporting (.error f))))⟩,
    ?_, hs, rfl⟩
  simp only [Crew.step?, ht, Option.bind_some, Thread.step, ha, Thread.callStep, Option.map_some]

end Reached

end ConfigLoader.Threads
