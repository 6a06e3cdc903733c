import ConfigLoader.Proofs.Service.Plans
import ConfigLoader.Proofs.Threads.Calls

/-! # Stages of calls at the same time

With scripted services and an empty slot, threads first fail to build a service, then one of them
builds one, and from then on the service in the slot is asked. The events tell which faults and which
answers there were, in the order of the script.
-/
namespace ConfigLoader.Threads
open Service (Script Plan Behaviour)

/-! ## What the events tell -/

def Event.refusal? : Event → Option (Actor × Fault)
  | .refuse a f => some (a, f)
  | _ => none

def Event.asked? : Event → Option (Actor × Nat × Except Fault Value)
  | .ask a k r => some (a, k, r)
  | _ => none

/-- The calls for which no service could be built, the first one first. -/
def refusals (es : List Event) : List (Actor × Fault) := es.reverse.filterMap Event.refusal?

/-- The calls that asked a service, the first one first. -/
def asks (es : List Event) : List (Actor × Nat × Except Fault Value) :=
  es.reverse.filterMap Event.asked?

@[simp] theorem refusals_cons (e : Event) (es : List Event) :
    refusals (e :: es) = refusals es ++ e.refusal?.toList := by
  simp only [refusals, List.reverse_cons, List.filterMap_append, List.filterMap_cons,
    List.filterMap_nil]
  cases e.refusal? <;> rfl

@[simp] theorem asks_cons (e : Event) (es : List Event) : asks (e :: es) = asks es ++ e.asked?.toList := by
  simp only [asks, List.reverse_cons, List.filterMap_append, List.filterMap_cons,
    List.filterMap_nil]
  cases e.asked? <;> rfl

theorem ends_perm (es : List Event) :
    (ends es).Perm ((refusals es).map (fun p => (p.1, .error p.2)) ++
      (asks es).map fun p => (p.1, p.2.2)) := by
  induction es with
  | nil => exact .nil
  | cons e es ih =>
    rw [refusals_cons, asks_cons]
    cases e with
    | refuse a f =>
      rw [ends_cons (e := .refuse a f) rfl]
      simp only [Event.refusal?, Event.asked?, Option.toList_some, Option.toList_none,
        List.append_nil, List.map_append, List.map_cons, List.map_nil, List.append_assoc,
        List.singleton_append]
      exact (ih.cons _).trans List.perm_middle.symm
    | ask a k r =>
      rw [ends_cons (e := .ask a k r) rfl]
      simp only [Event.refusal?, Event.asked?, Option.toList_some, Option.toList_none,
        List.append_nil, List.map_append, List.map_cons, List.map_nil, ← List.append_assoc]
      exact (ih.cons _).trans (List.perm_append_singleton _ _).symm
    | attempt a | fill a k | empty a o | close a k =>
      simp only [Event.refusal?, Event.asked?, Option.toList_none, List.append_nil]
      exact ih

/-! ## How far the threads are -/

/-- A service is in the slot and was asked some times; `out` tells how its calls end. -/
structure Serving (s : Nat) (out : Nat → Except Fault Value) (x : Shared Script Nat) : Prop where
  slot : x.slot = some 0
  built : x.built = [s]
  next : ∀ i, x.state.world.outcomeAt s i = out ((asks x.events).length + i)
  asked : (asks x.events).map Prod.snd =
    (List.range (asks x.events).length).map fun i => (0, out i)

/-- The attempts that failed so far are the first `r` of a script. -/
def Refused (w : Script) (r : Nat) (es : List Event) : Prop :=
  (refusals es).map (fun p => some p.2) = (List.range r).map fun i => (w.planAt i).fault?

/-- All attempts so far failed. -/
structure Trying (w : Script) (r : Nat) (x : Crew Script Nat) : Prop where
  slot : x.shared.slot = none
  built : x.shared.built = []
  storing : ∀ (i : Nat) (t : Thread Nat) (path content : Value) (s : Nat),
    x.threads[i]? = some t → t.activity ≠ .call path content (.storing s)
  world : x.shared.state.world.built = w.built
  plans : ∀ i, x.shared.state.world.planAt i = w.planAt (r + i)
  refused : Refused w r x.shared.events
  unasked : asks x.shared.events = []

structure Storing (w : Script) (r : Nat) (b : Behaviour) (x : Crew Script Nat) : Prop where
  slot : x.shared.slot = none
  built : x.shared.built = []
  storing : ∃ (i : Nat) (t : Thread Nat) (path content : Value), x.threads[i]? = some t ∧
    t.activity = .call path content (.storing w.built.length)
  plan : w.planAt r = .serve b
  outcomes : ∀ i, x.shared.state.world.outcomeAt w.built.length i = b.outcome i
  refused : Refused w r x.shared.events
  unasked : asks x.shared.events = []

/-- The service that was built is in the slot; the thread that built it did not fail. -/
structure Served (w : Script) (r : Nat) (b : Behaviour) (x : Crew Script Nat) : Prop where
  plan : w.planAt r = .serve b
  serving : Serving w.built.length b.outcome x.shared
  refused : Refused w r x.shared.events
  builder : ∃ i < x.threads.length, ⟨i, 0⟩ ∉ (refusals x.shared.events).map Prod.fst

/-- How far threads are with a slot that was empty. -/
inductive Stage (w : Script) (x : Crew Script Nat) : Prop
  | trying (r : Nat) (h : Trying w r x)
  | storing (r : Nat) (b : Behaviour) (h : Storing w r b x)
  | served (r : Nat) (b : Behaviour) (h : Served w r b x)

/-! ## What a step does to a batch -/

/-- The steps of a thread with one call, as far as the services are concerned. -/
inductive Turn (i : Nat) (t : Thread Nat) (x : Shared Script Nat) (t' : Thread Nat)
    (x' : Shared Script Nat) : Prop
  | still (hs : x'.slot = x.slot) (hb : x'.built = x.built)
      (hw : x'.state.world = x.state.world) (hr : refusals x'.events = refusals x.events)
      (ha : asks x'.events = asks x.events)
      (hno : ∀ path content s, t.activity ≠ .call path content (.storing s))
      (hno' : ∀ path content s, t'.activity ≠ .call path content (.storing s))
  | create {path content : Value} {s : Nat} {w : Script}
      (ha : t.activity = .call path content .building)
      (ht : t' = t.goes (.call path content (.storing s)))
      (hc : Script.create x.state.world = (.ok s, w))
      (hx : x' = { x with state := { x.state with world := w } })
  | refuse {path content : Value} {f : Fault} {w : Script}
      (ha : t.activity = .call path content .building)
      (ht : t' = t.goes (.call path content (.leaving (.error f))))
      (hc : Script.create x.state.world = (.error f, w))
      (hx : x' = { x with state := { x.state with world := w } }.see (.refuse (t.actor i) f))
  | fill {path content : Value} {s : Nat} (ha : t.activity = .call path content (.storing s))
      (ht : t' = t.goes (.call path content .taking))
      (hx : x' = { x with slot := some x.built.length, built := x.built ++ [s] }.see
        (.fill (t.actor i) x.built.length))
  | ask {path content : Value} {j s : Nat} {r : Except Fault Value} {w : Script}
      (ha : t.activity = .call path content (.asking (some j))) (hs : x.built[j]? = some s)
      (ht : t' = t.goes (.call path content (.reporting r)))
      (hc : Script.compile path content s x.state.world = (r, w))
      (hx : x'.slot = x.slot ∧ x'.built = x.built ∧ x'.state.world = w ∧
        x'.events = .ask (t.actor i) j r :: x.events)

section Turns
variable {i n : Nat} {t t' : Thread Nat}

theorem Step.turn {x x' : Shared Script Nat} (h : Step Script.ops i t x t' x')
    (ho : Once x.events i t) (hp : ∀ path content p, t.activity = .call path content p → p.Fits x) :
    Turn i t x t' x' := by
  cases h with
  | create ha hc =>
    rcases hw : Script.create x.state.world with ⟨r, w⟩
    simp only [Script.ops, hw] at hc
    cases hc
    exact .create ha rfl hw rfl
  | refuse ha hc =>
    rcases hw : Script.create x.state.world with ⟨r, w⟩
    simp only [Script.ops, hw] at hc
    cases hc
    exact .refuse ha rfl hw rfl
  | fill ha => exact .fill ha rfl rfl
  | ask ha hr =>
    obtain ⟨c, rfl, -⟩ := ho.open ha rfl
    cases ha
    obtain ⟨j, s, s', w, m, rfl, hs, hc, rfl⟩ := ask_text Script.ops (hp _ _ _ rfl) hr
    cases hc
    refine .ask rfl hs rfl rfl ⟨rfl, ?_, rfl, rfl⟩
    obtain ⟨hj, rfl⟩ := List.getElem?_eq_some_iff.mp hs
    exact List.set_getElem_self hj
  | empty ha | pass ha | release ha | close ha hr => exact absurd ha ho.not_close
  | attempt ha hs =>
    refine .still rfl rfl rfl ?_ ?_ ?_ nofun
    · exact (refusals_cons _ _).trans (List.append_nil _)
    · exact (asks_cons _ _).trans (List.append_nil _)
    · rw [ha]
      nofun
  | _ =>
    refine .still rfl rfl rfl rfl rfl ?_ nofun
    simp only [*]
    nofun

variable {w : Script} {x x' : Crew Script Nat}

theorem Serving.turn {s : Nat} {out : Nat → Except Fault Value} (hx : Serving s out x.shared)
    (hn : Sane n x) (ht : x.threads[i]? = some t) (h : Turn i t x.shared t' x'.shared) :
    Serving s out x'.shared ∧ refusals x'.shared.events = refusals x.shared.events := by
  have hbuilds : t.activity.builds = true → False := by
    intro hb
    have hs := hn.slot_of_builds ht hb
    rw [hx.slot] at hs
    cases hs
  cases h with
  | still hs hb hw hr ha hno hno' =>
    refine ⟨⟨hs.trans hx.slot, hb.trans hx.built, ?_, ?_⟩, hr⟩
    · rw [hw, ha]
      exact hx.next
    · rw [ha]
      exact hx.asked
  | create ha | refuse ha | fill ha => exact (hbuilds (by rw [ha]; rfl)).elim
  | @ask path content j s' r w ha hs ht' hc hx' =>
    obtain ⟨hslot, hbuilt, hworld, hevents⟩ := hx'
    rw [hx.built] at hs
    obtain ⟨rfl, rfl⟩ : j = 0 ∧ s' = s := by
      cases j with
      | zero =>
        cases hs
        exact ⟨rfl, rfl⟩
      | succ j => cases hs
    obtain ⟨hr, hnext⟩ := Script.compile_next hc
    have hasks : asks x'.shared.events = asks x.shared.events ++ [(t.actor i, 0, r)] := by
      rw [hevents, asks_cons]
      rfl
    refine ⟨⟨hslot.trans hx.slot, hbuilt.trans hx.built, fun m => ?_, ?_⟩, ?_⟩
    · rw [hworld, hnext, hx.next, hasks, List.length_append, List.length_singleton]
      congr 1
      omega
    · rw [hasks, List.map_append, hx.asked, List.length_append, List.length_singleton,
        List.range_succ, List.map_append, hr, hx.next]
      rfl
    · rw [hevents, refusals_cons]
      exact List.append_nil _

theorem Sane.ne_of_holds (hn : Sane n x) {j : Nat} {u : Thread Nat} (ht : x.threads[i]? = some t)
    (hu : x.threads[j]? = some u) (hh : u.activity.holds = true)
    (hne : t.activity ≠ u.activity) : j ≠ i ∧ t.activity.holds = false := by
  have hji : j ≠ i := by
    rintro rfl
    rw [ht] at hu
    cases hu
    exact hne rfl
  refine ⟨hji, Bool.eq_false_iff.mpr fun hht => hji ?_⟩
  have hi := (hn.locked.lock i t ht).mp hht
  have hj := (hn.locked.lock j u hu).mp hh
  exact Option.some.inj (hj.symm.trans hi)

theorem refused_next {r : Nat} {es fs : List Event} {a : Actor} {f : Fault}
    (hr : Refused w r es) (hp : w.planAt r = .refuse f) (he : fs = .refuse a f :: es) :
    Refused w (r + 1) fs := by
  unfold Refused at hr ⊢
  rw [he, refusals_cons, List.map_append, hr, List.range_succ, List.map_append, List.map_singleton,
    hp]
  rfl

theorem Trying.turn {r : Nat} (hx : Trying w r x) (ht : x.threads[i]? = some t)
    (h : Turn i t x.shared t' x'.shared) (hth : x'.threads = x.threads.set i t') : Stage w x' := by
  have hself : x'.threads[i]? = some t' := by
    rw [hth, List.getElem?_set_self (List.getElem?_eq_some_iff.mp ht).1]
  have hothers : (∀ path content s, t'.activity ≠ .call path content (.storing s)) →
      ∀ (i : Nat) (t : Thread Nat) (path content : Value) (s : Nat),
        x'.threads[i]? = some t → t.activity ≠ .call path content (.storing s) := by
    intro hno j u path content s hu
    rw [hth] at hu
    rcases set_cases hu with ⟨rfl, rfl⟩ | ⟨hj, hu⟩
    · exact hno path content s
    · exact hx.storing j u path content s hu
  cases h with
  | still hs hb hw hr ha hno hno' =>
    refine .trying r ⟨hs.trans hx.slot, hb.trans hx.built, hothers hno', ?_, ?_, ?_,
      ha.trans hx.unasked⟩
    · rw [hw, hx.world]
    · rw [hw]
      exact hx.plans
    · unfold Refused
      rw [hr]
      exact hx.refused
  | create hact ht' hc hx' =>
    obtain ⟨b, hplan, rfl, hout⟩ := Script.create_ok hc
    rw [hx.plans 0] at hplan
    rw [hx.world] at hout ht'
    have hevents : x'.shared.events = x.shared.events := by rw [hx']
    refine .storing r b ⟨?_, ?_, ⟨i, t', _, _, hself, by rw [ht']; rfl⟩, hplan, ?_, ?_, ?_⟩
    · rw [hx']
      exact hx.slot
    · rw [hx']
      exact hx.built
    · rw [hx']
      exact hout
    · rw [hevents]
      exact hx.refused
    · rw [hevents]
      exact hx.unasked
  | @refuse path content f v hact ht' hc hx' =>
    obtain ⟨hplan, hnext, hbuilt⟩ := Script.create_error hc
    rw [hx.plans 0] at hplan
    have hworld : x'.shared.state.world = v := by rw [hx']; rfl
    have hevents : x'.shared.events = .refuse (t.actor i) f :: x.shared.events := by rw [hx']; rfl
    refine .trying (r + 1) ⟨?_, ?_, hothers (by rw [ht']; nofun), ?_, ?_,
      refused_next hx.refused hplan hevents, ?_⟩
    · rw [hx']
      exact hx.slot
    · rw [hx']
      exact hx.built
    · rw [hworld, hbuilt, hx.world]
    · intro m
      rw [hworld, hnext, hx.plans, Nat.add_assoc, Nat.add_comm 1 m]
    · rw [hevents, asks_cons, hx.unasked]
      rfl
  | fill hact => exact absurd hact (hx.storing i t _ _ _ ht)
  | ask hact hs' =>
    rw [hx.built] at hs'
    cases hs'

theorem Storing.turn {r : Nat} {b : Behaviour} (hx : Storing w r b x) (hn : Sane n x)
    (hc : Calling x) (ht : x.threads[i]? = some t) (h : Turn i t x.shared t' x'.shared)
    (hth : x'.threads = x.threads.set i t') : Stage w x' := by
  obtain ⟨j, u, path, content, hu, hact⟩ := hx.storing
  have hholds : u.activity.holds = true := by rw [hact]; rfl
  cases h with
  | still hs hb hw hr ha hno hno' =>
    have hj := (hn.ne_of_holds ht hu hholds (by rw [hact]; exact hno _ _ _)).1
    refine .storing r b ⟨hs.trans hx.slot, hb.trans hx.built, ⟨j, u, path, content, ?_, hact⟩,
      hx.plan, ?_, ?_, ha.trans hx.unasked⟩
    · rw [hth, List.getElem?_set_ne (Ne.symm hj)]
      exact hu
    · rw [hw]
      exact hx.outcomes
    · unfold Refused
      rw [hr]
      exact hx.refused
  | create hat | refuse hat =>
    have hno := (hn.ne_of_holds ht hu hholds (by rw [hact, hat]; nofun)).2
    rw [hat] at hno
    cases hno
  | @fill path' content' s hat ht' hx' =>
    -- the thread that fills the slot is the one that built the service
    have hi := (hn.locked.lock i t ht).mp (by rw [hat]; rfl)
    have hj := (hn.locked.lock j u hu).mp hholds
    obtain rfl : i = j := Option.some.inj (hi.symm.trans hj)
    rw [ht] at hu
    cases hu
    rw [hat] at hact
    cases hact
    have hevents : x'.shared.events = .fill (t.actor i) x.shared.built.length :: x.shared.events := by
      rw [hx']
      rfl
    have hasks : asks x'.shared.events = [] := by
      rw [hevents, asks_cons, hx.unasked]
      rfl
    have hrefusals : refusals x'.shared.events = refusals x.shared.events := by
      rw [hevents, refusals_cons]
      exact List.append_nil _
    refine .served r b ⟨hx.plan, ⟨?_, ?_, ?_, ?_⟩, ?_, i, ?_, ?_⟩
    · rw [hx', hx.built]
      rfl
    · rw [hx', hx.built]
      rfl
    · intro m
      rw [hasks, List.length_nil, Nat.zero_add, hx']
      exact hx.outcomes m
    · rw [hasks]
      rfl
    · unfold Refused
      rw [hrefusals]
      exact hx.refused
    · rw [hth, List.length_set]
      exact (List.getElem?_eq_some_iff.mp ht).1
    · obtain ⟨c, -, hno⟩ := (hc.once i t ht).open hat rfl
      rw [hrefusals]
      intro hm
      obtain ⟨⟨a, f⟩, hf, rfl⟩ := List.mem_map.mp hm
      refine hno (List.mem_map.mpr ⟨(_, .error f), (ends_perm _).mem_iff.mpr ?_, rfl⟩)
      exact List.mem_append_left _ (List.mem_map.mpr ⟨_, hf, rfl⟩)
  | ask hat hs' =>
    rw [hx.built] at hs'
    cases hs'

theorem Served.turn {r : Nat} {b : Behaviour} (hx : Served w r b x) (hn : Sane n x)
    (ht : x.threads[i]? = some t) (h : Turn i t x.shared t' x'.shared)
    (hth : x'.threads = x.threads.set i t') : Served w r b x' := by
  obtain ⟨hserving, hr⟩ := hx.serving.turn hn ht h
  obtain ⟨j, hj, hf⟩ := hx.builder
  refine ⟨hx.plan, hserving, ?_, j, ?_, hr ▸ hf⟩
  · unfold Refused
    rw [hr]
    exact hx.refused
  · rw [hth, List.length_set]
    exact hj

theorem Stage.turn (hx : Stage w x) (hn : Sane n x) (hc : Calling x)
    (ht : x.threads[i]? = some t) (h : Turn i t x.shared t' x'.shared)
    (hth : x'.threads = x.threads.set i t') : Stage w x' := by
  cases hx with
  | trying r hx => exact hx.turn ht h hth
  | storing r b hx => exact hx.turn hn hc ht h hth
  | served r b hx => exact .served r b (hx.turn hn ht h hth)

end Turns

end ConfigLoader.Threads
