import ConfigLoader.Proofs.Threads.Stages

/-! # Calls at the same time

Threads make one call each of one loader, with scripted services. Which thread builds the service,
which ones fail to and which ones find it in the slot depends on the order of the steps; how many of
them there are, and how the calls end taken together, does not.
-/
namespace ConfigLoader.Threads
open Service (Script Plan Behaviour)

/-! ## Complete runs -/

section Complete
variable {l : Loader Script Nat} {calls : List (Value × Text)} {n : Nat} {x : Crew Script Nat}

/-- How calls end taken together: some fail with faults of building a service, each of them one, and
the others ask one service, each of them once; every thread gets the answer of its own end. -/
structure Settled (n : Nat) (faults : List Fault) (out : Nat → Except Fault Value)
    (x : Crew Script Nat) : Prop where
  refused : (refusals x.shared.events).map Prod.snd = faults
  asked : (asks x.shared.events).map Prod.snd =
    (List.range (n - faults.length)).map fun i => (0, out i)
  callers : ((refusals x.shared.events).map (fun p => p.1.thread) ++
    (asks x.shared.events).map fun p => p.1.thread).Perm (List.range n)
  refused_result : ∀ p ∈ refusals x.shared.events,
    x.resultsOf p.1.thread = [.error p.2.reported]
  asked_result : ∀ p ∈ asks x.shared.events, x.resultsOf p.1.thread = [Loader.answer p.2.2]
  results : x.results.Perm (faults.map (fun f => .error f.reported) ++
    (List.range (n - faults.length)).map fun i => Loader.answer (out i))

theorem Calling.count (hx : Calling x) (hd : x.isDone = true) :
    (refusals x.shared.events).length + (asks x.shared.events).length = x.threads.length := by
  have hlen := (hx.actors_perm hd).length_eq
  rw [List.length_map, List.length_map, List.length_range, (ends_perm _).length_eq,
    List.length_append, List.length_map, List.length_map] at hlen
  exact hlen

theorem Calling.settled (hx : Calling x) (hd : x.isDone = true) {faults : List Fault}
    {out : Nat → Except Fault Value} (hf : (refusals x.shared.events).map Prod.snd = faults)
    (ha : (asks x.shared.events).map Prod.snd =
      (List.range (asks x.shared.events).length).map fun i => (0, out i)) :
    Settled x.threads.length faults out x := by
  have hcount := hx.count hd
  have hlen : faults.length = (refusals x.shared.events).length := by rw [← hf, List.length_map]
  have hasks : (asks x.shared.events).length = x.threads.length - faults.length := by omega
  have hperm := ends_perm x.shared.events
  rw [hasks] at ha
  refine ⟨hf, ha, ?_, ?_, ?_, ?_⟩
  · have h := ((hperm.map Prod.fst).map Actor.thread).symm.trans (hx.actors_perm hd)
    simp only [List.map_append, List.map_map] at h
    exact h
  · intro p hp
    have hmem : (p.1, .error p.2) ∈ ends x.shared.events :=
      hperm.mem_iff.mpr (List.mem_append_left _ (List.mem_map.mpr ⟨p, hp, rfl⟩))
    exact hx.result hd hmem
  · intro p hp
    have hmem : (p.1, p.2.2) ∈ ends x.shared.events :=
      hperm.mem_iff.mpr (List.mem_append_right _ (List.mem_map.mpr ⟨p, hp, rfl⟩))
    exact hx.result hd hmem
  · have hfaults : (refusals x.shared.events).map (fun p => Loader.answer (.error p.2)) =
        faults.map fun f => .error f.reported := by
      rw [← hf, List.map_map]
      rfl
    have hout := congrArg (List.map fun q : Nat × Except Fault Value => Loader.answer q.2) ha
    rw [List.map_map, List.map_map] at hout
    refine (hx.results_perm hd).trans ((hperm.map _).trans (List.Perm.of_eq ?_))
    rw [List.map_append, List.map_map, List.map_map]
    exact congrArg₂ (· ++ ·) hfaults hout

theorem refusals_length (es : List Event) :
    es.countP Event.isRefusal = (refusals es).length := by
  induction es with
  | nil => rfl
  | cons e es ih =>
    rw [refusals_cons, List.length_append, List.countP_cons, ih]
    cases e <;> rfl

theorem builds_of_done {n : Nat} (hn : Sane n x) (hd : x.isDone = true) :
    x.shared.events.countP Event.isAttempt + n =
      (refusals x.shared.events).length + x.shared.built.length := by
  have hnone : x.threads.countP (fun t => t.activity.builds) = 0 := by
    refine List.countP_eq_zero.mpr fun t ht => ?_
    rw [isDone_idle (List.all_eq_true.mp hd t ht)]
    exact Bool.false_ne_true
  have h1 := hn.counted.attempts
  have h2 := hn.counted.services
  rw [hnone, refusals_length] at h1
  omega

theorem Refused.length {w : Script} {r : Nat} {es : List Event} (h : Refused w r es) :
    (refusals es).length = r := by
  have := congrArg List.length h
  rwa [List.length_map, List.length_map, List.length_range] at this

theorem Refused.faults {w : Script} {r : Nat} {es : List Event} (h : Refused w r es) :
    (refusals es).map Prod.snd = w.faults r := by
  have := congrArg (List.filterMap id) h
  rw [List.filterMap_map, List.filterMap_map] at this
  refine Eq.trans ?_ this
  rw [← List.filterMap_eq_map]
  rfl

theorem Refused.plan {w : Script} {r : Nat} {es : List Event} (h : Refused w r es) {i : Nat}
    (hi : i < r) : ∃ f, w.planAt i = .refuse f := by
  have := congrArg (fun l => l[i]?) h
  simp only [List.getElem?_map, List.getElem?_range hi, Option.map_some] at this
  obtain ⟨p, -, hp⟩ := Option.map_eq_some_iff.mp this
  cases hplan : w.planAt i with
  | refuse f => exact ⟨f, rfl⟩
  | serve b =>
    rw [hplan] at hp
    cases hp

def Crew.attempts (x : Crew Script Nat) : Nat := x.shared.events.countP Event.isAttempt

structure EndsFilled (w : Script) (s n : Nat) (x : Crew Script Nat) : Prop where
  attempts : x.attempts = 0
  slot : x.shared.loader.slot = some s
  settled : Settled n [] (w.outcomeAt s) x

/-- The end of calls that found the slot empty; `r` of them failed to build a service. -/
structure EndsEmpty (w : Script) (k : ℕ∞) (n r : Nat) (x : Crew Script Nat) : Prop where
  attempts : (x.attempts : ℕ∞) = min k n
  failures : (r : ℕ∞) = min (k - 1) n
  faults : (w.faults r).length = r
  slot : x.shared.loader.slot = if k ≤ n then some w.built.length else none
  settled : Settled n (w.faults r) (w.planAt r).outcome x

theorem Serving.loader {s : Nat} {out : Nat → Except Fault Value} {x : Shared Script Nat}
    (h : Serving s out x) : x.loader.slot = some s := by
  simp only [Shared.loader, h.slot, h.built, Option.bind_some, List.getElem?_cons_zero]

theorem Serving.ends {w : Script} {s : Nat} (hx : Serving s (w.outcomeAt s) x.shared)
    (hn : Sane 1 x) (hc : Calling x) (hd : x.isDone = true)
    (hr : refusals x.shared.events = []) : EndsFilled w s x.threads.length x := by
  refine ⟨?_, hx.loader, hc.settled hd (by rw [hr]; rfl) hx.asked⟩
  have h := builds_of_done hn hd
  rw [hr, hx.built] at h
  exact Nat.succ.inj h

theorem Trying.ends {w : Script} {r : Nat} {k : ℕ∞} (hx : Trying w r x) (hk : w.FirstServed k)
    (hn : Sane 0 x) (hc : Calling x) (hd : x.isDone = true) :
    EndsEmpty w k x.threads.length r x := by
  have hcount := hc.count hd
  rw [hx.refused.length, hx.unasked] at hcount
  obtain rfl : r = x.threads.length := hcount
  have hattempts := builds_of_done hn hd
  rw [hx.refused.length, hx.built] at hattempts
  have hlt := hk.lt fun i hi => hx.refused.plan hi
  refine ⟨?_, ?_, ?_, ?_, ?_⟩
  · rw [min_eq_right hlt.le]
    exact congrArg _ hattempts
  · rw [min_eq_right]
    exact ENat.le_sub_of_add_le_right ENat.one_ne_top (Order.add_one_le_of_lt hlt)
  · rw [← hx.refused.faults, List.length_map, hx.refused.length]
  · rw [if_neg (not_le.mpr hlt)]
    simp only [Shared.loader, hx.slot, Option.bind_none]
  · refine hc.settled hd hx.refused.faults ?_
    rw [hx.unasked]
    rfl

theorem Served.ends {w : Script} {r : Nat} {b : Behaviour} {k : ℕ∞} (hx : Served w r b x)
    (hk : w.FirstServed k) (hn : Sane 0 x) (hc : Calling x) (hd : x.isDone = true) :
    EndsEmpty w k x.threads.length r x := by
  have hlen := hx.refused.length
  obtain rfl := hk.eq (fun i hi => hx.refused.plan hi) hx.plan
  have hattempts := builds_of_done hn hd
  rw [hlen, hx.serving.built] at hattempts
  -- the thread that built the service asked it
  have hlt : r < x.threads.length := by
    obtain ⟨i, hi, hf⟩ := hx.builder
    obtain ⟨e, he, -⟩ := hc.done hd hi
    rcases List.mem_append.mp ((ends_perm _).mem_iff.mp he) with he | he
    · obtain ⟨p, hp, hpe⟩ := List.mem_map.mp he
      exact (hf (List.mem_map.mpr ⟨p, hp, congrArg Prod.fst hpe⟩)).elim
    · obtain ⟨p, hp, -⟩ := List.mem_map.mp he
      have hpos := List.length_pos_of_mem hp
      have hcount := hc.count hd
      omega
  refine ⟨?_, ?_, ?_, ?_, ?_⟩
  · rw [min_eq_left (by exact_mod_cast hlt)]
    exact congrArg _ hattempts
  · have hsub : ((r + 1 : ℕ) : ℕ∞) - 1 = (r : ℕ∞) := by norm_cast
    rw [hsub, min_eq_left (by exact_mod_cast hlt.le)]
  · rw [← hx.refused.faults, List.length_map, hlen]
  · rw [if_pos (by exact_mod_cast hlt)]
    exact hx.serving.loader
  · have hasked := hx.serving.asked
    rw [hx.plan]
    exact hc.settled hd hx.refused.faults hasked

end Complete

/-! ## Every order of the steps -/

section Orders
variable {l : Loader Script Nat} {calls : List (Value × Text)} {schedule : List Nat}

theorem run_turns {n : Nat} {x : Crew Script Nat} {P : Crew Script Nat → Prop}
    (hP : ∀ (i : Nat) (t t' : Thread Nat) (x x' : Crew Script Nat), P x → Sane n x → Calling x →
      x.threads[i]? = some t → Turn i t x.shared t' x'.shared →
      x'.threads = x.threads.set i t' → P x')
    (hx : P x) (hn : Sane n x) (hc : Calling x) : P (x.run Script.ops schedule) := by
  refine (Crew.run_preserves (P := fun x => P x ∧ Sane n x ∧ Calling x) ?_ schedule
    ⟨hx, hn, hc⟩).1
  rintro i x x' h ⟨hx, hn, hc⟩
  obtain ⟨t, t', ht, hs, hth⟩ := Crew.step?_cases h
  have hturn := hs.turn (hc.once i t ht) (hn.custody.point i t · · · ht)
  exact ⟨hP i t t' x x' hx hn hc ht hturn hth, hn.step h, hc.step hn.custody h⟩

variable (calls schedule) in
theorem run_serving {s : Nat} (hs : l.slot = some s) :
    Serving s (l.state.world.outcomeAt s) ((Crew.calling l calls).run Script.ops schedule).shared ∧
      refusals ((Crew.calling l calls).run Script.ops schedule).shared.events = [] := by
  refine run_turns (P := fun x => Serving s (l.state.world.outcomeAt s) x.shared ∧
    refusals x.shared.events = []) ?_ ⟨⟨?_, ?_, fun i => ?_, rfl⟩, rfl⟩ (.start l _)
    (.start l calls)
  · rintro i t t' x x' ⟨hx, hr⟩ hn - ht h -
    obtain ⟨hx', hr'⟩ := hx.turn hn ht h
    exact ⟨hx', hr'.trans hr⟩
  · simp only [Crew.calling, Crew.start, hs, Option.map_some]
  · simp only [Crew.calling, Crew.start, hs, Option.toList_some]
  · exact congrArg _ (Nat.zero_add i).symm

variable (calls schedule) in
theorem run_stage (hs : l.slot = none) :
    Stage l.state.world ((Crew.calling l calls).run Script.ops schedule) := by
  refine run_turns (fun i t t' x x' hx hn hc ht h hth => hx.turn hn hc ht h hth)
    (.trying 0 ⟨?_, ?_, ?_, rfl, fun i => ?_, rfl, rfl⟩) (.start l _) (.start l calls)
  · simp only [Crew.calling, Crew.start, hs, Option.map_none]
  · simp only [Crew.calling, Crew.start, hs, Option.toList_none]
  · intro i t path content s ht ha
    rw [start_idle ht] at ha
    cases ha
  · rw [Nat.zero_add]
    rfl

variable (l calls schedule) in
theorem calls_filled {s : Nat} (hs : l.slot = some s)
    (hd : ((Crew.calling l calls).run Script.ops schedule).isDone = true) :
    EndsFilled l.state.world s calls.length ((Crew.calling l calls).run Script.ops schedule) := by
  obtain ⟨hx, hr⟩ := run_serving calls schedule hs
  have hn := (Sane.start l (calls.map fun c => [.call c.1 (.text c.2)])).run Script.ops schedule
  have hc := (Calling.start l calls).run Script.ops schedule (.start l _)
  rw [hs] at hn
  have h := hx.ends hn hc hd hr
  rwa [Crew.run_length, Crew.calling_length] at h

variable (l calls schedule) in
theorem calls_empty {k : ℕ∞} (hk : l.state.world.FirstServed k) (hs : l.slot = none)
    (hd : ((Crew.calling l calls).run Script.ops schedule).isDone = true) :
    ∃ r, EndsEmpty l.state.world k calls.length r
      ((Crew.calling l calls).run Script.ops schedule) := by
  have hn := (Sane.start l (calls.map fun c => [.call c.1 (.text c.2)])).run Script.ops schedule
  have hc := (Calling.start l calls).run Script.ops schedule (.start l _)
  rw [hs] at hn
  rw [← Crew.calling_length l calls, ← Crew.run_length schedule]
  cases run_stage calls schedule hs with
  | trying r hx => exact ⟨r, hx.ends hk hn hc hd⟩
  | storing r b hx =>
    obtain ⟨i, t, path, content, ht, ha⟩ := hx.storing
    rw [isDone_idle (List.all_eq_true.mp hd t (List.mem_of_getElem? ht))] at ha
    cases ha
  | served r b hx => exact ⟨r, hx.ends hk hn hc hd⟩

variable (l calls) in
/-- Calls at the same time, in every order of their steps: how many attempts to build a service there
are, which faults reach the callers and what the others are answered is the same in all of them, and
every order comes to an end. -/
theorem calls_settled {k : ℕ∞} (hk : l.state.world.FirstServed k) :
    (∀ schedule, ((Crew.calling l calls).run Script.ops schedule).isDone = true →
      (∀ s, l.slot = some s → EndsFilled l.state.world s calls.length
        ((Crew.calling l calls).run Script.ops schedule)) ∧
      (l.slot = none → ∃ r, EndsEmpty l.state.world k calls.length r
        ((Crew.calling l calls).run Script.ops schedule))) ∧
    (∀ first second, ((Crew.calling l calls).run Script.ops first).isDone = true →
      ((Crew.calling l calls).run Script.ops second).isDone = true →
      ((Crew.calling l calls).run Script.ops first).results.Perm
        ((Crew.calling l calls).run Script.ops second).results ∧
      ((Crew.calling l calls).run Script.ops first).shared.loader.slot =
        ((Crew.calling l calls).run Script.ops second).shared.loader.slot) ∧
    ∀ schedule, ∃ more,
      ((Crew.calling l calls).run Script.ops (schedule ++ more)).isDone = true := by
  refine ⟨fun schedule hd => ⟨fun s hs => calls_filled l calls schedule hs hd,
    fun hs => calls_empty l calls schedule hk hs hd⟩, fun first second h1 h2 => ?_,
    fun schedule => ?_⟩
  · cases hs : l.slot with
    | some s =>
      have e1 := calls_filled l calls first hs h1
      have e2 := calls_filled l calls second hs h2
      exact ⟨e1.settled.results.trans e2.settled.results.symm, e1.slot.trans e2.slot.symm⟩
    | none =>
      obtain ⟨r, e1⟩ := calls_empty l calls first hk hs h1
      obtain ⟨r', e2⟩ := calls_empty l calls second hk hs h2
      obtain rfl : r = r' := by exact_mod_cast e1.failures.trans e2.failures.symm
      exact ⟨e1.settled.results.trans e2.settled.results.symm, e1.slot.trans e2.slot.symm⟩
  · obtain ⟨more, h⟩ := ((Sane.start l _).run Script.ops schedule).completed Script.ops
    refine ⟨more, ?_⟩
    rw [Crew.run_append]
    exact h

/-! ### Three callers -/

def noCompiler : Fault := .of .runtimeError "no compiler"

/-- A loader whose first attempt to build a service fails. -/
def hesitant : Loader Script Nat :=
  .start (.ofPlans [.refuse noCompiler, .serve ⟨[.ok "first", .ok "second"], none⟩])

def threeCalls : List (Value × Text) := [("/a.ts", "a"), ("/b.ts", "b"), ("/c.ts", "c")]

/-- The last thread sees the slot filled, the other two see it empty. -/
def threeTurns : List Nat :=
  [0, 1, 1, 1, 1, 1, 1, 0, 0, 0, 0, 0, 2, 2, 2, 0, 0, 0, 0]

theorem hesitant_firstServed : hesitant.state.world.FirstServed 2 where
  positive := by norm_cast
  refused i hi := by
    have : i + 1 < 2 := by exact_mod_cast hi
    obtain rfl : i = 0 := by omega
    exact ⟨_, rfl⟩
  served i hi := by
    have : i + 1 = 2 := by exact_mod_cast hi
    obtain rfl : i = 1 := by omega
    exact ⟨_, rfl⟩

theorem calls_settled_three :
    ((Crew.calling hesitant threeCalls).run Script.ops threeTurns).isDone = true ∧
    ((Crew.calling hesitant threeCalls).run Script.ops threeTurns).results.Perm
      [.error noCompiler.reported, .ok "first", .ok "second"] := by
  have hd : ((Crew.calling hesitant threeCalls).run Script.ops threeTurns).isDone = true := by rfl
  refine ⟨hd, ?_⟩
  obtain ⟨r, h⟩ := ((calls_settled hesitant threeCalls hesitant_firstServed).1 _ hd).2 rfl
  obtain rfl : r = 1 := by
    have hle : (2 : ℕ∞) - 1 ≤ (threeCalls.length : ℕ∞) := by norm_cast
    exact_mod_cast h.failures.trans (min_eq_left hle)
  exact h.settled.results

end Orders

end ConfigLoader.Threads
