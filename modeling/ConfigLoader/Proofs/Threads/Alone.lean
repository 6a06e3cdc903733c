import ConfigLoader.Proofs.Threads.Steps

/-! # A thread on its own

While no other thread takes a step, a task does what the loader does that no threads share: the same
result, the same service in the slot, the same world and the same log.
-/
namespace ConfigLoader
variable {W S : Type}

/-- What reporting the end of an attempt leaves in the log. -/
def Loader.noted (path : Value) (r : Except Fault Value) (l : Loader W S) : Loader W S :=
  match r with
  | .ok _ => l
  | .error f => if f.isOrdinary then l.note .debug
      ("Load failed for " ++ path.display ++ ": " ++ f.kind.name ++ ": " ++ f.message) else l

theorem Loader.call_eq (ops : ServiceOps W S) (path content : Value) (l : Loader W S) :
    l.call ops path content = (answer (l.attempt ops path content).1,
      noted path (l.attempt ops path content).1 (l.attempt ops path content).2) := by
  unfold call
  rcases l.attempt ops path content with ⟨r, l1⟩
  cases r with
  | ok v => rfl
  | error f =>
    by_cases hf : f.isOrdinary = true
    · simp only [noted, answer_error, Fault.reported, hf, if_true]
    · simp only [noted, answer_error, Fault.reported, hf, Bool.false_eq_true, if_false]

namespace Threads

def Thread.steps (ops : ServiceOps W S) (i : Nat) :
    Nat → Thread S → Shared W S → Option (Thread S × Shared W S)
  | 0, t, x => some (t, x)
  | n + 1, t, x => (t.step ops i x).bind fun p => p.1.steps ops i n p.2

theorem Crew.run_alone {ops : ServiceOps W S} {i : Nat} {t t' : Thread S} {y : Shared W S} (n : Nat)
    {c : Crew W S} (ht : c.threads[i]? = some t) (hs : t.steps ops i n c.shared = some (t', y)) :
    c.run ops (List.replicate n i) = ⟨y, c.threads.set i t'⟩ := by
  induction n generalizing t c with
  | zero =>
    cases hs
    obtain ⟨hi, rfl⟩ := List.getElem?_eq_some_iff.mp ht
    rw [List.set_getElem_self]
    rfl
  | succ n ih =>
    obtain ⟨⟨u, z⟩, hu, hs⟩ := Option.bind_eq_some_iff.mp hs
    have hi := (List.getElem?_eq_some_iff.mp ht).1
    have hstep : c.step? ops i = some ⟨z, c.threads.set i u⟩ := by
      simp only [Crew.step?, ht, Option.bind_some, hu, Option.map_some]
    rw [List.replicate_succ, Crew.run_cons, hstep, Option.getD_some,
      ih (t := u) (by simp only [List.getElem?_set_self hi]) hs, List.set_set]

/-- Some steps of a thread end its task with a result, and leave the lock free and the loader as
given. -/
def Finishes (ops : ServiceOps W S) (i : Nat) (t : Thread S) (x : Shared W S) (t' : Thread S)
    (l : Loader W S) : Prop :=
  ∃ n y, t.steps ops i n x = some (t', y) ∧ y.holder = none ∧ y.loader = l

section Finishes
variable {ops : ServiceOps W S} {i : Nat} {t t' : Thread S} {x : Shared W S} {l : Loader W S}
  {path content : Value}

theorem Finishes.step (u : Thread S) (y : Shared W S) (hs : t.step ops i x = some (u, y))
    (h : Finishes ops i u y t' l) : Finishes ops i t x t' l := by
  obtain ⟨n, z, hz, hh, hl⟩ := h
  refine ⟨n + 1, z, ?_, hh, hl⟩
  simp only [Thread.steps, hs, Option.bind_some, hz]

theorem Finishes.last (y : Shared W S) (hs : t.step ops i x = some (t', y)) (hh : y.holder = none)
    (hl : y.loader = l) : Finishes ops i t x t' l :=
  .step t' y hs ⟨0, y, rfl, hh, hl⟩

theorem loader_held {k : Nat} {s : S} (hk : x.slot = some k) (hs : x.built[k]? = some s) :
    x.loader = ⟨some s, x.state⟩ := by
  simp only [Shared.loader, hk, Option.bind_some, hs]

theorem loader_empty (hk : x.slot = none) : x.loader = ⟨none, x.state⟩ := by
  simp only [Shared.loader, hk, Option.bind_none]

theorem reporting_alone {r : Except Fault Value} (ha : t.activity = .call path content (.reporting r))
    (hh : x.holder = none) :
    Finishes ops i t x (t.ends (Loader.answer r)) (x.loader.noted path r) := by
  cases r with
  | ok v => exact .last x (by simp only [Thread.step, ha, Thread.callStep]; rfl) hh rfl
  | error f =>
    have hs : t.step ops i x = some (t.ends (.error (x.report path f).1), (x.report path f).2) := by
      simp only [Thread.step, ha, Thread.callStep]
    by_cases hf : f.isOrdinary = true
    · simp only [Shared.report, hf, if_true] at hs
      simp only [Loader.noted, hf, if_true, Loader.answer_error, Fault.reported]
      exact .last _ hs hh rfl
    · simp only [Shared.report, hf, Bool.false_eq_true, if_false] at hs
      simp only [Loader.noted, hf, Bool.false_eq_true, if_false, Loader.answer_error,
        Fault.reported]
      exact .last _ hs hh rfl

theorem asking_alone {k : Nat} {s : S} (ha : t.activity = .call path content (.asking (some k)))
    (hh : x.holder = none) (hk : x.slot = some k) (hs : x.built[k]? = some s) :
    Finishes ops i t x (t.ends (x.loader.call ops path content).1)
      (x.loader.call ops path content).2 := by
  have hx := loader_held hk hs
  have hstep : t.step ops i x = some (t.goes (.call path content
      (.reporting (x.ask ops (t.actor i) path content (some k)).1)),
      (x.ask ops (t.actor i) path content (some k)).2) := by
    simp only [Thread.step, ha, Thread.callStep]
  rw [Loader.call_eq, hx, Loader.attempt_held ops path content rfl]
  refine .step _ _ hstep ?_
  have hask : (x.ask ops (t.actor i) path content (some k)).1 =
        (Loader.ask ops path content s ⟨some s, x.state⟩).1 ∧
      (x.ask ops (t.actor i) path content (some k)).2.loader =
        (Loader.ask ops path content s ⟨some s, x.state⟩).2 ∧
      (x.ask ops (t.actor i) path content (some k)).2.holder = none := by
    have hi := (List.getElem?_eq_some_iff.mp hs).1
    unfold Shared.ask Loader.ask
    cases Loader.contentLength content with
    | error f => exact ⟨rfl, hx, hh⟩
    | ok n =>
      simp only [Shared.service?_some (x := x.note .debug _) hs]
      refine ⟨rfl, ?_, hh⟩
      simp only [Shared.loader, Shared.see_slot, Shared.note_slot, hk, Option.bind_some,
        Shared.see_built, Shared.note_built, List.getElem?_set_self hi]
      rfl
  rw [← hask.1, ← hask.2.1]
  exact reporting_alone rfl hask.2.2

theorem waiting_alone (ha : t.activity = .call path content .waiting) (hh : x.holder = none)
    (hk : x.slot = none) :
    Finishes ops i t x (t.ends (x.loader.call ops path content).1)
      (x.loader.call ops path content).2 := by
  rw [loader_empty hk]
  let y := { x with holder := some i }
  let z := (y.note .info "Creating compiler service").see (.attempt (t.actor i))
  refine .step (t.goes (.call path content .checking)) y ?_ ?_
  · simp only [Thread.step, ha, Thread.callStep, Shared.lock?, hh]
    rfl
  refine .step (t.goes (.call path content .building)) z ?_ ?_
  · have hy : y.slot = none := hk
    simp only [Thread.step, Thread.goes, Thread.callStep, hy]
    rfl
  rcases hc : ops.create z.state with ⟨r, w⟩
  have hcreate : ops.create
      ((⟨none, x.state⟩ : Loader W S).note .info "Creating compiler service").state = (r, w) := hc
  cases r with
  | error f =>
    refine .step (t.goes (.call path content (.leaving (.error f))))
      ({ z with state := w }.see (.refuse (t.actor i) f)) ?_ ?_
    · simp only [Thread.step, Thread.goes, Thread.callStep, hc]
      rfl
    let v := ({ z with state := w }.see (.refuse (t.actor i) f)).unlock
    refine .step (t.goes (.call path content (.reporting (.error f)))) v rfl ?_
    have hend : Finishes ops i (t.goes (.call path content (.reporting (.error f)))) v
        (t.ends (Loader.answer (.error f))) (v.loader.noted path (.error f)) :=
      reporting_alone rfl rfl
    rw [show v.loader = ⟨none, w⟩ from loader_empty hk] at hend
    rw [Loader.call_eq, Loader.attempt_refused ops path content rfl hcreate]
    exact hend
  | ok s =>
    refine .step (t.goes (.call path content (.storing s))) { z with state := w } ?_ ?_
    · simp only [Thread.step, Thread.goes, Thread.callStep, hc]
    refine .step (t.goes (.call path content .taking))
      ({ z with state := w, slot := some x.built.length, built := x.built ++ [s] }.see
        (.fill (t.actor i) x.built.length)) rfl ?_
    refine .step (t.goes (.call path content (.leaving (.ok (some x.built.length))))) _ rfl ?_
    refine .step (t.goes (.call path content (.asking (some x.built.length)))) _ rfl ?_
    have hs : (x.built ++ [s])[x.built.length]? = some s := by
      rw [List.getElem?_append_right (Nat.le_refl _), Nat.sub_self]
      rfl
    have hl : (({ z with state := w, slot := some x.built.length, built := x.built ++ [s] }.see
        (.fill (t.actor i) x.built.length)).unlock).loader = ⟨some s, w⟩ := loader_held rfl hs
    have hcall : Loader.call ops path content ⟨none, x.state⟩ =
        Loader.call ops path content ⟨some s, w⟩ := by
      rw [Loader.call_eq, Loader.call_eq, Loader.attempt_created ops path content rfl hcreate,
        Loader.attempt_held ops path content rfl]
    rw [hcall, ← hl]
    exact asking_alone rfl rfl rfl hs

theorem call_alone {ts : List Task} (ha : t.activity = .idle)
    (ht : t.tasks = .call path content :: ts) (hh : x.holder = none)
    (hk : ∀ k, x.slot = some k → k < x.built.length) :
    Finishes ops i t x ⟨ts, .idle, (x.loader.call ops path content).1 :: t.results⟩
      (x.loader.call ops path content).2 := by
  cases hs : x.slot with
  | none =>
    refine .step ⟨ts, .call path content .waiting, t.results⟩ x ?_ (waiting_alone rfl hh hs)
    simp only [Thread.step, ha, ht, hs]
  | some k =>
    refine .step ⟨ts, .call path content (.asking (some k)), t.results⟩ x ?_
      (asking_alone rfl hh hs (List.getElem?_eq_getElem (hk k hs)))
    simp only [Thread.step, ha, ht, hs]

theorem close_alone {ts : List Task} (ha : t.activity = .idle) (ht : t.tasks = .close :: ts)
    (hh : x.holder = none) (hk : ∀ k, x.slot = some k → k < x.built.length) :
    Finishes ops i t x
      ⟨ts, .idle, (x.loader.close ops).1.map (fun _ => .null) :: t.results⟩
      (x.loader.close ops).2 := by
  let y := { x with holder := some i }
  let u : Thread S := ⟨ts, .close .emptying, t.results⟩
  refine .step u y ?_ ?_
  · simp only [Thread.step, ha, ht, Shared.lock?, hh]
    rfl
  let z := { y with slot := none }.see (.empty (u.actor i) x.slot)
  refine .step (u.goes (.close (.leaving x.slot))) z rfl ?_
  cases hs : x.slot with
  | none =>
    rw [loader_empty hs]
    exact .last z.unlock rfl rfl (loader_empty rfl)
  | some k =>
    obtain ⟨s, hb⟩ : ∃ s, x.built[k]? = some s := ⟨_, List.getElem?_eq_getElem (hk k hs)⟩
    refine .step (u.goes (.close (.closing k))) z.unlock rfl ?_
    rw [loader_held hs hb]
    have hshut : z.unlock.service? (some k) = some (k, s) := Shared.service?_some hb
    rcases hc : ops.close s x.state with ⟨r, w⟩
    have hclose : ops.close s z.unlock.state = (r, w) := hc
    have hstep : (u.goes (.close (.closing k))).step ops i z.unlock =
        some (u.ends (r.map fun _ => .null),
          { z.unlock with state := w }.see (.close (u.actor i) k)) := by
      simp only [Thread.step, Thread.goes, Thread.closeStep, Shared.shut, hshut, hclose]
      rfl
    simp only [Loader.close, hc]
    exact .last _ hstep rfl (loader_empty rfl)

theorem Finishes.run {c : Crew W S} (ht : c.threads[i]? = some t)
    (h : Finishes ops i t c.shared t' l) :
    ∃ n, (c.run ops (List.replicate n i)).threads = c.threads.set i t' ∧
      (c.run ops (List.replicate n i)).shared.holder = none ∧
      (c.run ops (List.replicate n i)).shared.loader = l := by
  obtain ⟨n, y, hs, hh, hl⟩ := h
  refine ⟨n, ?_⟩
  rw [Crew.run_alone n ht hs]
  exact ⟨rfl, hh, hl⟩

end Finishes
end Threads
end ConfigLoader
