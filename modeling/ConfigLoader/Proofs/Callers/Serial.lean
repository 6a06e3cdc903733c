import ConfigLoader.Proofs.Callers.Answering

/-! # Requests of many threads

On a process that answers, what threads ask for at once is asked one after another, and each request
ends with its own answer. A close ends the traffic, and the requests behind it fail, in whatever
order the threads take their steps.
-/
namespace ConfigLoader.Callers
open Child (Handle Action)
open Compiler (Site requestId?)
open Matching (Carries)
open Threads (Actor)
variable {W : Type} {ops : ChildOps W} {site : Site} {h : Handle} {P : List Text → W → Prop}
  {i : Nat} {t : Thread} {x : Crew W} {schedule : List Nat} {p src : Value}

/-! ## Turns -/

theorem Crew.run_append (x : Crew W) (early late : List Nat) :
    x.run ops site (early ++ late) = (x.run ops site early).run ops site late :=
  List.foldl_append

theorem Crew.run_cons (x : Crew W) (i : Nat) (schedule : List Nat) :
    x.run ops site (i :: schedule) = ((x.step? ops site i).getD x).run ops site schedule := rfl

theorem Crew.run_events {e : Event} (he : e ∈ x.shared.events) (schedule : List Nat) :
    e ∈ (x.run ops site schedule).shared.events := by
  induction schedule generalizing x with
  | nil => exact he
  | cons i schedule ih =>
    rw [run_cons]
    refine ih ?_
    cases hs : x.step? ops site i with
    | none => exact he
    | some x' =>
      obtain ⟨t, t', y, -, hst, rfl⟩ := step?_cases hs
      obtain ⟨es, hes, -⟩ := (step_turn hst).actor
      have hy : e ∈ es ++ x.shared.events := List.mem_append_right es he
      exact hes ▸ hy

theorem Crew.run_other (hi : i ∉ schedule) :
    (x.run ops site schedule).threads[i]? = x.threads[i]? := by
  induction schedule generalizing x with
  | nil => rfl
  | cons j schedule ih =>
    obtain ⟨hj, hi⟩ := not_or.mp (mt List.mem_cons.mpr hi)
    rw [run_cons, ih hi]
    cases hs : x.step? ops site j with
    | none => rfl
    | some x' =>
      obtain ⟨t, t', y, -, -, rfl⟩ := step?_cases hs
      exact List.getElem?_set_ne (Ne.symm hj)

theorem Crew.step_compile {b : CompilePoint} (ht : x.threads[i]? = some t)
    (ha : t.activity = .compile p src b) :
    x.step? ops site i = some ⟨(t.compileStep ops site i p src x.shared b).2,
      x.threads.set i (t.compileStep ops site i p src x.shared b).1⟩ := by
  simp only [step?, ht, Option.bind_some, compile_step _ _ _ _ ha, Option.map_some]

theorem Crew.fails_leaving {f : Fault} (ht : x.threads[i]? = some t)
    (ha : t.activity = .compile p src (.leaving (.error f))) (hi : i ∈ schedule) :
    .finish (t.actor i) (.compile p src) (.error f) ∈
      (x.run ops site schedule).shared.events := by
  obtain ⟨early, late, rfl, hearly⟩ := List.eq_append_cons_of_mem hi
  have ht' : (x.run ops site early).threads[i]? = some t := (run_other hearly).trans ht
  rw [run_append, run_cons, step_compile ht' ha]
  exact run_events List.mem_cons_self late

/-- Once a close took the process, a request is about to fail. -/
theorem Sane.after {c : Actor} {k : Handle} {b : CompilePoint} (hx : Sane ops.limits h P x)
    (hk : .take c k ∈ x.shared.events) (ht : x.threads[i]? = some t)
    (ha : t.activity = .compile p src b) :
    x.shared.compiler.process = none ∧
      (b = .looking ∨ b = .leaving (.error Compiler.notRegistered)) := by
  obtain ⟨s, n, hw, -, hfits⟩ := hx.staged
  obtain ⟨later, earlier, hes⟩ := List.append_of_mem hk
  rw [hes] at hw
  obtain ⟨⟨closed, rfl⟩, -, -⟩ := hw.taken
  obtain ⟨hp, hall⟩ := hfits
  have hi := hall i t ht
  simp only [AfterClose, ha] at hi
  cases b with
  | looking => exact ⟨hp, .inl rfl⟩
  | leaving r => exact ⟨hp, .inr (congrArg _ hi.2)⟩
  | _ => exact hi.elim

/-- Once a close took the process, a request ends by two turns of its thread, with the fault that
there is no process. -/
theorem Sane.fails {c : Actor} {k : Handle} {b : CompilePoint} (hops : Prompt ops h P)
    (hx : Sane ops.limits h P x) (hk : .take c k ∈ x.shared.events) (ht : x.threads[i]? = some t)
    (ha : t.activity = .compile p src b) (hi : 2 ≤ schedule.count i) :
    .finish (t.actor i) (.compile p src) (.error Compiler.notRegistered) ∈
      (x.run ops site schedule).shared.events := by
  have hmem : i ∈ schedule := List.count_pos_iff.mp (Nat.lt_of_lt_of_le Nat.two_pos hi)
  obtain ⟨hp, rfl | rfl⟩ := hx.after hk ht ha
  · -- The first turn finds the slot empty, the second one ends the request.
    obtain ⟨early, late, rfl, hearly⟩ := List.eq_append_cons_of_mem hmem
    have hlate : i ∈ late := by
      rw [List.count_append, List.count_cons_self, List.count_eq_zero_of_not_mem hearly] at hi
      exact List.count_pos_iff.mp (by omega)
    have hx' : Sane ops.limits h P (x.run ops site early) := hx.run hops early
    have ht' : (x.run ops site early).threads[i]? = some t := (Crew.run_other hearly).trans ht
    have hp' := (hx'.after (Crew.run_events hk early) ht' ha).1
    rw [Crew.run_append, Crew.run_cons, Crew.step_compile ht' ha]
    simp only [Thread.compileStep, hp', Option.getD_some]
    exact Crew.fails_leaving (t := t.goes (.compile p src (.leaving (.error _))))
      (List.getElem?_set_self (List.getElem?_eq_some_iff.mp ht').1) rfl hlate
  · exact Crew.fails_leaving ht ha hmem

/-! ## Serial runs -/

/-- What threads did to a process was done by one after another. -/
structure Serial (ops : ChildOps W) (site : Site) (h : Handle) (x : Crew W) : Prop where
  /-- A line is read by the task that wrote the last request, carries its number, and is what the
  task ends with, before anything else is done. -/
  own : ∀ later a k line earlier,
    x.shared.events = later ++ .act a k .readLine (.ok line) :: earlier →
      ∃ text s u rest id reply,
        earlier = .act a k .flush (.ok s) :: .act a k (.write text) (.ok u) :: rest ∧
        requestId? text = some id ∧ Json.load ops.limits.reading line = .ok reply ∧ Carries id reply ∧
        ∀ e more, later = more ++ [e] → ∃ task, e = .finish a task (replyOutcome reply)
  /-- A request that ends with a value has just read a line. -/
  replied : ∀ later a p src v earlier,
    x.shared.events = later ++ .finish a (.compile p src) (.ok v) :: earlier →
      ∃ line rest, earlier = .act a h .readLine (.ok line) :: rest
  /-- At most one request is without an answer. -/
  unanswered : x.shared.events.countP Event.isWrite ≤ x.shared.events.countP Event.isRead + 1
  numbered : ∀ e ∈ x.shared.events, e.isWrite = true → ∃ id, e.request? = some id
  /-- The numbers of requests grow. -/
  numbers : (x.shared.events.filterMap Event.request?).Pairwise (· > ·)
  /-- Behind a close there is only its shutdown. -/
  taken : ∀ later c k earlier, x.shared.events = later ++ .take c k :: earlier →
    k = h ∧ ∀ e ∈ later, Late c h e
  closed : x.shared.events.countP Event.isCloseInput ≤ 1
  /-- A request that enters behind a close does nothing to the process, -/
  late : ∀ later c k earlier a p src, x.shared.events = later ++ .take c k :: earlier →
    .enter a (.compile p src) ∈ later →
      (∀ j action r, .act a j action r ∉ x.shared.events) ∧
      ∀ task r, .finish a task r ∈ x.shared.events → r = .error Compiler.notRegistered
  /-- and fails by two turns of its thread. -/
  fails : ∀ c k i t p src b schedule, .take c k ∈ x.shared.events → x.threads[i]? = some t →
    t.activity = .compile p src b → 2 ≤ schedule.count i →
      .finish (t.actor i) (.compile p src) (.error Compiler.notRegistered) ∈
        (x.run ops site schedule).shared.events

theorem Stage.unanswered_le (s : Stage) : s.unanswered ≤ 1 := by
  unfold Stage.unanswered
  split <;> decide

theorem Stage.closed_le (s : Stage) : s.closed ≤ 1 := by
  unfold Stage.closed
  split <;> decide

theorem Sane.serial (hops : Prompt ops h P) (hx : Sane ops.limits h P x) : Serial ops site h x := by
  obtain ⟨s, n, hw, -, -⟩ := hx.staged
  constructor
  case own =>
    intro later a k line earlier hes
    rw [hes] at hw
    exact hw.read_own
  case replied =>
    intro later a p src v earlier hes
    rw [hes] at hw
    exact hw.replied
  case unanswered =>
    rw [hw.unanswered]
    exact Nat.add_le_add_left s.unanswered_le _
  case numbered => exact hw.numbered
  case numbers => exact hw.numbers.1
  case taken =>
    intro later c k earlier hes
    rw [hes] at hw
    exact hw.taken.2
  case closed =>
    rw [hw.closed]
    exact s.closed_le
  case late =>
    intro later c k earlier a p src hes he
    rw [hes] at hw ⊢
    exact hw.late he
  case fails => exact fun c k i t p src b schedule hk ht ha hi => hx.fails hops hk ht ha hi

/-- So it is at any time, whatever the tasks of the threads are and in whatever order they take their
steps. -/
theorem run_serial {c : Compiler} {l : Logged W} (hops : Prompt ops h P)
    (hc : c.process = some h) (hP : P [] l.world) (tasks : List (List Task))
    (schedule : List Nat) :
    Serial ops site h (Crew.run ops site schedule (Crew.start c l tasks)) :=
  ((Sane.start hc hP tasks).run hops schedule).serial hops

/-- One thread asks twice while another one closes. -/
def sharedRun : Crew (List Nat) :=
  Crew.run answering ⟨"/", "/worker.js"⟩ schedule
    (Crew.start ⟨.default, some 0, 0, .null⟩ ⟨[], []⟩
      [[.compile "/a.ts" "x", .compile "/b.ts" "y"], [.close]])
where
  schedule : List Nat := [0, 1, 0, 0, 1, 0, 0, 0, 0, 1, 1, 1, 1, 0, 1, 0, 1, 0, 1, 1, 1]

theorem run_serial_shared :
    Serial answering ⟨"/", "/worker.js"⟩ 0 sharedRun ∧
      sharedRun.threads.map (·.results) =
        [[.error Compiler.notRegistered, .ok .null], [.ok .null]] := by
  refine ⟨?_, by cbv⟩
  exact run_serial (answering_prompt 0) rfl .nil _ sharedRun.schedule

end ConfigLoader.Callers
