import ConfigLoader.Proofs.Callers.Alone
import ConfigLoader.Proofs.Callers.Record

/-! # What events tell of threads

A step of a thread begins its next task, goes on with the task that it is at, or ends it, and adds
events of this task alone. So the events tell how far each thread has come.
-/
namespace ConfigLoader.Callers
open Child (Handle Action)
open Compiler (Site)
open Threads (Actor)
variable {W : Type} {ops : ChildOps W} {site : Site} {h : Handle} {i j : Nat} {t t' u : Thread}

def Activity.task? : Activity → Option Task
  | idle => none
  | compile path source _ => some (.compile path source)
  | close _ => some .close

def Adds (a : Actor) (x y : Shared W) : Prop :=
  ∃ es, y.events = es ++ x.events ∧ ∀ e ∈ es, e.actor = a ∧ ∀ task, e ≠ .enter a task

section Adds
variable {a : Actor} {x y z : Shared W}

theorem Adds.same (he : y.events = x.events) : Adds a x y := ⟨[], he, nofun⟩

theorem Adds.trans (hxy : Adds a x y) (hyz : Adds a y z) : Adds a x z := by
  obtain ⟨es, hes, h1⟩ := hxy
  obtain ⟨fs, hfs, h2⟩ := hyz
  refine ⟨fs ++ es, by rw [hfs, hes, List.append_assoc], fun e he => ?_⟩
  exact (List.mem_append.mp he).elim (h2 e) (h1 e)

theorem Adds.one {e : Event} (he : y.events = e :: x.events) (ha : e.actor = a)
    (hn : ∀ task, e ≠ .enter a task) : Adds a x y := by
  refine ⟨[e], he, fun e' hm => ?_⟩
  rw [List.mem_singleton.mp hm]
  exact ⟨ha, hn⟩

theorem act_adds (ops : ChildOps W) (a : Actor) (h : Handle) (action : Action) (x : Shared W) :
    Adds a x (x.act ops a h action).2 :=
  .one rfl rfl nofun

theorem shut_adds (ops : ChildOps W) (a : Actor) (h : Handle) (p : Ending) (x : Shared W) :
    Adds a x (x.shut ops a h p).2 := by
  unfold Shared.shut
  split
  · exact act_adds ops a h p.action x
  · exact .same rfl

theorem take_ne_enter {b : Actor} (task : Task) : Event.take a h ≠ .enter b task := by
  rintro ⟨⟩

theorem finish_ne_enter {b : Actor} {done : Task} {r : Except Fault Value} (task : Task) :
    Event.finish a done r ≠ .enter b task := by
  rintro ⟨⟩

end Adds

inductive Turn (i : Nat) (t : Thread) (x : Shared W) (t' : Thread) (y : Shared W) : Prop
  | enters {task} (ha : t.activity = .idle) (hr : t'.results = t.results)
      (ht : t'.activity.task? = some task) (he : y.events = .enter (t.actor i) task :: x.events)
  | goes (ha : t.activity.task? ≠ none) (hr : t'.results = t.results)
      (ht : t'.activity.task? = t.activity.task?) (he : Adds (t.actor i) x y)
  | ends {r} (hr : t'.results = r :: t.results) (ha : t'.activity = .idle)
      (he : Adds (t.actor i) x y)

theorem compileStep_turn {path source : Value} {p : CompilePoint} {x : Shared W}
    (ha : t.activity = .compile path source p) :
    Turn i t x (t.compileStep ops site i path source x p).1
      (t.compileStep ops site i path source x p).2 := by
  have hgo : ∀ (q : CompilePoint) (y : Shared W), Adds (t.actor i) x y →
      Turn i t x (t.goes (.compile path source q)) y := by
    intro q y hy
    exact .goes (by rw [ha]; exact Option.some_ne_none _) rfl (by rw [ha]; rfl) hy
  cases p with
  | looking =>
    simp only [Thread.compileStep]
    split
    · exact hgo _ _ (.same rfl)
    · exact hgo _ _ (.same rfl)
  | numbering h => exact hgo _ _ (.same rfl)
  | writing h id =>
    simp only [Thread.compileStep]
    split
    · exact hgo _ _ (.same rfl)
    · split
      · split
        · exact hgo _ _ (.same rfl)
        · next text _ =>
          have hw := act_adds ops (t.actor i) h (.write text) x
          rcases e : x.act ops (t.actor i) h (.write text) with ⟨r, y⟩
          rw [e] at hw
          cases r <;> exact hgo _ _ hw
      · exact hgo _ _ (.same rfl)
  | flushing h =>
    have hw := act_adds ops (t.actor i) h .flush x
    simp only [Thread.compileStep]
    rcases e : x.act ops (t.actor i) h .flush with ⟨r, y⟩
    rw [e] at hw
    cases r <;> exact hgo _ _ hw
  | reading h =>
    have hw := act_adds ops (t.actor i) h .readLine x
    simp only [Thread.compileStep]
    rcases e : x.act ops (t.actor i) h .readLine with ⟨r, y⟩
    rw [e] at hw
    split
    · cases r with
      | error f => exact hgo _ _ hw
      | ok line =>
        simp only
        split <;> exact hgo _ _ hw
    · exact hgo _ _ (.same rfl)
  | dropping h => exact hgo _ _ (.same rfl)
  | ending h p =>
    have hw := shut_adds ops (t.actor i) h p x
    simp only [Thread.compileStep]
    rcases e : x.shut ops (t.actor i) h p with ⟨r, y⟩
    rw [e] at hw
    rcases r with (f | _) | q <;> exact hgo _ _ hw
  | leaving r => exact .ends rfl rfl (.one rfl rfl finish_ne_enter)

theorem closeStep_turn {p : ClosePoint} {x : Shared W} (ha : t.activity = .close p) :
    Turn i t x (t.closeStep ops i x p).1 (t.closeStep ops i x p).2 := by
  have hgo : ∀ (q : ClosePoint) (y : Shared W), Adds (t.actor i) x y →
      Turn i t x (t.goes (.close q)) y := by
    intro q y hy
    exact .goes (by rw [ha]; exact Option.some_ne_none _) rfl (by rw [ha]; rfl) hy
  cases p with
  | looking => exact hgo _ _ (.same rfl)
  | emptying k =>
    cases k with
    | none => exact hgo _ _ (.same rfl)
    | some h => exact hgo _ _ (.one rfl rfl take_ne_enter)
  | leaving k =>
    cases k with
    | none => exact .ends rfl rfl (.one rfl rfl finish_ne_enter)
    | some h => exact hgo _ _ (.same rfl)
  | noting h => exact hgo _ _ (.same rfl)
  | ending h p =>
    have hw := shut_adds ops (t.actor i) h p x
    simp only [Thread.closeStep]
    rcases e : x.shut ops (t.actor i) h p with ⟨r, y⟩
    rw [e] at hw
    cases r with
    | inr q => exact hgo _ _ hw
    | inl d => exact .ends rfl rfl (hw.trans (.one rfl rfl finish_ne_enter))

theorem lock?_cases {x y : Shared W} (hx : x.lock? i = some y) :
    x.holder = none ∧ y = { x with holder := some i } := by
  unfold Shared.lock? at hx
  cases hh : x.holder with
  | some k =>
    rw [hh] at hx
    cases hx
  | none =>
    rw [hh] at hx
    cases hx
    exact ⟨rfl, rfl⟩

theorem idle_step {x y : Shared W} (ha : t.activity = .idle)
    (hs : t.step ops site i x = some (t', y)) :
    ∃ task ts, x.holder = none ∧ t' = ⟨ts, Thread.opening task, t.results⟩ ∧
      y = Shared.see (.enter (t.actor i) task) { x with holder := some i } := by
  unfold Thread.step at hs
  cases ht : t.tasks with
  | nil =>
    simp only [ha, ht] at hs
    cases hs
  | cons task ts =>
    simp only [ha, ht] at hs
    obtain ⟨z, hz, hs⟩ := Option.map_eq_some_iff.mp hs
    obtain ⟨hh, rfl⟩ := lock?_cases hz
    cases hs
    exact ⟨task, ts, hh, rfl, rfl⟩

theorem step_turn {x y : Shared W} (hs : t.step ops site i x = some (t', y)) : Turn i t x t' y := by
  cases ha : t.activity with
  | idle =>
    obtain ⟨task, ts, -, rfl, rfl⟩ := idle_step ha hs
    exact .enters ha rfl (by cases task <;> rfl) rfl
  | compile path source p =>
    rw [compile_step _ _ _ _ ha] at hs
    obtain ⟨rfl, rfl⟩ := Prod.mk.inj (Option.some.inj hs)
    exact compileStep_turn ha
  | close p =>
    rw [close_step _ _ _ _ ha] at hs
    obtain ⟨rfl, rfl⟩ := Prod.mk.inj (Option.some.inj hs)
    exact closeStep_turn ha

structure Known (es : List Event) (i : Nat) (t : Thread) : Prop where
  past : ∀ e ∈ es, e.actor.thread = i → e.actor.task ≤ t.results.length
  fresh : t.activity = .idle → ∀ e ∈ es, e.actor ≠ t.actor i
  task : ∀ task, .enter (t.actor i) task ∈ es → t.activity.task? = some task

section Known
variable {x y : Shared W}

theorem Turn.actor (ht : Turn i t x t' y) :
    ∃ es, y.events = es ++ x.events ∧ ∀ e ∈ es, e.actor = t.actor i := by
  cases ht with
  | enters ha hr ht he =>
    refine ⟨[_], he, fun e hm => ?_⟩
    rw [List.mem_singleton.mp hm]
    rfl
  | goes _ _ _ he | ends _ _ he =>
    obtain ⟨es, hes, h⟩ := he
    exact ⟨es, hes, fun e hm => (h e hm).1⟩

theorem Known.other (hk : Known x.events j u) (ht : Turn i t x t' y) (hj : j ≠ i) :
    Known y.events j u := by
  obtain ⟨es, hes, ha⟩ := ht.actor
  have hnew : ∀ e ∈ es, e.actor.thread ≠ j := by
    intro e he
    rw [ha e he]
    exact hj.symm
  have hold : ∀ {e : Event}, e ∈ y.events → e.actor.thread = j → e ∈ x.events := by
    intro e he hej
    rw [hes] at he
    exact (List.mem_append.mp he).resolve_left fun hm => hnew e hm hej
  constructor
  · exact fun e he hej => hk.past e (hold he hej) hej
  · exact fun hi e he hej => hk.fresh hi e (hold he (by rw [hej]; rfl)) hej
  · exact fun task hm => hk.task task (hold hm rfl)

theorem Known.turn (hk : Known x.events i t) (ht : Turn i t x t' y) : Known y.events i t' := by
  have hpast : ∀ e ∈ y.events, e.actor.thread = i → e.actor.task ≤ t.results.length := by
    obtain ⟨es, hes, ha⟩ := ht.actor
    intro e hm hi
    rw [hes] at hm
    rcases List.mem_append.mp hm with hm | hm
    · rw [ha e hm]
      exact Nat.le_refl _
    · exact hk.past e hm hi
  cases ht with
  | @enters task ha hr ht he =>
    have hactor : t'.actor i = t.actor i := by simp only [Thread.actor, hr]
    constructor
    · rwa [hr]
    · intro hi
      rw [hi] at ht
      cases ht
    · intro task' hm
      rw [he, hactor] at hm
      rcases List.mem_cons.mp hm with heq | hm
      · cases heq
        exact ht
      · exact absurd rfl (hk.fresh ha _ hm)
  | goes ha hr ht he =>
    have hactor : t'.actor i = t.actor i := by simp only [Thread.actor, hr]
    obtain ⟨es, hes, h⟩ := he
    constructor
    · rwa [hr]
    · intro hi
      rw [hi] at ht
      exact absurd ht.symm ha
    · intro task hm
      rw [hes, hactor] at hm
      rcases List.mem_append.mp hm with hm | hm
      · exact absurd rfl ((h _ hm).2 task)
      · rw [ht]
        exact hk.task task hm
  | @ends r hr ha he =>
    -- The next task of the thread has a number that no event has.
    have hfresh : ∀ e ∈ y.events, e.actor ≠ t'.actor i := by
      intro e hm heq
      have hle := hpast e hm (by rw [heq]; rfl)
      rw [heq, Thread.actor, hr] at hle
      exact absurd hle (Nat.not_succ_le_self _)
    constructor
    · intro e hm hi
      rw [hr]
      exact Nat.le_succ_of_le (hpast e hm hi)
    · exact fun _ => hfresh
    · exact fun task hm => absurd rfl (hfresh _ hm)

end Known
end ConfigLoader.Callers
