import Mathlib
import ConfigLoader.Proofs.Compiler.Discipline
import ConfigLoader.Proofs.Compiler.Startup

/-! # What becomes of registered processes

A compiler holds one process. A process that it held before was shut down when it was let go, unless
it had ended by itself and the compiler was registered again: then it is replaced as it is.
-/
namespace ConfigLoader.Discipline
open Child (Handle Action Deed annals)
open Child.Annals (Began Did)
open Compiler
open Matching (Call)
variable {W : Type} {limits : Limits} {site : Site} {s : Settings} {x y : Session W} {k : Handle}

/-! ## Shutting down shows -/

theorem exchanges_traffic {m : Value} {es : List Deed} (h : Exchanges limits m es) :
    ∀ d ∈ es, d.action.IsTraffic := by
  cases h <;> simp [Action.IsTraffic]

theorem Talked.traffic {es : List Deed} (h : Talked limits site s es) : ∀ d ∈ es, d.action.IsTraffic := by
  obtain ⟨hello, requests, rfl, hh, hr⟩ := h
  intro d hd
  rcases List.mem_append.mp hd with hd | hd
  · exact exchanges_traffic hh d hd
  · obtain ⟨rs, hm, hd⟩ := List.mem_flatten.mp hd
    obtain ⟨id, p, src, he⟩ := hr rs hm
    exact exchanges_traffic he d hd

theorem shuts_begins {es : List Deed} {r : Except Fault Unit} (h : Shuts es r) :
    ∃ d ∈ es, ¬ d.action.IsTraffic := by
  have ha : ∀ {fs q}, Awaits fs q → ∃ d ∈ fs, ¬ d.action.IsTraffic := by
    intro fs q hf
    cases hf <;> exact ⟨_, List.mem_cons_self, id⟩
  cases h with
  | «open» hi => cases hi; exact ⟨_, List.mem_cons_self, id⟩
  | unended _ h2 _ =>
    obtain ⟨d, hd, hn⟩ := ha h2
    exact ⟨d, List.mem_append_right _ hd, hn⟩
  | whole _ h2 _ _ _ =>
    obtain ⟨d, hd, hn⟩ := ha h2
    exact ⟨d, List.mem_append_left _ (List.mem_append_right _ hd), hn⟩

theorem Ended.not_talked {es : List Deed} (h : Ended limits site s es) : ¬ Talked limits site s es := by
  obtain ⟨talk, ending, r, rfl, -, hs⟩ := h
  obtain ⟨d, hd, hn⟩ := shuts_begins hs
  exact fun ht => hn (ht.traffic d (List.mem_append_right _ hd))

/-! ## One call -/

structure Placed (limits : Limits) (site : Site) (s : Settings) (x : Session W) : Prop where
  started : ∀ k ∈ x.registered, k < x.state.world.handles.length
  replaced : ∀ k ∈ x.replaced, k ∈ x.registered ∧ x.compiler.process ≠ some k ∧
    Talked limits site s (x.state.world.course k)
  ended : ∀ k ∈ x.registered, k ∉ x.replaced → x.compiler.process ≠ some k →
    Ended limits site s (x.state.world.course k)

theorem Placed.start (limits : Limits) (site : Site) (s : Settings) (w : W) :
    Placed limits site s (.start s w) where
  started _ hk := absurd hk List.not_mem_nil
  replaced _ hk := absurd hk List.not_mem_nil
  ended _ hk := absurd hk List.not_mem_nil

theorem Placed.frame (hp : Placed limits site s x)
    (hc : ∀ j ∈ x.registered, x.compiler.process ≠ some j →
      y.state.world.course j = x.state.world.course j)
    (hlen : x.state.world.handles.length ≤ y.state.world.handles.length)
    (hr : y.registered = x.registered) (ho : y.replaced = x.replaced)
    (hheld : y.compiler.process = x.compiler.process ∨ y.compiler.process = none ∧
      ∀ k, x.compiler.process = some k → Ended limits site s (y.state.world.course k)) :
    Placed limits site s y where
  started k hk := Nat.lt_of_lt_of_le (hp.started k (hr ▸ hk)) hlen
  replaced k hk := by
    obtain ⟨h1, h2, h3⟩ := hp.replaced k (ho ▸ hk)
    refine ⟨hr ▸ h1, ?_, hc k h1 h2 ▸ h3⟩
    rcases hheld with h | ⟨h, -⟩
    · rwa [h]
    · rw [h]
      nofun
  ended k hk hn hne := by
    rw [hr] at hk
    rw [ho] at hn
    by_cases hx : x.compiler.process = some k
    · rcases hheld with h | ⟨-, h⟩
      · exact absurd (h.trans hx) hne
      · exact h k hx
    · rw [hc k hk hx]
      exact hp.ended k hk hn hx

theorem Effect.placed (he : Effect limits site x y) (hx : Kept limits site s x)
    (hp : Placed limits site s x) : Placed limits site s y := by
  have hother : ∀ {es : List Deed}, Began es x.state.world y.state.world →
      ∀ j ∈ x.registered, y.state.world.course j = x.state.world.course j := fun hu j hj =>
    Child.Annals.course_other hu.deeds (Nat.ne_of_lt (hp.started j hj))
  have hdid : ∀ {k : Handle} {es : List Deed}, x.compiler.process = some k →
      Did k es x.state.world y.state.world → ∀ j, x.compiler.process ≠ some j →
      y.state.world.course j = x.state.world.course j := fun hk hu j hj =>
    Child.Annals.course_other hu.deeds fun h => hj (h ▸ hk)
  cases he with
  | idle hproc hs hn hd hh hr ho =>
    exact hp.frame (fun j _ _ => Child.Annals.course_congr hd) (Nat.le_of_eq (by rw [hh])) hr ho
      (.inl hproc)
  | failed hu he hf hc hr ho =>
    exact hp.frame (fun j hj _ => hother hu j hj) (by rw [hu.handles]; exact Nat.le_succ _) hr ho
      (.inl (by rw [hc]))
  | @registered es version hu he hc hr ho =>
    have hnew : y.compiler.process = some x.state.world.handles.length := by rw [hc]
    -- The process that was held, if any, is replaced.
    have hold : ∀ k, k ∈ y.replaced ↔ x.compiler.process = some k ∨ k ∈ x.replaced := by
      intro k
      rw [ho, List.mem_append, Option.mem_toList]
    have hmem : ∀ k, k ∈ y.registered ↔ k = x.state.world.handles.length ∨ k ∈ x.registered := by
      intro k
      rw [hr, List.mem_cons]
    refine ⟨?_, ?_, ?_⟩
    · intro k hk
      rw [hu.handles]
      rcases (hmem k).mp hk with rfl | hk
      · exact Nat.lt_succ_self _
      · exact Nat.lt_succ_of_lt (hp.started k hk)
    · intro k hk
      have hreg : k ∈ x.registered ∧ Talked limits site s (x.state.world.course k) := by
        rcases (hold k).mp hk with hk | hk
        · obtain ⟨-, ht, hhead⟩ := hx.held k hk
          exact ⟨List.mem_of_mem_head? hhead, ht⟩
        · exact ⟨(hp.replaced k hk).1, (hp.replaced k hk).2.2⟩
      refine ⟨(hmem k).mpr (.inr hreg.1), ?_, hother hu k hreg.1 ▸ hreg.2⟩
      rw [hnew]
      intro h
      exact Nat.ne_of_gt (hp.started k hreg.1) (Option.some.inj h)
    · intro k hk hn hne
      rcases (hmem k).mp hk with rfl | hk
      · exact absurd hnew hne
      · rw [hother hu k hk]
        exact hp.ended k hk (fun h => hn ((hold k).mpr (.inr h)))
          fun h => hn ((hold k).mpr (.inl h))
  | asked hk hu he hc hr ho =>
    exact hp.frame (fun j _ hj => hdid hk hu j hj) (Nat.le_of_eq (by rw [hu.handles])) hr ho
      (.inl (by rw [hc]))
  | @lost k p src es fs r hk hu he hf hc hr ho =>
    refine hp.frame (fun j _ hj => hdid hk hu j hj) (Nat.le_of_eq (by rw [hu.handles])) hr ho
      (.inr ⟨by rw [hc], fun j hj => ?_⟩)
    obtain rfl : k = j := Option.some.inj (hk.symm.trans hj)
    rw [Child.Annals.course_self hu.deeds, ← List.append_assoc]
    exact ((hx.held k hk).2.1.next he).end hf
  | @closed k fs r hk hu hf hc hr ho =>
    refine hp.frame (fun j _ hj => hdid hk hu j hj) (Nat.le_of_eq (by rw [hu.handles])) hr ho
      (.inr ⟨by rw [hc], fun j hj => ?_⟩)
    obtain rfl : k = j := Option.some.inj (hk.symm.trans hj)
    rw [Child.Annals.course_self hu.deeds]
    exact (hx.held k hk).2.1.end hf

/-! ## Runs -/

theorem run_placed (ops : ChildOps W) (cs : List (Call W)) (hx : Kept ops.limits site s x)
    (hp : Placed ops.limits site s x) : Placed ops.limits site s (run ops site cs x) := by
  induction cs generalizing x with
  | nil => exact hp
  | cons call cs ih =>
    have he := perform_effect ops site x call
    exact ih (he.kept hx) (he.placed hx hp)

theorem perform_replaced (ops : ChildOps W) (site : Site) (x : Session W) (call : Call W) :
    (perform ops site x call).replaced = x.replaced ∨
      call = .register ∧ ∃ k, x.compiler.process = some k ∧
        (annals ops).isRunning k x.state.world = false ∧
        (register (annals ops) site x.compiler x.state).1 = .ok () ∧
        (perform ops site x call).replaced = k :: x.replaced := by
  cases call with
  | compile path source => exact .inl rfl
  | close => exact .inl rfl
  | elapse change => exact .inl rfl
  | register =>
    rcases e : register (annals ops) site x.compiler x.state with ⟨r, c, l⟩
    simp only [perform, e]
    cases r with
    | error f => exact .inl rfl
    | ok u =>
      cases hk : x.compiler.process with
      | none => exact .inl rfl
      | some k =>
        refine .inr ⟨trivial, k, rfl, ?_, rfl, rfl⟩
        cases hn : (annals ops).isRunning k x.state.world with
        | false => rfl
        | true =>
          simp only [register, isRegistered, hk, hn, if_true] at e
          cases e

/-- A registered process is accounted for if it is held, or if shutting it down was started once. -/
def Accounted (limits : Limits) (site : Site) (s : Settings) (x : Session W) (k : Handle) : Prop :=
  x.compiler.process = some k ∧ Talked limits site s (x.state.world.course k) ∨
    x.compiler.process ≠ some k ∧ Ended limits site s (x.state.world.course k)

theorem Placed.accounted (hp : Placed limits site s x) (hx : Kept limits site s x) (hk : k ∈ x.registered) :
    Accounted limits site s x k ↔ k ∉ x.replaced := by
  constructor
  · rintro (⟨hheld, -⟩ | ⟨-, he⟩) hr
    · exact (hp.replaced k hr).2.1 hheld
    · exact he.not_talked (hp.replaced k hr).2.2
  · intro hn
    by_cases hheld : x.compiler.process = some k
    · exact .inl ⟨hheld, (hx.held k hheld).2.1⟩
    · exact .inr ⟨hheld, hp.ended k hk hn hheld⟩

/-- After any calls, exactly the registered processes that were not replaced are accounted for. One
that was replaced is neither held nor was anything done to shut it down; it had ended by itself when
the compiler was registered again. -/
theorem run_accounted (ops : ChildOps W) (site : Site) (s : Settings) (w : W)
    (cs : List (Call W)) :
    let x := run ops site cs (.start s w)
    (∀ k ∈ x.registered, Accounted ops.limits site s x k ↔ k ∉ x.replaced) ∧
    (∀ k ∈ x.replaced, k ∈ x.registered ∧ x.compiler.process ≠ some k ∧
      ∀ d ∈ x.state.world.course k, d.action.IsTraffic) ∧
    ∀ call, (perform ops site x call).replaced = x.replaced ∨
      call = .register ∧ ∃ k, x.compiler.process = some k ∧
        (annals ops).isRunning k x.state.world = false ∧
        (register (annals ops) site x.compiler x.state).1 = .ok () ∧
        (perform ops site x call).replaced = k :: x.replaced := by
  have hx := run_kept ops cs (Kept.start ops.limits site s w)
  have hp := run_placed ops cs (Kept.start ops.limits site s w) (Placed.start ops.limits site s w)
  refine ⟨fun k hk => hp.accounted hx hk, fun k hk => ?_, perform_replaced ops site _⟩
  obtain ⟨h1, h2, h3⟩ := hp.replaced k hk
  exact ⟨h1, h2, h3.traffic⟩

/-! ### A process that ended by itself -/

/-- Two processes that answer the handshake. -/
def twice : Child.Script := .ofPlans [ready, ready] 1
where
  ready : Child.Plan := .run ⟨["\x7b\"status\": \"ready\"\x7d\n"], some 0, [], true, true⟩

/-- A compiler whose process ended by itself, and that was registered again. -/
def reregistered : Session Child.Script :=
  run (Child.Script.ops .usual) ⟨"/", "/worker.js"⟩
    [.register, .elapse (Child.Script.die 0), .register] (.start .default twice)

/-- The first process was registered, and is not accounted for. -/
theorem reregistered_unaccounted :
    0 ∈ reregistered.registered ∧ ¬ Accounted .usual ⟨"/", "/worker.js"⟩ .default reregistered 0 := by
  have hreg : reregistered.registered = [1, 0] := by cbv
  have hrep : reregistered.replaced = [0] := by cbv
  have hx := run_kept (Child.Script.ops .usual) [.register, .elapse (Child.Script.die 0), .register]
    (Kept.start .usual ⟨"/", "/worker.js"⟩ .default twice)
  have hp := run_placed (Child.Script.ops .usual) [.register, .elapse (Child.Script.die 0), .register]
    (Kept.start .usual ⟨"/", "/worker.js"⟩ .default twice)
    (Placed.start .usual ⟨"/", "/worker.js"⟩ .default twice)
  have hmem : 0 ∈ reregistered.registered := hreg ▸ List.mem_cons_of_mem _ List.mem_cons_self
  refine ⟨hmem, fun ha => ?_⟩
  exact (hp.accounted hx hmem).mp ha (hrep ▸ List.mem_cons_self)

end ConfigLoader.Discipline
