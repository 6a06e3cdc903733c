import ConfigLoader.ConfigFile
import ConfigLoader.Proofs.Compiler.Traffic
import ConfigLoader.Proofs.Loader.Call

/-! # The life of a loader's slot

A loader of modules holds nothing, a compiler with its process, or a compiler that lost its process.
Loads, closes and whatever processes do by themselves move it between these phases. The traced world
tells which processes each move starts and acts on.
-/
namespace ConfigLoader.Recovery
open Child (Handle Event Traced traced Respected)
open Child.Traced (Adds)
open Compiler (Site)
variable {W : Type}

abbrev Host (W : Type) := Loader (Traced W) Compiler

/-- The log of a loader apart: its slot, and the world of its processes. -/
abbrev Scene (W : Type) := Option Compiler × Traced W

inductive Phase
  | empty
  /-- The compiler holds a process. -/
  | live (h : Handle)
  /-- The compiler lost its process. -/
  | dead
  deriving DecidableEq

def phase (a : Scene W) : Phase :=
  match a.1 with
  | none => .empty
  | some c =>
    match c.process with
    | some h => .live h
    | none => .dead

/-! ## Moves -/

inductive Move (W : Type)
  /-- Loads a file by the standard table. -/
  | load (tree : FileTree) (path : Text)
  /-- Calls the loader of modules itself. -/
  | call (path content : Value)
  | close
  /-- Processes do something by themselves, such as ending. -/
  | elapse (change : W → W)

/-- What a move asks the loader of modules to load. -/
def Move.request? : Move W → Option (Value × Value)
  | .load tree path =>
    match ConfigFile.open? ConfigFile.standardTable tree path with
    | .ok ⟨p, content, .typescript⟩ => some (.text p, .text content)
    | _ => none
  | .call path content => some (path, content)
  | .close | .elapse _ => none

def Move.perform (ops : ChildOps W) (site : Site) (s : Settings) :
    Move W → Host W → Except Fault Value × Host W
  | .load tree path, l =>
    let service := Compiler.service (traced ops) site s
    let (r, l) := ConfigFile.loadStandard ops.limits service tree path l
    (r.map (·.value), l)
  | .call path content, l => l.call (Compiler.service (traced ops) site s) path content
  | .close, l =>
    let (r, l) := l.close (Compiler.service (traced ops) site s)
    (r.map fun _ => .null, l)
  | .elapse change, l =>
    let t := l.state.world
    (.ok .null, { l with state := { l.state with world := { t with world := change t.world } } })

def run (ops : ChildOps W) (site : Site) (s : Settings) : List (Move W) → Host W → Host W
  | [], l => l
  | m :: ms, l => run ops site s ms (m.perform ops site s l).2

theorem run_append (ops : ChildOps W) (site : Site) (s : Settings) (ms ns : List (Move W))
    (l : Host W) :
    run ops site s (ms ++ ns) l = run ops site s ns (run ops site s ms l) := by
  induction ms generalizing l with
  | nil => rfl
  | cons m ms ih => exact ih (m.perform ops site s l).2

/-! ## What a move may do -/

def registration (ops : ChildOps W) (site : Site) (s : Settings) (t : Traced W) :
    Except Fault Unit :=
  (Compiler.register (traced ops) site (Compiler.new s) (Logged.start t)).1

def StartsOne (site : Site) (s : Settings) (h : Handle) (t u : Traced W) : Prop :=
  ∃ es, u.events = es ++ .start (Compiler.workerCommand site s) :: t.events ∧ ∀ e ∈ es, e.IsOn h

/-- Nothing is started, and nothing but a process is acted on. -/
def ActsOn (h : Handle) (t u : Traced W) : Prop := Adds (Event.IsOn h) t u

/-- The exchange of a request with the held process breaks: a pipe ends or fails. -/
def Breaks (ops : ChildOps W) (site : Site) (path content : Value) (a : Scene W) : Prop :=
  ∃ c, a.1 = some c ∧ Loader.unsized content = none ∧
    Compiler.Breaks (traced ops) site path content c a.2

inductive Answers (ops : ChildOps W) (site : Site) (s : Settings) (path content : Value) :
    Scene W → Except Fault Value → Scene W → Prop
  | refused {a b : Scene W} {f : Fault} {h : Handle} (ha : phase a = .empty)
      (hr : registration ops site s a.2 = .error f) (hs : StartsOne site s h a.2 b.2)
      (hb : phase b = .empty) : Answers ops site s path content a (.error f.reported) b
  | started {a m b : Scene W} {h : Handle} {r : Except Fault Value} (ha : phase a = .empty)
      (hr : registration ops site s a.2 = .ok ()) (hs : StartsOne site s h a.2 m.2)
      (hm : phase m = .live h) (hb : Answers ops site s path content m r b) :
      Answers ops site s path content a r b
  | kept {a b : Scene W} {h : Handle} {r : Except Fault Value} (ha : phase a = .live h)
      (hk : ¬ Breaks ops site path content a) (hs : ActsOn h a.2 b.2) (hb : phase b = .live h) :
      Answers ops site s path content a r b
  | lost {a b : Scene W} {h : Handle} {f : Fault} (ha : phase a = .live h)
      (hk : Breaks ops site path content a) (hs : ActsOn h a.2 b.2) (hb : phase b = .dead) :
      Answers ops site s path content a (.error f) b
  | stopped {a : Scene W} (ha : phase a = .dead) :
      Answers ops site s path content a
        (.error ((Loader.unsized content).getD Compiler.notRegistered).reported) a

def Move.Allowed (ops : ChildOps W) (site : Site) (s : Settings) (m : Move W) (a : Scene W)
    (r : Except Fault Value) (b : Scene W) : Prop :=
  match m.request? with
  | some (path, content) => Answers ops site s path content a r b
  | none =>
    match m with
    | .load .. | .call .. => b = a
    | .close =>
      phase b = .empty ∧ (∀ h, phase a = .live h → ActsOn h a.2 b.2) ∧
        ((∀ h, phase a ≠ .live h) → b.2.events = a.2.events ∧ r = .ok .null)
    | .elapse _ => b.1 = a.1 ∧ b.2.events = a.2.events

/-! ## One move -/

section Requests
variable {ops : ChildOps W} {site : Site} {s : Settings} {path content : Value}

theorem register_outcome (ops : ChildOps W) (site : Site) (c : Compiler) (l k : Logged W)
    (hk : l.world = k.world) :
    (Compiler.register ops site c l).1 = (Compiler.register ops site c k).1 := by
  unfold Compiler.register
  rw [hk]
  split
  · rfl
  · rcases Compiler.greet ops site c.settings k.world with ⟨r, w⟩
    cases r <;> rfl

theorem greet_startsOne (ops : ChildOps W) (site : Site) (s : Settings) (t : Traced W) :
    ∃ h, StartsOne site s h t (Compiler.greet (traced ops) site s t).2 ∧
      ∀ k v, (Compiler.greet (traced ops) site s t).1 = .ok (k, v) → k = h := by
  have h0 := Child.Traced.start_events ops (Compiler.workerCommand site s) t
  rcases Compiler.greet_cases (traced ops) site s t with
    ⟨f, u, hs, ⟨g, hg⟩, hu⟩ | ⟨h, u, hs, hu, hk⟩
  · rw [hs] at h0
    refine ⟨0, ⟨[], ?_, by simp⟩, ?_⟩
    · rw [hu]
      exact h0
    · intro k v hk
      rw [hg] at hk
      cases hk
  · rw [hs] at h0
    obtain ⟨es, he, hp⟩ := hu _ (Child.Traced.adds_respected ops h)
    refine ⟨h, ⟨es, ?_, hp⟩, hk⟩
    rw [he, show u.events = _ from h0]

/-- Building a compiler is its registration: one process is started, and held if all went well. -/
theorem create_cases (ops : ChildOps W) (site : Site) (s : Settings) (l : Logged (Traced W)) :
    (∃ f k h, (Compiler.service (traced ops) site s).create l = (.error f, k) ∧
      registration ops site s l.world = .error f ∧ StartsOne site s h l.world k.world) ∨
    ∃ c k h, (Compiler.service (traced ops) site s).create l = (.ok c, k) ∧
      registration ops site s l.world = .ok () ∧ c.process = some h ∧
      StartsOne site s h l.world k.world := by
  have hl := register_outcome (traced ops) site (Compiler.new s) l (Logged.start l.world) rfl
  obtain ⟨h, hs, hh⟩ := greet_startsOne ops site s l.world
  rcases e : Compiler.register (traced ops) site (Compiler.new s) l with ⟨r, c, k⟩
  have hn : (Compiler.new s).isRegistered (traced ops) l.world = false := rfl
  have hr := Compiler.register_cases hn site
  rw [e] at hr hl
  rcases hr with ⟨f, rfl, -, -, hk⟩ | ⟨h', v, rfl, hg, hc, hk⟩
  · refine .inl ⟨f, k, h, ?_, hl.symm, ?_⟩
    · simp only [Compiler.service, e, Except.map]
    · rwa [show k.world = _ from hk]
  · refine .inr ⟨c, k, h, ?_, hl.symm, ?_, ?_⟩
    · simp only [Compiler.service, e, Except.map]
    · rw [show c = _ from hc, hh h' v hg]
    · rwa [show k.world = _ from hk]

variable (ops site s path content) in
/-- A compiler that holds a process uses this one alone, and loses it exactly when the exchange
breaks. -/
theorem ask_live {c : Compiler} {l : Host W} {h : Handle} (hl : l.slot = some c)
    (hc : c.process = some h) :
    ActsOn h l.state.world
      (Loader.ask (Compiler.service (traced ops) site s) path content c l).2.state.world ∧
    (Breaks ops site path content l.scene →
      phase (Loader.ask (Compiler.service (traced ops) site s) path content c l).2.scene = .dead ∧
      ∃ f, (Loader.ask (Compiler.service (traced ops) site s) path content c l).1 = .error f) ∧
    (¬ Breaks ops site path content l.scene →
      phase (Loader.ask (Compiler.service (traced ops) site s) path content c l).2.scene =
        .live h) := by
  have hp : phase l.scene = .live h := by simp only [phase, Loader.scene, hl, hc]
  unfold Loader.ask
  cases hn : Loader.contentLength content with
  | error f =>
    refine ⟨Adds.refl _ _, ?_, fun _ => hp⟩
    rintro ⟨-, -, hu, -⟩
    simp only [Loader.unsized, hn, reduceCtorEq] at hu
  | ok n =>
    have hu : Loader.unsized content = none := by simp only [Loader.unsized, hn]
    have hb : Breaks ops site path content l.scene ↔
        Compiler.Breaks (traced ops) site path content c l.state.world := by
      constructor
      · rintro ⟨d, hd, -, hx⟩
        obtain rfl : c = d := Option.some.inj (hl.symm.trans hd)
        exact hx
      · intro hx
        exact ⟨c, hl, hu, hx⟩
    rw [hb]
    dsimp only
    generalize hq : l.note .debug _ = q
    have hw : q.state.world = l.state.world := by rw [← hq]; rfl
    rw [← hw]
    obtain ⟨h1, h2, h3⟩ :=
      Compiler.compile_held (traced ops) site path content c q.state hc
    rcases e : Compiler.compile (traced ops) site path content c q.state with ⟨r, d, k⟩
    rw [e] at h1 h2 h3
    have hs : (Compiler.service (traced ops) site s).compile path content c q.state = (r, d, k) := e
    simp only [hs]
    refine ⟨h1 _ (Child.Traced.adds_respected ops h), ?_, ?_⟩
    · intro hx
      obtain ⟨hd, hf⟩ := h2 hx
      exact ⟨by simp only [phase, Loader.scene, show d.process = none from hd], hf⟩
    · intro hx
      simp only [phase, Loader.scene, show d.process = some h from h3 hx]

theorem ask_answers {c : Compiler} {l : Host W} (hl : l.slot = some c) :
    Answers ops site s path content l.scene
      (Loader.answer (Loader.ask (Compiler.service (traced ops) site s) path content c l).1)
      (Loader.ask (Compiler.service (traced ops) site s) path content c l).2.scene := by
  cases hc : c.process with
  | none =>
    have hp : phase l.scene = .dead := by simp only [phase, Loader.scene, hl, hc]
    obtain ⟨h1, h2⟩ := Loader.ask_dead (traced ops) site s path content hl hc
    rw [h1, h2]
    exact .stopped hp
  | some h =>
    have hp : phase l.scene = .live h := by simp only [phase, Loader.scene, hl, hc]
    obtain ⟨h1, h2, h3⟩ := ask_live ops site s path content hl hc
    by_cases hb : Breaks ops site path content l.scene
    · obtain ⟨hd, f, hf⟩ := h2 hb
      rw [hf]
      exact .lost hp hb h1 hd
    · exact .kept hp hb h1 (h3 hb)

theorem call_answers (ops : ChildOps W) (site : Site) (s : Settings) (path content : Value)
    (l : Host W) :
    Answers ops site s path content l.scene
      (l.call (Compiler.service (traced ops) site s) path content).1
      (l.call (Compiler.service (traced ops) site s) path content).2.scene := by
  obtain ⟨h1, h2⟩ := l.call_attempt (Compiler.service (traced ops) site s) path content
  rw [h1, h2]
  cases hl : l.slot with
  | some c =>
    rw [Loader.attempt_held _ _ _ hl]
    exact ask_answers hl
  | none =>
    have hp : phase l.scene = .empty := by simp only [phase, Loader.scene, hl]
    rcases create_cases ops site s (l.note .info "Creating compiler service").state with
      ⟨f, k, h, hc, hr, hs⟩ | ⟨c, k, h, hc, hr, hh, hs⟩
    · rw [Loader.attempt_refused _ _ _ hl hc]
      exact .refused hp hr hs rfl
    · rw [Loader.attempt_created _ _ _ hl hc]
      have hm : phase (some c, k.world) = .live h := by simp only [phase, hh]
      exact .started hp hr hs hm (ask_answers (l := ⟨some c, k⟩) rfl)

end Requests

/-- Closing acts on the held process alone, and always empties the slot. -/
theorem close_empties (ops : ChildOps W) (site : Site) (s : Settings) (l : Host W) :
    phase (l.close (Compiler.service (traced ops) site s)).2.scene = .empty ∧
    (∀ h, phase l.scene = .live h →
      ActsOn h l.state.world (l.close (Compiler.service (traced ops) site s)).2.state.world) ∧
    ((∀ h, phase l.scene ≠ .live h) →
      (l.close (Compiler.service (traced ops) site s)).2.state = l.state ∧
      (l.close (Compiler.service (traced ops) site s)).1 = .ok ()) := by
  unfold Loader.close
  cases hl : l.slot with
  | none =>
    have hp : phase l.scene = .empty := by simp only [phase, Loader.scene, hl]
    refine ⟨hp, ?_, fun _ => ⟨rfl, rfl⟩⟩
    intro h hh
    rw [hp] at hh
    cases hh
  | some c =>
    cases hc : c.process with
    | none =>
      have hp : phase l.scene = .dead := by simp only [phase, Loader.scene, hl, hc]
      simp only [Compiler.service, Compiler.close, hc]
      refine ⟨rfl, ?_, fun _ => ⟨trivial, trivial⟩⟩
      intro h hh
      rw [hp] at hh
      cases hh
    | some h =>
      have hp : phase l.scene = .live h := by simp only [phase, Loader.scene, hl, hc]
      simp only [Compiler.service, Compiler.close, hc]
      refine ⟨rfl, ?_, fun hh => absurd hp (hh h)⟩
      intro k hk
      obtain rfl : h = k := Phase.live.inj (hp.symm.trans hk)
      exact Compiler.shutdown_respects (Child.Traced.adds_respected ops h) l.state.world

theorem load_scene (ops : ChildOps W) (site : Site) (s : Settings) (tree : FileTree) (path : Text)
    (l : Host W) :
    ((Move.load tree path : Move W).request? = none ∧
      ((Move.load tree path).perform ops site s l).2.scene = l.scene) ∨
    ∃ (p content : Value) (k : Host W),
      (Move.load tree path : Move W).request? = some (p, content) ∧ k.scene = l.scene ∧
        (Move.load tree path).perform ops site s l =
          k.call (Compiler.service (traced ops) site s) p content := by
  cases ho : ConfigFile.open? ConfigFile.standardTable tree path with
  | error f =>
    left
    simp only [Move.request?, Move.perform, ConfigFile.loadStandard, ConfigFile.load, ho, and_self]
  | ok q =>
    obtain ⟨p, content, reader⟩ := q
    cases reader with
    | json => exact .inl ⟨by simp only [Move.request?, ho], by
        simp only [Move.perform, ConfigFile.loadStandard, ConfigFile.load, ho,
          ConfigFile.readStandard, Loader.record_scene]⟩
    | yaml => exact .inl ⟨by simp only [Move.request?, ho], by
        simp only [Move.perform, ConfigFile.loadStandard, ConfigFile.load, ho,
          ConfigFile.readStandard, Loader.record_scene]⟩
    | typescript =>
      refine .inr ⟨.text p, .text content, l.record (ConfigFile.loadingRecord p content), ?_, ?_, ?_⟩
      · simp only [Move.request?, ho]
      · exact Loader.record_scene _ l
      · simp only [Move.perform, ConfigFile.loadStandard, ConfigFile.load, ho,
          ConfigFile.readStandard]
        generalize Loader.call _ _ _ _ = x
        obtain ⟨r, k⟩ := x
        cases r <;> rfl

/-! ## Runs -/

theorem perform_allowed (ops : ChildOps W) (site : Site) (s : Settings) (m : Move W)
    (l : Host W) :
    m.Allowed ops site s l.scene (m.perform ops site s l).1 (m.perform ops site s l).2.scene := by
  cases m with
  | load tree path =>
    rcases load_scene ops site s tree path l with ⟨hr, hs⟩ | ⟨p, content, k, hr, hk, hs⟩
    · simp only [Move.Allowed, hr, hs]
    · simp only [Move.Allowed, hr, hs]
      rw [← hk]
      exact call_answers ops site s p content k
  | call path content => exact call_answers ops site s path content l
  | close =>
    obtain ⟨h1, h2, h3⟩ := close_empties ops site s l
    refine ⟨h1, h2, ?_⟩
    intro hh
    obtain ⟨hw, hr⟩ := h3 hh
    refine ⟨congrArg (·.world.events) hw, ?_⟩
    simp only [Move.perform, hr, Except.map]
  | elapse change => exact ⟨rfl, rfl⟩

def starts (t : Traced W) : Nat :=
  t.events.countP fun e => match e with
    | .start _ => true
    | .act _ _ => false

theorem starts_append {t u : Traced W} {h : Handle} {es fs : List Event}
    (hu : u.events = es ++ fs) (hp : ∀ e ∈ es, e.IsOn h) :
    starts u = starts { t with events := fs } := by
  have hz : es.countP (fun e => match e with
      | .start _ => true
      | .act _ _ => false) = 0 := by
    rw [List.countP_eq_zero]
    intro e he
    have hx := hp e he
    cases e with
    | start c => exact hx.elim
    | act k a => exact Bool.false_ne_true
  rw [starts, starts, hu, List.countP_append, hz, Nat.zero_add]

theorem ActsOn.starts_eq {h : Handle} {t u : Traced W} (ha : ActsOn h t u) :
    starts u = starts t := by
  obtain ⟨es, he, hp⟩ := ha
  exact starts_append (t := t) he hp

theorem StartsOne.starts_eq {site : Site} {s : Settings} {h : Handle} {t u : Traced W}
    (ha : StartsOne site s h t u) : starts u = starts t + 1 := by
  obtain ⟨es, he, hp⟩ := ha
  rw [starts_append (t := t) he hp]
  exact List.countP_cons_of_pos rfl

/-- A request starts a process exactly when it finds the slot empty. -/
theorem Answers.starts_eq {ops : ChildOps W} {site : Site} {s : Settings} {path content : Value}
    {a b : Scene W} {r : Except Fault Value} (h : Answers ops site s path content a r b) :
    starts b.2 = starts a.2 + (phase a == .empty).toNat := by
  induction h with
  | refused ha _ hs _ => rw [hs.starts_eq, ha]; rfl
  | started ha _ hs hm _ ih => rw [ih, hs.starts_eq, ha, hm]; rfl
  | kept ha _ hs _ => rw [hs.starts_eq, ha]; rfl
  | lost ha _ hs _ => rw [hs.starts_eq, ha]; rfl
  | stopped ha => rw [ha]; rfl

def Move.opens (m : Move W) (a : Scene W) : Bool := m.request?.isSome && phase a == .empty

theorem Move.Allowed.starts_eq {ops : ChildOps W} {site : Site} {s : Settings} {m : Move W}
    {a b : Scene W} {r : Except Fault Value} (h : m.Allowed ops site s a r b) :
    starts b.2 = starts a.2 + (m.opens a).toNat := by
  unfold Move.Allowed at h
  cases hq : m.request? with
  | some q =>
    rw [hq] at h
    simp only [Move.opens, hq, Option.isSome_some, Bool.true_and]
    exact h.starts_eq
  | none =>
    rw [hq] at h
    simp only [Move.opens, hq, Option.isSome_none, Bool.false_and, Bool.toNat_false, Nat.add_zero]
    cases m with
    | load tree path => rw [show b = a from h]
    | call path content => rw [show b = a from h]
    | elapse change => exact congrArg (List.countP _) h.2
    | close =>
      obtain ⟨-, hl, hn⟩ := h
      cases hp : phase a with
      | live k => exact (hl k hp).starts_eq
      | empty => exact congrArg (List.countP _) (hn (by simp [hp])).1
      | dead => exact congrArg (List.countP _) (hn (by simp [hp])).1

/-- The number of moves of a run that find the slot empty and have to fill it. -/
def openings (ops : ChildOps W) (site : Site) (s : Settings) : List (Move W) → Host W → Nat
  | [], _ => 0
  | m :: ms, l => (m.opens l.scene).toNat + openings ops site s ms (m.perform ops site s l).2

theorem run_starts (ops : ChildOps W) (site : Site) (s : Settings) (ms : List (Move W))
    (l : Host W) :
    starts (run ops site s ms l).state.world =
      starts l.state.world + openings ops site s ms l := by
  induction ms generalizing l with
  | nil => rfl
  | cons m ms ih =>
    have hm : starts (m.perform ops site s l).2.state.world = _ :=
      (perform_allowed ops site s m l).starts_eq
    rw [run, openings, ih, hm]
    simp only [Loader.scene]
    omega

theorem Move.Allowed.dead {ops : ChildOps W} {site : Site} {s : Settings} {m : Move W}
    {a b : Scene W} {r : Except Fault Value} (h : m.Allowed ops site s a r b)
    (ha : phase a = .dead) (hm : m ≠ .close) :
    phase b = .dead ∧ b.2.events = a.2.events ∧
      ∀ p content, m.request? = some (p, content) →
        r = .error ((Loader.unsized content).getD Compiler.notRegistered).reported := by
  unfold Move.Allowed at h
  cases hq : m.request? with
  | some q =>
    rw [hq] at h
    obtain ⟨p, content⟩ := q
    cases h with
    | refused hx | started hx | kept hx | lost hx =>
      rw [ha] at hx
      cases hx
    | stopped =>
      refine ⟨ha, rfl, ?_⟩
      rintro _ _ ⟨⟩
      rfl
  | none =>
    rw [hq] at h
    cases m with
    | load tree path => rw [show b = a from h]; exact ⟨ha, rfl, by simp⟩
    | call path content => rw [show b = a from h]; exact ⟨ha, rfl, by simp⟩
    | elapse change =>
      refine ⟨?_, h.2, by simp⟩
      rw [← ha, phase, phase, h.1]
    | close => exact absurd rfl hm

theorem run_dead (ops : ChildOps W) (site : Site) (s : Settings) (ms : List (Move W))
    (l : Host W) (hl : phase l.scene = .dead) (hm : .close ∉ ms) :
    phase (run ops site s ms l).scene = .dead ∧
      (run ops site s ms l).state.world.events = l.state.world.events := by
  induction ms generalizing l with
  | nil => exact ⟨hl, rfl⟩
  | cons m ms ih =>
    rw [List.mem_cons, not_or] at hm
    obtain ⟨hd, he, -⟩ := (perform_allowed ops site s m l).dead hl (Ne.symm hm.1)
    obtain ⟨h1, h2⟩ := ih (m.perform ops site s l).2 hd hm.2
    exact ⟨h1, h2.trans he⟩

def reached (ops : ChildOps W) (site : Site) (s : Settings) (w : W) (ms : List (Move W)) :
    Host W := run ops site s ms (.start ⟨w, []⟩)

/-- Over every run of a new loader, each further move does what it may do in its phase, the
processes that were started are as many as the requests that found the slot empty, and a loader that
lost its process does nothing until it is closed. -/
theorem reached_recovers (ops : ChildOps W) (site : Site) (s : Settings) (w : W)
    (ms : List (Move W)) :
    (∀ m : Move W, m.Allowed ops site s (reached ops site s w ms).scene
      (m.perform ops site s (reached ops site s w ms)).1
      (reached ops site s w (ms ++ [m])).scene) ∧
    starts (reached ops site s w ms).state.world =
      openings ops site s ms (.start ⟨w, []⟩) ∧
    (phase (reached ops site s w ms).scene = .dead → ∀ ns, .close ∉ ns →
      phase (reached ops site s w (ms ++ ns)).scene = .dead ∧
      (reached ops site s w (ms ++ ns)).state.world.events =
        (reached ops site s w ms).state.world.events) := by
  refine ⟨?_, ?_, ?_⟩
  · intro m
    rw [reached, reached, run_append]
    exact perform_allowed ops site s m (reached ops site s w ms)
  · rw [reached, run_starts]
    exact Nat.zero_add _
  · intro hd ns hn
    rw [reached, reached, run_append]
    exact run_dead ops site s ns (reached ops site s w ms) hd hn

end ConfigLoader.Recovery
