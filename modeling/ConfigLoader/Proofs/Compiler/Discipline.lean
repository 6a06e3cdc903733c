import ConfigLoader.Proofs.Compiler.Courses
import ConfigLoader.Proofs.Compiler.Frames
import ConfigLoader.Proofs.Compiler.Matching

/-! # What a compiler does with its processes

A compiler is registered, asked and closed in any order, while processes do by themselves what they
do and any action on them fails in any way. Each process goes through a handshake, then requests, and
at most one end; requests go to the process that was registered last, with numbers that only grow.
-/
namespace ConfigLoader.Discipline
open Child (Handle Action Annals Deed annals)
open Child.Annals (Began Did)
open Compiler
open Matching (Call)
variable {W : Type}

/-! ## Courses -/

def Talked (limits : Limits) (site : Site) (s : Settings) (es : List Deed) : Prop :=
  ∃ (hello : List Deed) (requests : List (List Deed)), es = hello ++ requests.flatten ∧
    Exchanges limits (handshake site s) hello ∧
      ∀ rs ∈ requests, ∃ id p src, Exchanges limits (request id p src) rs

/-- A handshake, then requests, and then the end that a compiler makes of a process. -/
def Ended (limits : Limits) (site : Site) (s : Settings) (es : List Deed) : Prop :=
  ∃ talk ending r, es = talk ++ ending ∧ Talked limits site s talk ∧ Shuts ending r

section Courses
variable {limits : Limits} {site : Site} {s : Settings} {es fs : List Deed}

theorem Talked.hello (h : Exchanges limits (handshake site s) es) : Talked limits site s es :=
  ⟨es, [], (List.append_nil es).symm, h, by simp⟩

theorem Talked.next {id : Nat} {p src : Value} (h : Talked limits site s es)
    (hf : Exchanges limits (request id p src) fs) : Talked limits site s (es ++ fs) := by
  obtain ⟨hello, requests, rfl, hh, hr⟩ := h
  refine ⟨hello, requests ++ [fs], ?_, hh, ?_⟩
  · rw [List.flatten_append, List.flatten_singleton, List.append_assoc]
  · intro rs hm
    rcases List.mem_append.mp hm with hm | hm
    · exact hr rs hm
    · rw [List.mem_singleton.mp hm]
      exact ⟨id, p, src, hf⟩

theorem Talked.end {r : Except Fault Unit} (h : Talked limits site s es) (hf : Shuts fs r) :
    Ended limits site s (es ++ fs) :=
  ⟨es, fs, r, rfl, h, hf⟩

end Courses

/-! ## Numbers -/

def requestOf (d : Deed) : Option Nat :=
  match d.action with
  | .write text => requestId? text
  | _ => none

def numbers (t : Annals W) : List Nat := t.deeds.filterMap fun e => requestOf e.2

theorem numbers_added {k : Handle} {es : List Deed} {t u : Annals W}
    (h : u.deeds = (es.map (Prod.mk k)).reverse ++ t.deeds) :
    numbers u = (es.filterMap requestOf).reverse ++ numbers t := by
  rw [numbers, h, List.filterMap_append, List.filterMap_reverse, List.filterMap_map]
  rfl

theorem numbers_request {id : Nat} {p src : Value} {es : List Deed}
    (h : Exchanges limits (request id p src) es) :
    es.filterMap requestOf = [] ∨ es.filterMap requestOf = [id] := by
  cases h with
  | unsent => exact .inl rfl
  | unwritten hm | unflushed hm | unread hm | read hm =>
    right
    simp only [List.filterMap_cons, List.filterMap_nil, requestOf, requestId?_frame hm]

theorem numbers_handshake {site : Site} {s : Settings} {es : List Deed}
    (h : Exchanges limits (handshake site s) es) : es.filterMap requestOf = [] := by
  cases h with
  | unsent => rfl
  | unwritten hm | unflushed hm | unread hm | read hm =>
    simp only [List.filterMap_cons, List.filterMap_nil, requestOf, requestId?_handshake hm]

theorem numbers_shuts {es : List Deed} {r : Except Fault Unit} (h : Shuts es r) :
    es.filterMap requestOf = [] := by
  have hi : ∀ {fs q}, ClosesInput fs q → fs.filterMap requestOf = [] := by
    intro fs q hf
    cases hf <;> rfl
  have ha : ∀ {fs q}, Awaits fs q → fs.filterMap requestOf = [] := by
    intro fs q hf
    cases hf <;> rfl
  have ho : ∀ {fs q}, ClosesOutput fs q → fs.filterMap requestOf = [] := by
    intro fs q hf
    cases hf <;> rfl
  cases h with
  | «open» h1 => exact hi h1
  | unended h1 h2 _ => rw [List.filterMap_append, hi h1, ha h2]; rfl
  | whole h1 h2 h3 _ _ => rw [List.filterMap_append, List.filterMap_append, hi h1, ha h2, ho h3]; rfl

/-! ## Sessions -/

structure Session (W : Type) where
  compiler : Compiler
  state : Logged (Annals W)
  /-- The processes that were registered, the last one first. -/
  registered : List Handle
  /-- The processes that were held when another one was registered. -/
  replaced : List Handle

def Session.start (s : Settings) (w : W) : Session W :=
  ⟨Compiler.new s, .start ⟨w, [], []⟩, [], []⟩

def perform (ops : ChildOps W) (site : Site) (x : Session W) : Call W → Session W
  | .register =>
    let (r, c, l) := register (annals ops) site x.compiler x.state
    match r with
    | .ok _ => ⟨c, l, c.process.toList ++ x.registered, x.compiler.process.toList ++ x.replaced⟩
    | .error _ => ⟨c, l, x.registered, x.replaced⟩
  | .compile path source =>
    let (_, c, l) := compile (annals ops) site path source x.compiler x.state
    { x with compiler := c, state := l }
  | .close =>
    let (_, c, l) := close (annals ops) x.compiler x.state
    { x with compiler := c, state := l }
  | .elapse change =>
    let t := x.state.world
    { x with state := { x.state with world := { t with world := change t.world } } }

def run (ops : ChildOps W) (site : Site) (cs : List (Call W)) (x : Session W) : Session W :=
  cs.foldl (perform ops site) x

/-! ## One call -/

/-- All that a call can do to a compiler and to its processes. -/
inductive Effect (limits : Limits) (site : Site) (x y : Session W) : Prop
  /-- Nothing was done, but a request may have been counted. -/
  | idle (hp : y.compiler.process = x.compiler.process) (hs : y.compiler.settings = x.compiler.settings)
      (hn : x.compiler.lastId ≤ y.compiler.lastId) (hd : y.state.world.deeds = x.state.world.deeds)
      (hh : y.state.world.handles = x.state.world.handles) (hr : y.registered = x.registered)
      (ho : y.replaced = x.replaced)
  /-- A process was started that could not be registered. -/
  | failed {es fs : List Deed} (hu : Began (es ++ fs) x.state.world y.state.world)
      (he : Exchanges limits (handshake site x.compiler.settings) es) (hf : fs = [] ∨ ∃ r, Shuts fs r)
      (hc : y.compiler = x.compiler) (hr : y.registered = x.registered)
      (ho : y.replaced = x.replaced)
  | registered {es : List Deed} {version : Value} (hu : Began es x.state.world y.state.world)
      (he : Exchanges limits (handshake site x.compiler.settings) es)
      (hc : y.compiler = { x.compiler with
        process := some x.state.world.handles.length, version := version })
      (hr : y.registered = x.state.world.handles.length :: x.registered)
      (ho : y.replaced = x.compiler.process.toList ++ x.replaced)
  | asked {k : Handle} {p src : Value} {es : List Deed} (hk : x.compiler.process = some k)
      (hu : Did k es x.state.world y.state.world)
      (he : Exchanges limits (request (x.compiler.lastId + 1) p src) es)
      (hc : y.compiler = { x.compiler with lastId := x.compiler.lastId + 1 })
      (hr : y.registered = x.registered) (ho : y.replaced = x.replaced)
  /-- A request went wrong so that the process was shut down. -/
  | lost {k : Handle} {p src : Value} {es fs : List Deed} {r : Except Fault Unit}
      (hk : x.compiler.process = some k) (hu : Did k (es ++ fs) x.state.world y.state.world)
      (he : Exchanges limits (request (x.compiler.lastId + 1) p src) es) (hf : Shuts fs r)
      (hc : y.compiler = { x.compiler with lastId := x.compiler.lastId + 1, process := none })
      (hr : y.registered = x.registered) (ho : y.replaced = x.replaced)
  | closed {k : Handle} {fs : List Deed} {r : Except Fault Unit}
      (hk : x.compiler.process = some k) (hu : Did k fs x.state.world y.state.world)
      (hf : Shuts fs r) (hc : y.compiler = { x.compiler with process := none })
      (hr : y.registered = x.registered) (ho : y.replaced = x.replaced)

section Effects
variable (ops : ChildOps W) (site : Site) (x : Session W)

theorem Effect.same : Effect ops.limits site x x := .idle rfl rfl (Nat.le_refl _) rfl rfl rfl rfl

theorem register_effect : Effect ops.limits site x (perform ops site x .register) := by
  unfold perform
  cases hn : x.compiler.isRegistered (annals ops) x.state.world with
  | true =>
    simp only [register, hn, if_true]
    exact .same ops site x
  | false =>
    rcases e : register (annals ops) site x.compiler x.state with ⟨r, c, l⟩
    have hr := register_cases hn site
    rw [e] at hr
    rcases es : (annals ops).start (workerCommand site x.compiler.settings) x.state.world with
      ⟨q, t⟩
    cases q with
    | error f =>
      obtain ⟨hd, hh⟩ := Child.Annals.start_error es
      rcases greet_cases (annals ops) site x.compiler.settings x.state.world with
        ⟨f', t', hs, ⟨g, hg⟩, ht⟩ | ⟨h, t', hs, -⟩
      · rw [es] at hs
        cases hs
        rcases hr with ⟨f'', rfl, -, rfl, hl⟩ | ⟨h, v, -, hg', -, -⟩
        · have hw : l.world = t := hl.trans ht
          subst hw
          exact .idle rfl rfl (Nat.le_refl _) hd hh rfl rfl
        · rw [hg] at hg'
          cases hg'
      · rw [es] at hs
        cases hs
    | ok h =>
      obtain ⟨rfl, hb⟩ := Child.Annals.start_ok es
      obtain ⟨ds, hds, hx⟩ := exchange_did ops x.state.world.handles.length
        (handshake site x.compiler.settings) t
      -- Either nothing follows the handshake, or the process is shut down and the start fails.
      rcases greet_started es with ⟨hw, hk⟩ | ⟨⟨f, hf⟩, hw⟩
      · rw [← hw] at hds
        rcases hr with ⟨f, rfl, -, rfl, hl⟩ | ⟨h, v, rfl, hg, rfl, hl⟩
        · rw [← show l.world = _ from hl] at hds
          have hu : Began (ds ++ []) x.state.world l.world :=
            hb.trans (hds.trans (.refl _ _))
          exact .failed hu hx (.inl rfl) rfl rfl rfl
        · rw [← show l.world = _ from hl] at hds
          obtain rfl := hk h v hg
          have hu : Began ds x.state.world l.world := hb.trans hds
          exact .registered hu hx rfl rfl rfl
      · obtain ⟨fs, hfs, hsh⟩ := shutdown_did ops x.state.world.handles.length
          (exchange (annals ops) x.state.world.handles.length
            (handshake site x.compiler.settings) t).2
        rw [← hw] at hfs
        rcases hr with ⟨g, rfl, -, rfl, hl⟩ | ⟨h, v, rfl, hg, rfl, hl⟩
        · rw [← show l.world = _ from hl] at hfs
          have hu : Began (ds ++ fs) x.state.world l.world := hb.trans (hds.trans hfs)
          exact .failed hu hx (.inr ⟨_, hsh⟩) rfl rfl rfl
        · rw [hf] at hg
          cases hg

theorem compile_effect (path source : Value) :
    Effect ops.limits site x (perform ops site x (.compile path source)) := by
  cases hc : x.compiler.process with
  | none =>
    simp only [perform, compile_unheld _ _ _ _ _ _ hc]
    exact .same ops site x
  | some k =>
    rcases e : compile (annals ops) site path source x.compiler x.state with ⟨r, c, l⟩
    simp only [perform, e]
    have hx := compile_exchanged (annals ops) site path source x.state hc
    rw [e] at hx
    rcases hx with ⟨f, -, hx⟩ | ⟨p, -, hx⟩
    · cases hx
      exact .idle rfl rfl (Nat.le_succ _) rfl rfl rfl rfl
    · obtain ⟨es, hes, he⟩ := exchange_did ops k (request (x.compiler.lastId + 1) p source)
        x.state.world
      rcases hx with ⟨rfl, hl⟩ | ⟨rfl, hl⟩
      · rw [← show l.world = _ from hl] at hes
        exact .asked hc hes he rfl rfl rfl
      · obtain ⟨fs, hfs, hsh⟩ := shutdown_did ops k
          (exchange (annals ops) k (request (x.compiler.lastId + 1) p source) x.state.world).2
        rw [← show l.world = _ from hl] at hfs
        exact .lost hc (hes.trans hfs) he hsh rfl rfl rfl

theorem close_effect : Effect ops.limits site x (perform ops site x .close) := by
  unfold perform
  cases hc : x.compiler.process with
  | none =>
    simp only [close, hc]
    exact .same ops site x
  | some k =>
    obtain ⟨fs, hfs, hsh⟩ := shutdown_did ops k x.state.world
    simp only [close, hc, Logged.note_world]
    exact .closed hc hfs hsh rfl rfl rfl

theorem perform_effect (call : Call W) : Effect ops.limits site x (perform ops site x call) := by
  cases call with
  | register => exact register_effect ops site x
  | compile path source => exact compile_effect ops site x path source
  | close => exact close_effect ops site x
  | elapse change => exact .idle rfl rfl (Nat.le_refl _) rfl rfl rfl rfl

end Effects

/-! ## Runs -/

/-- What holds of a compiler and its processes after every call. -/
structure Kept (limits : Limits) (site : Site) (s : Settings) (x : Session W) : Prop where
  settings : x.compiler.settings = s
  courses : ∀ k, k < x.state.world.handles.length →
    Talked limits site s (x.state.world.course k) ∨ Ended limits site s (x.state.world.course k)
  unstarted : ∀ k, x.state.world.handles.length ≤ k → x.state.world.course k = []
  held : ∀ k, x.compiler.process = some k → k < x.state.world.handles.length ∧
    Talked limits site s (x.state.world.course k) ∧ x.registered.head? = some k
  increasing : (numbers x.state.world).Pairwise (· > ·)
  bounded : ∀ id ∈ numbers x.state.world, id ≤ x.compiler.lastId

section Kept
variable {limits : Limits} {site : Site} {s : Settings} {x y : Session W}

theorem Kept.start (limits : Limits) (site : Site) (s : Settings) (w : W) :
    Kept limits site s (.start s w) where
  settings := rfl
  courses k hk := absurd hk (Nat.not_lt_zero k)
  unstarted _ _ := rfl
  held := nofun
  increasing := .nil
  bounded _ hm := absurd hm (List.not_mem_nil)

/-- Deeds of one process keep all in order if they go on with its course, and if they write no request
or one with a number that is higher than all before it. -/
theorem Kept.added (hx : Kept limits site s x) {k : Handle} {es : List Deed} {n : Nat}
    (hs : y.compiler.settings = x.compiler.settings)
    (hd : y.state.world.deeds = (es.map (Prod.mk k)).reverse ++ x.state.world.deeds)
    (hn : y.state.world.handles.length = n)
    (hk : k < n ∧ x.state.world.handles.length ≤ n ∧
      ∀ j, j < n → j ≠ k → j < x.state.world.handles.length)
    (hes : Talked limits site s (x.state.world.course k ++ es) ∨
      Ended limits site s (x.state.world.course k ++ es))
    (hids : es.filterMap requestOf = [] ∧ x.compiler.lastId ≤ y.compiler.lastId ∨
      es.filterMap requestOf = [x.compiler.lastId + 1] ∧
        y.compiler.lastId = x.compiler.lastId + 1)
    (hheld : ∀ j, y.compiler.process = some j → y.registered.head? = some j ∧
      (j = k ∧ Talked limits site s (x.state.world.course k ++ es) ∨
        j ≠ k ∧ x.compiler.process = some j)) : Kept limits site s y := by
  have hself := Child.Annals.course_self hd
  have hother := fun j (hj : j ≠ k) => Child.Annals.course_other hd hj
  subst hn
  obtain ⟨hlt, hle, hold⟩ := hk
  -- The course of one process is longer now, and the others are what they were.
  refine ⟨hs.trans hx.settings, ?_, ?_, ?_, ?_, ?_⟩
  · intro j hj
    by_cases hjk : j = k
    · rw [hjk, hself]
      exact hes
    · rw [hother j hjk]
      exact hx.courses j (hold j hj hjk)
  · intro j hj
    rw [hother j (Nat.ne_of_gt (Nat.lt_of_lt_of_le hlt hj))]
    exact hx.unstarted j (Nat.le_trans hle hj)
  · intro j hj
    obtain ⟨hhead, ⟨rfl, ht⟩ | ⟨hjk, hj⟩⟩ := hheld j hj
    · exact ⟨hlt, hself ▸ ht, hhead⟩
    · obtain ⟨h1, h2, -⟩ := hx.held j hj
      exact ⟨Nat.lt_of_lt_of_le h1 hle, hother j hjk ▸ h2, hhead⟩
  · rw [numbers_added hd]
    rcases hids with ⟨hz, -⟩ | ⟨hz, -⟩
    · rw [hz]
      exact hx.increasing
    · rw [hz]
      exact List.pairwise_cons.mpr ⟨fun id hm => Nat.lt_succ_of_le (hx.bounded id hm),
        hx.increasing⟩
  · intro id hm
    rw [numbers_added hd] at hm
    rcases hids with ⟨hz, hi⟩ | ⟨hz, hi⟩
    · rw [hz] at hm
      exact Nat.le_trans (hx.bounded id hm) hi
    · rw [hz] at hm
      rw [hi]
      rcases List.mem_cons.mp hm with rfl | hm
      · exact Nat.le_refl _
      · exact Nat.le_succ_of_le (hx.bounded id hm)

theorem Kept.began (hx : Kept limits site s x) {es : List Deed}
    (hu : Began es x.state.world y.state.world)
    (hs : y.compiler.settings = x.compiler.settings)
    (hi : x.compiler.lastId = y.compiler.lastId) (hes : Talked limits site s es ∨ Ended limits site s es)
    (hz : es.filterMap requestOf = [])
    (hheld : ∀ j, y.compiler.process = some j → y.registered.head? = some j ∧
      (j = x.state.world.handles.length ∧ Talked limits site s es ∨ x.compiler.process = some j)) :
    Kept limits site s y := by
  have hnil := hx.unstarted _ (Nat.le_refl _)
  refine hx.added hs hu.deeds hu.handles ⟨Nat.lt_succ_self _, Nat.le_succ _, ?_⟩ ?_
    (.inl ⟨hz, Nat.le_of_eq hi⟩) ?_
  · intro j hj hne
    omega
  · rwa [hnil]
  · intro j hj
    rw [hnil]
    obtain ⟨hhead, h | h⟩ := hheld j hj
    · exact ⟨hhead, .inl h⟩
    · exact ⟨hhead, .inr ⟨Nat.ne_of_lt (hx.held j h).1, h⟩⟩

theorem Kept.did (hx : Kept limits site s x) {k : Handle} {es : List Deed}
    (hk : x.compiler.process = some k) (hu : Did k es x.state.world y.state.world)
    (hs : y.compiler.settings = x.compiler.settings) (hr : y.registered = x.registered)
    (hes : Talked limits site s (x.state.world.course k ++ es) ∧ y.compiler.process = some k ∨
      Ended limits site s (x.state.world.course k ++ es) ∧ y.compiler.process = none)
    (hids : es.filterMap requestOf = [] ∧ x.compiler.lastId ≤ y.compiler.lastId ∨
      es.filterMap requestOf = [x.compiler.lastId + 1] ∧
        y.compiler.lastId = x.compiler.lastId + 1) : Kept limits site s y := by
  obtain ⟨hlt, -, hhead⟩ := hx.held k hk
  refine hx.added hs hu.deeds (congrArg _ hu.handles) ⟨hlt, Nat.le_refl _, fun j hj _ => hj⟩
    (hes.imp And.left And.left) hids ?_
  intro j hj
  rcases hes with ⟨ht, hp⟩ | ⟨-, hp⟩
  · obtain rfl : k = j := Option.some.inj (hp.symm.trans hj)
    exact ⟨hr ▸ hhead, .inl ⟨rfl, ht⟩⟩
  · rw [hp] at hj
    cases hj

theorem Effect.kept (he : Effect limits site x y) (hx : Kept limits site s x) :
    Kept limits site s y := by
  cases he with
  | idle hp hs hn hd hh hr ho =>
    have hc : ∀ k, y.state.world.course k = x.state.world.course k :=
      fun k => Child.Annals.course_congr hd
    have hnum : numbers y.state.world = numbers x.state.world := by
      rw [numbers, hd, numbers]
    refine ⟨hs.trans hx.settings, ?_, ?_, ?_, hnum ▸ hx.increasing, ?_⟩
    · simp only [hh, hc]
      exact hx.courses
    · simp only [hh, hc]
      exact hx.unstarted
    · simp only [hp, hh, hc, hr]
      exact hx.held
    · rw [hnum]
      exact fun id hm => Nat.le_trans (hx.bounded id hm) hn
  | @failed es fs hu he hf hc hr ho =>
    have hz : (es ++ fs).filterMap requestOf = [] := by
      rw [List.filterMap_append, numbers_handshake he]
      rcases hf with rfl | ⟨r, hf⟩
      · rfl
      · exact numbers_shuts hf
    rw [hx.settings] at he
    refine hx.began hu (by rw [hc]) (by rw [hc]) ?_ hz ?_
    · rcases hf with rfl | ⟨r, hf⟩
      · rw [List.append_nil]
        exact .inl (.hello he)
      · exact .inr (Talked.end (.hello he) hf)
    · intro j hj
      rw [hc] at hj
      exact ⟨hr ▸ (hx.held j hj).2.2, .inr hj⟩
  | registered hu he hc hr ho =>
    have hz := numbers_handshake he
    rw [hx.settings] at he
    refine hx.began hu (by rw [hc]) (by rw [hc]) (.inl (.hello he)) hz ?_
    intro j hj
    rw [hc] at hj
    cases hj
    exact ⟨by rw [hr]; rfl, .inl ⟨rfl, .hello he⟩⟩
  | asked hk hu he hc hr ho =>
    refine hx.did hk hu (by rw [hc]) hr (.inl ⟨(hx.held _ hk).2.1.next he, by rw [hc, hk]⟩) ?_
    rw [hc]
    exact (numbers_request he).imp (⟨·, Nat.le_succ _⟩) (⟨·, rfl⟩)
  | @lost k p src es fs r hk hu he hf hc hr ho =>
    have hz : (es ++ fs).filterMap requestOf = es.filterMap requestOf := by
      rw [List.filterMap_append, numbers_shuts hf, List.append_nil]
    refine hx.did hk hu (by rw [hc]) hr (.inr ⟨?_, by rw [hc]⟩) ?_
    · rw [← List.append_assoc]
      exact ((hx.held k hk).2.1.next he).end hf
    · rw [hc, hz]
      exact (numbers_request he).imp (⟨·, Nat.le_succ _⟩) (⟨·, rfl⟩)
  | closed hk hu hf hc hr ho =>
    exact hx.did hk hu (by rw [hc]) hr (.inr ⟨(hx.held _ hk).2.1.end hf, by rw [hc]⟩)
      (.inl ⟨numbers_shuts hf, by rw [hc]⟩)

theorem run_kept (ops : ChildOps W) (cs : List (Call W)) (hx : Kept ops.limits site s x) :
    Kept ops.limits site s (run ops site cs x) := by
  induction cs generalizing x with
  | nil => exact hx
  | cons call cs ih => exact ih ((perform_effect ops site x call).kept hx)

theorem Effect.requested (he : Effect limits site x y) (hx : Kept limits site s x) :
    ∃ es, y.state.world.deeds = es ++ x.state.world.deeds ∧
      ∀ e ∈ es, requestOf e.2 ≠ none → x.registered.head? = some e.1 := by
  have hnone : ∀ {k : Handle} {es : List Deed}, es.filterMap requestOf = [] →
      ∀ e ∈ (es.map (Prod.mk k)).reverse, requestOf e.2 = none := by
    intro k es hz e hm
    obtain ⟨d, hd, rfl⟩ := List.mem_map.mp (List.mem_reverse.mp hm)
    exact List.filterMap_eq_nil_iff.mp hz d hd
  have hheld : ∀ {k : Handle} {es : List Deed}, x.compiler.process = some k →
      ∀ e ∈ (es.map (Prod.mk k)).reverse, x.registered.head? = some e.1 := by
    intro k es hk e hm
    obtain ⟨d, -, rfl⟩ := List.mem_map.mp (List.mem_reverse.mp hm)
    exact (hx.held k hk).2.2
  cases he with
  | idle hp hs hn hd hh hr ho => exact ⟨[], hd, nofun⟩
  | @failed es fs hu he hf hc hr ho =>
    refine ⟨_, hu.deeds, fun e hm hne => absurd (hnone ?_ e hm) hne⟩
    rw [List.filterMap_append, numbers_handshake he]
    rcases hf with rfl | ⟨r, hf⟩
    · rfl
    · exact numbers_shuts hf
  | registered hu he hc hr ho =>
    exact ⟨_, hu.deeds, fun e hm hne => absurd (hnone (numbers_handshake he) e hm) hne⟩
  | asked hk hu he hc hr ho => exact ⟨_, hu.deeds, fun e hm _ => hheld hk e hm⟩
  | lost hk hu he hf hc hr ho => exact ⟨_, hu.deeds, fun e hm _ => hheld hk e hm⟩
  | closed hk hu hf hc hr ho => exact ⟨_, hu.deeds, fun e hm _ => hheld hk e hm⟩

structure Disciplined (ops : ChildOps W) (site : Site) (s : Settings) (x : Session W) : Prop where
  courses : ∀ k, k < x.state.world.handles.length →
    Talked ops.limits site s (x.state.world.course k) ∨ Ended ops.limits site s (x.state.world.course k)
  /-- Whatever is called next, its requests go to the process that was registered last. -/
  requested : ∀ call, ∃ es,
    (perform ops site x call).state.world.deeds = es ++ x.state.world.deeds ∧
      ∀ e ∈ es, requestOf e.2 ≠ none → x.registered.head? = some e.1
  increasing : (numbers x.state.world).Pairwise (· > ·)

theorem run_disciplined (ops : ChildOps W) (site : Site) (s : Settings) (w : W)
    (cs : List (Call W)) : Disciplined ops site s (run ops site cs (.start s w)) :=
  have hx := run_kept ops cs (Kept.start ops.limits site s w)
  ⟨hx.courses, fun call => (perform_effect ops site _ call).requested hx, hx.increasing⟩

end Kept

end ConfigLoader.Discipline
