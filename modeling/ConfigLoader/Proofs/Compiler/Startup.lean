import Mathlib
import ConfigLoader.Proofs.Compiler.Traffic
import ConfigLoader.Proofs.Json.Faults

/-! # How registering ends

Registering starts a process, and then holds it, or reports that the start failed and has shut the
process down. Three things stand in the way: settings without a form in a frame, settings or a reply that
go too deep, and a reply that is no mapping. With them a fault of another kind passes through, and the
process is left as it is.
-/
namespace ConfigLoader
open Child (Handle Action Event Respected Traced traced)
open Child.Traced (Adds)

namespace Child

def Action.IsTraffic : Action → Prop
  | .write _ | .flush | .readLine => True
  | _ => False

/-- Something written to a process or read from it. -/
def Event.IsTraffic (h : Handle) (e : Event) : Prop := ∃ a, e = .act h a ∧ a.IsTraffic

end Child

namespace Compiler
variable {W : Type} {ops : ChildOps W} {h : Handle} {P : W → Prop}

theorem frame_fault {limits : Limits} {m : Value} {f : Fault} (hf : frame limits m = .error f) :
    Json.IsPrintFault f :=
  Json.print_fault (Json.frameLayout_fails limits) 0 m (Json.map_error hf)

/-! ## Processes that behave -/

/-- In worlds with a property, which stays, processes have an input, starting one fails as a system
call if it fails, what is written or read fails as a pipe does or its text, and shutting a process
down does not fail. -/
structure Behaved (ops : ChildOps W) (P : W → Prop) : Prop where
  start : ∀ c w, P w → P (ops.start c w).2
  act : ∀ h a w, P w → P (ops.act h a w).2
  start_fault : ∀ c w f, P w → (ops.start c w).1 = .error f → f.isSystem = true
  traffic_fault : ∀ h a w f, P w → a.IsTraffic → (ops.act h a w).1 = .error f →
    isNoHandshake f = true
  input : ∀ h w, P w → ops.hasInput h w = true
  shutdown : ∀ h w, P w → (shutdown ops h w).1 = .ok ()

theorem Behaved.respected (hops : Behaved ops P) (h : Handle) :
    Respected ops h fun w u => P w → P u where
  refl _ hw := hw
  trans huv hvw hu := hvw (huv hu)
  act a w := hops.act h a w

theorem send_fault (hops : Behaved ops P) {m : Value} {w u : W} {f : Fault} (hw : P w)
    (hs : send ops h m w = (.error f, u)) :
    isNoHandshake f = true ∨ frame ops.limits m = .error f := by
  simp only [send, hops.input h w hw, if_true] at hs
  cases hm : frame ops.limits m with
  | error g =>
    rw [hm] at hs
    cases hs
    exact .inr rfl
  | ok text =>
    left
    have h1 := hops.act h (.write text) w hw
    have hf1 := hops.traffic_fault h (.write text) w
    rcases e1 : ops.act h (.write text) w with ⟨r1, w1⟩
    rw [e1] at h1 hf1
    simp only [hm, e1] at hs
    cases r1 with
    | error g =>
      cases hs
      exact hf1 _ hw trivial rfl
    | ok s =>
      have hf2 := hops.traffic_fault h .flush w1
      rcases e2 : ops.act h .flush w1 with ⟨r2, w2⟩
      rw [e2] at hf2
      simp only [e2] at hs
      cases r2 with
      | error g =>
        cases hs
        exact hf2 _ h1 trivial rfl
      | ok s => cases hs

theorem receive_fault (hops : Behaved ops P) {w u : W} {f : Fault} (hw : P w)
    (hr : receive ops h w = (.error f, u)) :
    isNoHandshake f = true ∨ f.kind = .recursionError := by
  unfold receive at hr
  split at hr
  · have hf1 := hops.traffic_fault h .readLine w
    rcases e1 : ops.act h .readLine w with ⟨r1, w1⟩
    rw [e1] at hf1
    simp only [e1] at hr
    cases r1 with
    | error g =>
      cases hr
      exact .inl (hf1 _ hw trivial rfl)
    | ok line =>
      have hl := congrArg Prod.fst hr
      dsimp only at hl
      split at hl
      · cases hl
        exact .inl rfl
      · refine (Json.load_fault hl).imp_left fun hv => ?_
        rw [isNoHandshake, hv, Bool.or_true]
  · cases hr
    exact .inl rfl

/-- A handshake that fails does so as it is expected to, or because its message has no form, or because
the message or the answer goes too deep. -/
theorem exchange_fault (hops : Behaved ops P) {m : Value} {w u : W} {f : Fault} (hw : P w)
    (hx : exchange ops h m w = (.error f, u)) :
    isNoHandshake f = true ∨ frame ops.limits m = .error f ∧ f.kind = .typeError ∨
      f.kind = .recursionError := by
  unfold exchange at hx
  have h1 := send_respects (hops.respected h) m w hw
  rcases e1 : send ops h m w with ⟨r1, w1⟩
  rw [e1] at h1 hx
  cases r1 with
  | ok s => exact (receive_fault hops h1 hx).imp_right .inr
  | error g =>
    obtain rfl : g = f := Except.error.inj (congrArg Prod.fst hx)
    rcases send_fault hops hw e1 with hg | hg
    · exact .inl hg
    · rcases frame_fault hg with hk | hk | hk
      · refine .inl ?_
        rw [isNoHandshake, hk]
        exact Bool.or_true _
      · exact .inr (.inl ⟨hg, hk⟩)
      · exact .inr (.inr hk)

theorem exchange_formless (hops : Behaved ops P) {m : Value} {w : W} {f : Fault} (hw : P w)
    (hm : frame ops.limits m = .error f) : exchange ops h m w = (.error f, w) := by
  simp only [exchange, send, hops.input h w hw, hm, if_true]

/-! ## What is done with the process -/

/-- Some things are written to a process and read from it, and nothing else is done. -/
def Talks (h : Handle) (t u : Traced W) : Prop := Adds (Event.IsTraffic h) t u

theorem act_talks (ops : ChildOps W) (h : Handle) {a : Action} (ha : a.IsTraffic) (t : Traced W) :
    Talks h t ((traced ops).act h a t).2 := by
  refine ⟨[.act h a], rfl, ?_⟩
  intro e he
  exact ⟨a, List.mem_singleton.mp he, ha⟩

theorem send_talks (ops : ChildOps W) (h : Handle) (m : Value) (t : Traced W) :
    Talks h t (send (traced ops) h m t).2 := by
  unfold send
  split
  · cases frame (traced ops).limits m with
    | error f => exact Adds.refl _ t
    | ok text =>
      have h1 := act_talks ops h (a := .write text) trivial t
      rcases e1 : (traced ops).act h (.write text) t with ⟨r1, t1⟩
      rw [e1] at h1
      cases r1 with
      | error f =>
        simp only [e1]
        exact h1
      | ok s =>
        simp only [e1]
        exact h1.trans (act_talks ops h (a := .flush) trivial t1)
  · exact Adds.refl _ t

theorem receive_talks (ops : ChildOps W) (h : Handle) (t : Traced W) :
    Talks h t (receive (traced ops) h t).2 := by
  unfold receive
  split
  · have h1 := act_talks ops h (a := .readLine) trivial t
    rcases e1 : (traced ops).act h .readLine t with ⟨r1, t1⟩
    rw [e1] at h1
    cases r1 with
    | error f => exact h1
    | ok line => exact h1
  · exact Adds.refl _ t

theorem exchange_talks (ops : ChildOps W) (h : Handle) (m : Value) (t : Traced W) :
    Talks h t (exchange (traced ops) h m t).2 := by
  unfold exchange
  have h1 := send_talks ops h m t
  rcases e1 : send (traced ops) h m t with ⟨r1, t1⟩
  rw [e1] at h1
  cases r1 with
  | error f => exact h1
  | ok s => exact h1.trans (receive_talks ops h t1)

/-- A process is shut down: its input is closed, after which a wait for its end comes to an end, and
its output is closed. -/
structure ShutDown (ops : ChildOps W) (h : Handle) (t u : Traced W) : Prop where
  closed : ∃ es, u.events = es ++ .act h .closeInput :: t.events
  awaited : ∃ seconds line x y, Adds (Event.IsOn h) t x ∧
    (traced ops).act h (.wait seconds) x = (.ok line, y) ∧
    closeOutput (traced ops) h y = (.ok (), u)

theorem awaitEnd_ok {t u : Traced W} {line : Text}
    (ha : awaitEnd (traced ops) h t = (.ok line, u)) :
    ∃ seconds x, Adds (Event.IsOn h) t x ∧
      (traced ops).act h (.wait seconds) x = (.ok line, u) := by
  have hR := Child.Traced.adds_respected ops h
  unfold awaitEnd at ha
  have h1 := hR.act (.wait (some patience)) t
  rcases e1 : (traced ops).act h (.wait (some patience)) t with ⟨r1, t1⟩
  rw [e1] at h1 ha
  dsimp only at ha
  split at ha
  · have h2 := h1.trans (hR.act .terminate t1)
    rcases e2 : (traced ops).act h .terminate t1 with ⟨r2, t2⟩
    rw [e2] at h2 ha
    cases r2 with
    | error f => cases ha
    | ok s2 =>
      have h3 := h2.trans (hR.act (.wait (some lastPatience)) t2)
      rcases e3 : (traced ops).act h (.wait (some lastPatience)) t2 with ⟨r3, t3⟩
      rw [e3] at h3
      simp only [e3] at ha
      split at ha
      · have h4 := h3.trans (hR.act .kill t3)
        rcases e4 : (traced ops).act h .kill t3 with ⟨r4, t4⟩
        rw [e4] at h4 ha
        cases r4 with
        | error f => cases ha
        | ok s4 => exact ⟨none, t4, h4, ha⟩
      · exact ⟨some lastPatience, t2, h2, by rw [e3, ha]⟩
  · exact ⟨some patience, t, Adds.refl _ t, by rw [e1, ha]⟩

theorem shutdown_shutDown {t u : Traced W} (hin : (traced ops).hasInput h t = true)
    (hs : shutdown (traced ops) h t = (.ok (), u)) : ShutDown ops h t u := by
  have hR := Child.Traced.adds_respected ops h
  unfold shutdown at hs
  have h1 := closeInput_respects hR t
  have hc : (closeInput (traced ops) h t).2.events = .act h .closeInput :: t.events := by
    simp only [closeInput, hin, if_true]
    rcases e : (traced ops).act h .closeInput t with ⟨r, t1⟩
    have he : t1.events = .act h .closeInput :: t.events := congrArg (·.2.events) e.symm
    cases r <;> exact he
  rcases e1 : closeInput (traced ops) h t with ⟨r1, t1⟩
  rw [e1] at h1 hc hs
  cases r1 with
  | error f => cases hs
  | ok s1 =>
    have h2 := awaitEnd_respects hR t1
    rcases e2 : awaitEnd (traced ops) h t1 with ⟨r2, t2⟩
    rw [e2] at h2
    simp only [e2] at hs
    cases r2 with
    | error f => cases hs
    | ok line =>
      dsimp only at hs
      have h3 := closeOutput_respects hR t2
      rw [hs] at h3
      obtain ⟨es, hes, -⟩ := h2.trans h3
      obtain ⟨seconds, x, hx, hw⟩ := awaitEnd_ok e2
      refine ⟨⟨es, ?_⟩, seconds, line, x, t2, h1.trans hx, hw, hs⟩
      rw [hes, show t1.events = _ from hc]

/-! ## Endings -/

section Endings
variable (ops) (site : Site) (c : Compiler) (t : Traced W)

abbrev starting : Except Fault Handle × Traced W :=
  (traced ops).start (workerCommand site c.settings) t

/-- Registering ends as it should: with a process that is held, or with a fault of starting up,
which leaves the compiler as it was and no process that was not shut down. -/
inductive Honoured : Except Fault Unit → Compiler → Traced W → Prop
  | registered {h : Handle} {t1 u : Traced W} {version : Value}
      (hs : starting ops site c t = (.ok h, t1)) (hu : Talks h t1 u) :
      Honoured (.ok ()) { c with process := some h, version := version } u
  | unstarted {f : Fault} {u : Traced W} {message : Text}
      (hs : starting ops site c t = (.error f, u)) :
      Honoured (.error (startupFault message)) c u
  | shutDown {h : Handle} {t1 t2 u : Traced W} {message : Text}
      (hs : starting ops site c t = (.ok h, t1)) (ht : Talks h t1 t2) (hu : ShutDown ops h t2 u) :
      Honoured (.error (startupFault message)) c u

/-- What stands in the way of a handshake: it has no form, it or what it is answered with goes too deep, or
the answer is no mapping. -/
def Strays (r : Except Fault Value) : Prop :=
  (∃ f, frame ops.limits (handshake site c.settings) = .error f ∧ f.kind = .typeError) ∨
    (∃ f, r = .error f ∧ f.kind = .recursionError) ∨ ∃ reply, r = .ok reply ∧ reply.isDict = false

/-- A process is started and something stands in the way of the handshake with it. -/
def Unforeseen : Prop :=
  ∃ h t1, starting ops site c t = (.ok h, t1) ∧
    Strays ops site c (exchange (traced ops) h (handshake site c.settings) t1).1

/-- Registering ends with another fault; the compiler is as it was, and the process that was started
was not told to end. -/
def LeftRunning (r : Except Fault Unit) (d : Compiler) (u : Traced W) : Prop :=
  ∃ h t1 f, starting ops site c t = (.ok h, t1) ∧ r = .error f ∧
    (f.kind = .typeError ∨ f.kind = .recursionError ∨ f.kind = .attributeError) ∧ d = c ∧
    Talks h t1 u

end Endings

variable {site : Site} {c : Compiler} {t : Traced W}

theorem LeftRunning.not_honoured {r : Except Fault Unit} {d : Compiler} {u : Traced W}
    (h : LeftRunning ops site c t r d u) : ¬ Honoured ops site c t r d u := by
  obtain ⟨k, t1, f, -, rfl, hf, -, -⟩ := h
  intro hx
  cases hx <;> rcases hf with hf | hf | hf <;> cases hf

/-! ## Every ending -/

section Ending
variable {Q : Traced W → Prop}

theorem giveUp_shutDown {α : Type} (hops : Behaved (traced ops) Q) (tell : Text → Fault)
    (ht : Q t) : ∃ code u, giveUp (α := α) (traced ops) h tell t = (.error (tell code), u) ∧
      ShutDown ops h t u := by
  have hs := hops.shutdown h t ht
  rcases e : shutdown (traced ops) h t with ⟨r, u⟩
  rw [e] at hs
  obtain rfl : r = .ok () := hs
  simp only [giveUp, e]
  exact ⟨_, u, rfl, shutdown_shutDown (hops.input h t ht) e⟩

theorem greeting_cases (reply : Value) :
    (reply.isDict = true ∧ ∃ g, greeting reply = .ok g) ∨
    (reply.isDict = false ∧ ∃ f, greeting reply = .error f ∧ f.kind = .attributeError) := by
  cases reply with
  | mapping es =>
    refine .inl ⟨rfl, ?_⟩
    simp only [greeting, Reply.field, bind, Except.bind]
    split <;> exact ⟨_, rfl⟩
  | _ => exact .inr ⟨rfl, _, rfl, rfl⟩

def settle (c : Compiler) : Except Fault (Handle × Value) → Except Fault Unit × Compiler
  | .ok (h, version) => (.ok (), { c with process := some h, version := version })
  | .error f => (.error f, c)

variable (ops site c t) in
/-- An ending of a handshake as it should be, if nothing unforeseen stands in its way. -/
def Ends (g : Except Fault (Handle × Value)) (u : Traced W) : Prop :=
  (¬ Unforeseen ops site c t ∧ Honoured ops site c t (settle c g).1 (settle c g).2 u) ∨
    (Unforeseen ops site c t ∧ LeftRunning ops site c t (settle c g).1 (settle c g).2 u)

theorem unforeseen_iff {t1 t2 : Traced W} {r : Except Fault Value}
    (hs : starting ops site c t = (.ok h, t1))
    (hx : exchange (traced ops) h (handshake site c.settings) t1 = (r, t2)) :
    Unforeseen ops site c t ↔ Strays ops site c r := by
  constructor
  · rintro ⟨h', t1', hs', hu⟩
    rw [hs] at hs'
    cases hs'
    rwa [hx] at hu
  · intro hu
    refine ⟨h, t1, hs, ?_⟩
    rwa [hx]

theorem greet_unstarted (hops : Behaved (traced ops) Q) (ht : Q t) {f : Fault} {u : Traced W}
    (hs : starting ops site c t = (.error f, u)) :
    ∃ g u, greet (traced ops) site c.settings t = (g, u) ∧ Ends ops site c t g u := by
  have es : (traced ops).start ⟨c.settings.nodeExecutable, site.script,
    directory site c.settings⟩ t = (.error f, u) := hs
  have hf := hops.start_fault _ t f ht (congrArg Prod.fst es)
  simp only [greet, es, hf, if_true]
  refine ⟨_, _, rfl, .inl ⟨?_, .unstarted hs⟩⟩
  rintro ⟨h, t1, hs', -⟩
  rw [hs] at hs'
  cases hs'

section Started
variable {t1 t2 : Traced W}

/-- A handshake that fails costs the process its life, unless something stands in its way. -/
theorem greet_failed (hops : Behaved (traced ops) Q) (ht1 : Q t1) {f : Fault}
    (hs : starting ops site c t = (.ok h, t1))
    (hx : exchange (traced ops) h (handshake site c.settings) t1 = (.error f, t2)) :
    ∃ g u, greet (traced ops) site c.settings t = (g, u) ∧ Ends ops site c t g u := by
  have es : (traced ops).start ⟨c.settings.nodeExecutable, site.script,
    directory site c.settings⟩ t = (.ok h, t1) := hs
  have ht2 := exchange_respects (hops.respected h) (handshake site c.settings) t1 ht1
  have htalks := exchange_talks ops h (handshake site c.settings) t1
  rw [hx] at ht2 htalks
  by_cases hf : isNoHandshake f = true
  · obtain ⟨code, u, hg, hu⟩ := giveUp_shutDown (h := h) (α := Handle × Value) hops
      (fun code => startupFault ("TypeScript worker exited during startup (code " ++ code ++ ")"))
      ht2
    simp only [greet, es, hx, hf, if_true]
    refine ⟨_, _, hg, .inl ⟨?_, .shutDown hs htalks hu⟩⟩
    rw [unforeseen_iff hs hx]
    have hkind : ∀ k, f.kind = k → (k.isA .eofError || k.isA .osError || k.isA .valueError) = false →
        False := by
      rintro _ rfl hk
      cases hf.symm.trans hk
    rintro (⟨g, hm, hk⟩ | ⟨g, hg, hk⟩ | ⟨reply, hr, -⟩)
    · rw [exchange_formless hops ht1 hm] at hx
      obtain rfl : g = f := Except.error.inj (congrArg Prod.fst hx)
      exact hkind _ hk rfl
    · obtain rfl : f = g := Except.error.inj hg
      exact hkind _ hk rfl
    · cases hr
  · simp only [greet, es, hx, hf]
    refine ⟨_, _, rfl, .inr ?_⟩
    rcases (exchange_fault hops ht1 hx).resolve_left hf with ⟨hm, hk⟩ | hk
    · exact ⟨(unforeseen_iff hs hx).mpr (.inl ⟨f, hm, hk⟩),
        h, t1, f, hs, rfl, .inl hk, rfl, htalks⟩
    · exact ⟨(unforeseen_iff hs hx).mpr (.inr (.inl ⟨f, rfl, hk⟩)),
        h, t1, f, hs, rfl, .inr (.inl hk), rfl, htalks⟩

theorem greet_answered (hops : Behaved (traced ops) Q) (ht1 : Q t1) {reply : Value}
    (hs : starting ops site c t = (.ok h, t1))
    (hx : exchange (traced ops) h (handshake site c.settings) t1 = (.ok reply, t2)) :
    ∃ g u, greet (traced ops) site c.settings t = (g, u) ∧ Ends ops site c t g u := by
  have es : (traced ops).start ⟨c.settings.nodeExecutable, site.script,
    directory site c.settings⟩ t = (.ok h, t1) := hs
  have ht2 := exchange_respects (hops.respected h) (handshake site c.settings) t1 ht1
  have htalks := exchange_talks ops h (handshake site c.settings) t1
  rw [hx] at ht2 htalks
  rcases greeting_cases reply with ⟨hd, g, hg⟩ | ⟨hd, f, hg, hk⟩
  · have hun : ¬ Unforeseen ops site c t := by
      rw [unforeseen_iff hs hx]
      rintro (⟨f, hm, -⟩ | ⟨f, ⟨⟩, -⟩ | ⟨_, ⟨⟩, hd'⟩)
      · rw [exchange_formless hops ht1 hm] at hx
        cases hx
      · rw [hd] at hd'
        cases hd'
    cases g with
    | ok version =>
      simp only [greet, es, hx, hg]
      exact ⟨_, _, rfl, .inl ⟨hun, .registered hs htalks⟩⟩
    | error reason =>
      obtain ⟨code, u, hgu, hu⟩ := giveUp_shutDown (h := h) (α := Handle × Value) hops
        (fun _ => startupFault ("TypeScript worker failed to init: " ++ reason.display)) ht2
      simp only [greet, es, hx, hg]
      exact ⟨_, _, hgu, .inl ⟨hun, .shutDown hs htalks hu⟩⟩
  · simp only [greet, es, hx, hg]
    refine ⟨_, _, rfl, .inr ⟨(unforeseen_iff hs hx).mpr (.inr (.inr ⟨reply, rfl, hd⟩)), ?_⟩⟩
    exact ⟨h, t1, f, hs, rfl, .inr (.inr hk), rfl, htalks⟩

end Started

variable (site c) in
theorem greet_ends (hops : Behaved (traced ops) Q) (ht : Q t) :
    ∃ g u, greet (traced ops) site c.settings t = (g, u) ∧ Ends ops site c t g u := by
  rcases hs : starting ops site c t with ⟨r1, t1⟩
  cases r1 with
  | error f => exact greet_unstarted hops ht hs
  | ok h =>
    have ht1 := hops.start (workerCommand site c.settings) t ht
    rw [show (traced ops).start (workerCommand site c.settings) t = _ from hs] at ht1
    rcases hx : exchange (traced ops) h (handshake site c.settings) t1 with ⟨r2, t2⟩
    cases r2 with
    | error f => exact greet_failed hops ht1 hs hx
    | ok reply => exact greet_answered hops ht1 hs hx

variable (site c) in
/-- Registering ends as it should exactly if nothing unforeseen stands in its way, and else it leaves
a process running. -/
theorem register_ends (l : Logged (Traced W)) (hops : Behaved (traced ops) Q) (hl : Q l.world)
    (hn : c.isRegistered (traced ops) l.world = false) {r : Except Fault Unit} {d : Compiler}
    {k : Logged (Traced W)} (hr : register (traced ops) site c l = (r, d, k)) :
    (Honoured ops site c l.world r d k.world ↔ ¬ Unforeseen ops site c l.world) ∧
    (Unforeseen ops site c l.world → LeftRunning ops site c l.world r d k.world) := by
  obtain ⟨g, u, hg, he⟩ := greet_ends site c hops hl
  have hsettle : (settle c g).1 = r ∧ (settle c g).2 = d ∧ u = k.world := by
    have hc := register_cases hn site
    rw [hr, hg] at hc
    rcases hc with ⟨f, rfl, rfl, rfl, hw⟩ | ⟨h, v, rfl, rfl, rfl, hw⟩
    · exact ⟨rfl, rfl, hw.symm⟩
    · exact ⟨rfl, rfl, hw.symm⟩
  obtain ⟨rfl, rfl, rfl⟩ := hsettle
  rcases he with ⟨hun, hh⟩ | ⟨hun, hleft⟩
  · exact ⟨⟨fun _ => hun, fun _ => hh⟩, fun hu => absurd hu hun⟩
  · exact ⟨⟨fun hh => absurd hh hleft.not_honoured, fun hn => absurd hun hn⟩, fun _ => hleft⟩

/-! ### A reply that is a list -/

/-- A process that does all that is asked of it and answers every message with one line. -/
def answering (line : Text) : ChildOps Unit where
  limits := .usual
  start _ w := (.ok 0, w)
  act _ a w := (.ok (if a = .readLine then line else []), w)
  hasInput _ _ := true
  hasOutput _ _ := true
  isRunning _ _ := true
  exitCode _ _ := some 0
  number _ _ := 1

theorem answering_behaved (line : Text) :
    Behaved (traced (answering line)) fun _ => True where
  start _ _ _ := trivial
  act _ _ _ _ := trivial
  start_fault _ _ _ _ hf := by cases hf
  traffic_fault _ _ _ _ _ _ hf := by cases hf
  input _ _ _ := rfl
  shutdown _ _ _ := rfl

def listedSite : Site := ⟨"/work", "/worker.js"⟩

/-- A process whose reply is an empty list is left running, and the fault is no fault of starting
up. -/
theorem register_ends_listed :
    let e := register (traced (answering "[]\n")) listedSite (new .default) (.start ⟨(), []⟩)
    LeftRunning (answering "[]\n") listedSite (new .default) ⟨(), []⟩ e.1 e.2.1 e.2.2.world ∧
    ¬ Honoured (answering "[]\n") listedSite (new .default) ⟨(), []⟩ e.1 e.2.1 e.2.2.world := by
  have hun : Unforeseen (answering "[]\n") listedSite (new .default) ⟨(), []⟩ :=
    ⟨0, _, rfl, .inr (.inr ⟨.list [], by cbv, rfl⟩)⟩
  have he := register_ends listedSite (new .default) (.start ⟨(), []⟩)
    (answering_behaved "[]\n") trivial rfl rfl
  exact ⟨he.2 hun, fun hh => he.1.mp hh hun⟩

/-! ### An option without a form -/

def datedSettings : Value :=
  .mapping [("compiler_options", .mapping [("since", .date ⟨2024, 5, 1⟩)])]

/-- With an option that is a date, the process that was started is neither written to nor told to
end. -/
theorem register_dated :
    ∃ s, Settings.build datedSettings = .ok s ∧
      let e := register (traced (answering "\x7b\"status\": \"ready\"\x7d\n")) listedSite (new s)
        (.start ⟨(), []⟩)
      e.1 = .error (.typeError "Object of type date is not JSON serializable") ∧
      e.2.1.process = none ∧ e.2.2.world.events = [.start (workerCommand listedSite s)] := by
  exact ⟨_, by cbv, by cbv, rfl, rfl⟩

end Ending

end Compiler
end ConfigLoader
