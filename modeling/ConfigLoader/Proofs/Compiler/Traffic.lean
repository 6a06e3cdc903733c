import ConfigLoader.Compiler
import ConfigLoader.Proofs.Child.Records

/-! # The traffic of a compiler

An exchange with a process, and shutting it down, are made of actions on this process alone, so they
respect every relation that those actions respect.
-/
namespace ConfigLoader.Compiler
open Child (Respected)
variable {W : Type} {ops : ChildOps W} {h : Child.Handle} {R : W → W → Prop}

theorem send_written {m : Value} {text line : Text} {w w1 : W} (hi : ops.hasInput h w = true)
    (hm : frame ops.limits m = .ok text) (hw : ops.act h (.write text) w = (.ok line, w1)) :
    send ops h m w = ((ops.act h .flush w1).1.map fun _ => (), (ops.act h .flush w1).2) := by
  simp only [send, hi, hm, hw, if_true]

theorem send_respects (hR : Respected ops h R) (m : Value) (w : W) :
    R w (send ops h m w).2 := by
  unfold send
  split
  · cases frame ops.limits m with
    | error f => exact hR.refl w
    | ok text =>
      have h1 := hR.act (.write text) w
      rcases e1 : ops.act h (.write text) w with ⟨r, w1⟩
      rw [e1] at h1
      cases r with
      | error f => simpa only [e1] using h1
      | ok s => simpa only [e1] using hR.trans h1 (hR.act .flush w1)
  · exact hR.refl w

theorem receive_respects (hR : Respected ops h R) (w : W) : R w (receive ops h w).2 := by
  unfold receive
  split
  · have h1 := hR.act .readLine w
    rcases e1 : ops.act h .readLine w with ⟨r, w1⟩
    rw [e1] at h1
    cases r <;> simpa only [e1] using h1
  · exact hR.refl w

theorem exchange_respects (hR : Respected ops h R) (m : Value) (w : W) :
    R w (exchange ops h m w).2 := by
  unfold exchange
  have h1 := send_respects hR m w
  rcases e1 : send ops h m w with ⟨r, w1⟩
  rw [e1] at h1
  cases r with
  | error f => exact h1
  | ok s => exact hR.trans h1 (receive_respects hR w1)

theorem closeInput_respects (hR : Respected ops h R) (w : W) : R w (closeInput ops h w).2 := by
  unfold closeInput
  split
  · have h1 := hR.act .closeInput w
    rcases e1 : ops.act h .closeInput w with ⟨r, w1⟩
    rw [e1] at h1
    cases r <;> simpa only [e1] using h1
  · exact hR.refl w

theorem closeOutput_respects (hR : Respected ops h R) (w : W) : R w (closeOutput ops h w).2 := by
  unfold closeOutput
  split
  · exact hR.act .closeOutput w
  · exact hR.refl w

/-- Each wait and each push between the waits is an action on the process. -/
theorem awaitEnd_respects (hR : Respected ops h R) (w : W) : R w (awaitEnd ops h w).2 := by
  unfold awaitEnd
  have h1 := hR.act (.wait (some patience)) w
  rcases e1 : ops.act h (.wait (some patience)) w with ⟨r1, w1⟩
  rw [e1] at h1
  dsimp only
  split
  · have h2 := hR.trans h1 (hR.act .terminate w1)
    rcases e2 : ops.act h .terminate w1 with ⟨r2, w2⟩
    rw [e2] at h2
    cases r2 with
    | error f => simpa only [e2] using h2
    | ok s2 =>
      have h3 := hR.trans h2 (hR.act (.wait (some lastPatience)) w2)
      rcases e3 : ops.act h (.wait (some lastPatience)) w2 with ⟨r3, w3⟩
      rw [e3] at h3
      simp only [e3]
      split
      · have h4 := hR.trans h3 (hR.act .kill w3)
        rcases e4 : ops.act h .kill w3 with ⟨r4, w4⟩
        rw [e4] at h4
        cases r4 with
        | error f => simpa only [e4] using h4
        | ok s4 => simpa only [e4] using hR.trans h4 (hR.act (.wait none) w4)
      · exact h3
  · exact h1

theorem shutdown_respects (hR : Respected ops h R) (w : W) : R w (shutdown ops h w).2 := by
  unfold shutdown
  have h1 := closeInput_respects hR w
  rcases e1 : closeInput ops h w with ⟨r1, w1⟩
  rw [e1] at h1
  cases r1 with
  | error f => exact h1
  | ok s1 =>
    have h2 := hR.trans h1 (awaitEnd_respects hR w1)
    rcases e2 : awaitEnd ops h w1 with ⟨r2, w2⟩
    rw [e2] at h2
    cases r2 with
    | error f => simpa only [e2] using h2
    | ok s2 => simpa only [e2] using hR.trans h2 (closeOutput_respects hR w2)

theorem giveUp_world {α : Type} (ops : ChildOps W) (h : Child.Handle) (tell : Text → Fault)
    (w : W) : (giveUp (α := α) ops h tell w).2 = (shutdown ops h w).2 := by
  unfold giveUp
  rcases shutdown ops h w with ⟨r, w1⟩
  cases r <;> rfl

theorem giveUp_respects {α : Type} (hR : Respected ops h R) (tell : Text → Fault) (w : W) :
    R w (giveUp (α := α) ops h tell w).2 := by
  rw [giveUp_world]
  exact shutdown_respects hR w

/-- Giving up ends with a fault, whether or not the process could be shut down. -/
theorem giveUp_error {α : Type} (ops : ChildOps W) (h : Child.Handle) (tell : Text → Fault)
    (w : W) : ∃ f, (giveUp (α := α) ops h tell w).1 = .error f := by
  unfold giveUp
  rcases shutdown ops h w with ⟨r, w1⟩
  cases r with
  | error f => exact ⟨f, rfl⟩
  | ok s => exact ⟨_, rfl⟩

/-! ## Registering -/

def workerCommand (site : Site) (s : Settings) : Child.Command :=
  ⟨s.nodeExecutable, site.script, directory site s⟩

/-- A handshake with a process that was started is an exchange, after which the process is left as it
is, or shut down when the handshake failed. -/
theorem greet_started {site : Site} {s : Settings} {w w1 : W}
    (hs : ops.start (workerCommand site s) w = (.ok h, w1)) :
    ((greet ops site s w).2 = (exchange ops h (handshake site s) w1).2 ∧
      ∀ k v, (greet ops site s w).1 = .ok (k, v) → k = h) ∨
    (∃ f, (greet ops site s w).1 = .error f) ∧
      (greet ops site s w).2 = (shutdown ops h (exchange ops h (handshake site s) w1).2).2 := by
  have es : ops.start ⟨s.nodeExecutable, site.script, directory site s⟩ w = (.ok h, w1) := hs
  rcases e : exchange ops h (handshake site s) w1 with ⟨r, w2⟩
  cases r with
  | error f =>
    simp only [greet, es, e]
    split
    · exact .inr ⟨giveUp_error ops h _ w2, giveUp_world ops h _ w2⟩
    · exact .inl ⟨rfl, fun k v hk => by cases hk⟩
  | ok reply =>
    simp only [greet, es, e]
    rcases greeting reply with f | (reason | version)
    · exact .inl ⟨rfl, fun k v hk => by cases hk⟩
    · exact .inr ⟨giveUp_error ops h _ w2, giveUp_world ops h _ w2⟩
    · exact .inl ⟨rfl, fun k v hk => by cases hk; rfl⟩

/-- A handshake starts one process, and all else that it does is made of actions on it. -/
theorem greet_cases (ops : ChildOps W) (site : Site) (s : Settings) (w : W) :
    (∃ f w1, ops.start (workerCommand site s) w = (.error f, w1) ∧
      (∃ g, (greet ops site s w).1 = .error g) ∧ (greet ops site s w).2 = w1) ∨
    ∃ h w1, ops.start (workerCommand site s) w = (.ok h, w1) ∧
      (∀ R, Respected ops h R → R w1 (greet ops site s w).2) ∧
      ∀ k v, (greet ops site s w).1 = .ok (k, v) → k = h := by
  rcases e1 : ops.start (workerCommand site s) w with ⟨r, w1⟩
  cases r with
  | error f =>
    have es : ops.start ⟨s.nodeExecutable, site.script, directory site s⟩ w = (.error f, w1) := e1
    refine .inl ⟨f, w1, rfl, ?_⟩
    simp only [greet, es]
    exact ⟨⟨_, rfl⟩, trivial⟩
  | ok h =>
    refine .inr ⟨h, w1, rfl, ?_⟩
    have hx : ∀ R, Respected ops h R → R w1 (exchange ops h (handshake site s) w1).2 :=
      fun R hR => exchange_respects hR _ w1
    rcases greet_started e1 with ⟨hw, hk⟩ | ⟨⟨f, hf⟩, hw⟩
    · exact ⟨fun R hR => hw ▸ hx R hR, hk⟩
    · refine ⟨fun R hR => hw ▸ hR.trans (hx R hR) (shutdown_respects hR _), ?_⟩
      intro k v hk
      rw [hf] at hk
      cases hk

theorem greet_ok {site : Site} {s : Settings} {w : W} {v : Value}
    (hg : (greet ops site s w).1 = .ok (h, v)) :
    ∃ w1 reply, ops.start (workerCommand site s) w = (.ok h, w1) ∧
      (exchange ops h (handshake site s) w1).1 = .ok reply ∧ greeting reply = .ok (.ok v) ∧
      (greet ops site s w).2 = (exchange ops h (handshake site s) w1).2 := by
  rcases e1 : ops.start (workerCommand site s) w with ⟨r, w1⟩
  have es : ops.start ⟨s.nodeExecutable, site.script, directory site s⟩ w = (r, w1) := e1
  unfold greet at hg ⊢
  rw [es] at hg ⊢
  cases r with
  | error f => cases hg
  | ok k =>
    rcases e2 : exchange ops k (handshake site s) w1 with ⟨r2, w2⟩
    simp only [e2] at hg ⊢
    cases r2 with
    | error f =>
      dsimp only at hg
      split at hg
      · obtain ⟨g, hg'⟩ := giveUp_error (α := Child.Handle × Value) ops k _ w2
        rw [hg'] at hg
        cases hg
      · cases hg
    | ok reply =>
      dsimp only at hg ⊢
      rcases e3 : greeting reply with f | (reason | version)
      · rw [e3] at hg
        cases hg
      · rw [e3] at hg
        obtain ⟨g, hg'⟩ := giveUp_error (α := Child.Handle × Value) ops k _ w2
        rw [hg'] at hg
        cases hg
      · rw [e3] at hg
        cases hg
        exact ⟨w1, reply, rfl, by rw [e2], e3, by rw [e2]⟩

/-- Registering a compiler that is not registered is a handshake; when it succeeds, the compiler
holds the process that was started. -/
theorem register_cases {ops : ChildOps W} {c : Compiler} {l : Logged W}
    (hn : c.isRegistered ops l.world = false) (site : Site) :
    (∃ f, (register ops site c l).1 = .error f ∧
      (greet ops site c.settings l.world).1 = .error f ∧ (register ops site c l).2.1 = c ∧
      (register ops site c l).2.2.world = (greet ops site c.settings l.world).2) ∨
    ∃ h v, (register ops site c l).1 = .ok () ∧
      (greet ops site c.settings l.world).1 = .ok (h, v) ∧
      (register ops site c l).2.1 = { c with process := some h, version := v } ∧
      (register ops site c l).2.2.world = (greet ops site c.settings l.world).2 := by
  rcases e : greet ops site c.settings l.world with ⟨r, w⟩
  cases r with
  | error f =>
    left
    refine ⟨f, ?_⟩
    simp only [register, hn, e, Bool.false_eq_true, ↓reduceIte, and_self]
  | ok hv =>
    obtain ⟨h, v⟩ := hv
    right
    refine ⟨h, v, ?_⟩
    simp only [register, hn, e, Bool.false_eq_true, ↓reduceIte, Logged.note_world, and_self]

/-! ## Requests -/

/-- The exchange of a request breaks: a pipe of the held process ends or fails. -/
def Breaks (ops : ChildOps W) (site : Site) (path source : Value) (c : Compiler) (w : W) : Prop :=
  ∃ h p f, c.process = some h ∧ absolutePath site path = .ok p ∧
    (exchange ops h (request (c.lastId + 1) p source) w).1 = .error f ∧ isBroken f = true

/-- A request to the held process counts up and is an exchange, unless its path is none. A pipe that
breaks costs the compiler the process, which is shut down. -/
theorem compile_exchanged (ops : ChildOps W) (site : Site) (path source : Value) {c : Compiler}
    (l : Logged W) (hc : c.process = some h) :
    (∃ f, absolutePath site path = .error f ∧
      compile ops site path source c l = (.error f, { c with lastId := c.lastId + 1 }, l)) ∨
    ∃ p, absolutePath site path = .ok p ∧
      (((compile ops site path source c l).2.1 = { c with lastId := c.lastId + 1 } ∧
        (compile ops site path source c l).2.2.world =
          (exchange ops h (request (c.lastId + 1) p source) l.world).2) ∨
      ((compile ops site path source c l).2.1 =
          { c with lastId := c.lastId + 1, process := none } ∧
        (compile ops site path source c l).2.2.world = (shutdown ops h
          (exchange ops h (request (c.lastId + 1) p source) l.world).2).2)) := by
  cases hp : absolutePath site path with
  | error f =>
    simp only [compile, hc, hp]
    exact .inl ⟨f, rfl, rfl⟩
  | ok p =>
    refine .inr ⟨p, rfl, ?_⟩
    rcases e : exchange ops h (request (c.lastId + 1) p source) l.world with ⟨r, w⟩
    cases r with
    | ok reply =>
      simp only [compile, hc, hp, e]
      exact .inl ⟨trivial, trivial⟩
    | error f =>
      simp only [compile, hc, hp, e]
      split
      · exact .inr ⟨rfl, giveUp_world ops h exitedUnexpectedly w⟩
      · exact .inl ⟨rfl, rfl⟩

/-- A request acts on the held process only, and costs the compiler its process exactly when the
exchange breaks. -/
theorem compile_held (ops : ChildOps W) (site : Site) (path source : Value) (c : Compiler)
    (l : Logged W) (hc : c.process = some h) :
    (∀ R, Respected ops h R → R l.world (compile ops site path source c l).2.2.world) ∧
    (Breaks ops site path source c l.world → (compile ops site path source c l).2.1.process = none ∧
      ∃ f, (compile ops site path source c l).1 = .error f) ∧
    (¬ Breaks ops site path source c l.world →
      (compile ops site path source c l).2.1.process = some h) := by
  cases hp : absolutePath site path with
  | error f =>
    have hb : ¬ Breaks ops site path source c l.world := by
      rintro ⟨k, p, g, -, hk, -⟩
      rw [hp] at hk
      cases hk
    simp only [compile, hc, hp]
    exact ⟨fun R hR => hR.refl _, fun hx => absurd hx hb, fun _ => trivial⟩
  | ok p =>
    rcases e : exchange ops h (request (c.lastId + 1) p source) l.world with ⟨r, w⟩
    have hx : ∀ R, Respected ops h R → R l.world w := by
      intro R hR
      have hx := exchange_respects hR (request (c.lastId + 1) p source) l.world
      rwa [e] at hx
    have hb : Breaks ops site path source c l.world ↔ ∃ f, r = .error f ∧ isBroken f = true := by
      constructor
      · rintro ⟨k, q, f, hk, hq, hf, hbr⟩
        rw [hc] at hk
        rw [hp] at hq
        cases hk
        cases hq
        rw [e] at hf
        exact ⟨f, hf, hbr⟩
      · rintro ⟨f, rfl, hbr⟩
        exact ⟨h, p, f, hc, hp, by rw [e], hbr⟩
    rw [hb]
    cases r with
    | ok reply =>
      simp only [compile, hc, hp, e]
      refine ⟨hx, ?_, fun _ => trivial⟩
      rintro ⟨f, hf, -⟩
      cases hf
    | error f =>
      by_cases hbr : isBroken f = true
      · simp only [compile, hc, hp, e, hbr, if_true]
        refine ⟨fun R hR => hR.trans (hx R hR) (giveUp_respects hR _ w), ?_, ?_⟩
        · intro _
          exact ⟨trivial, giveUp_error ops h exitedUnexpectedly w⟩
        · intro hn
          exact absurd ⟨f, rfl, hbr⟩ hn
      · simp only [compile, hc, hp, e, hbr, Bool.false_eq_true, if_false]
        refine ⟨hx, ?_, fun _ => trivial⟩
        rintro ⟨g, hg, hgb⟩
        cases hg
        exact absurd hgb hbr

/-- A compiler without a process answers every request with one fault, and does nothing. -/
theorem compile_unheld (ops : ChildOps W) (site : Site) (path source : Value) (c : Compiler)
    (l : Logged W) (hc : c.process = none) :
    compile ops site path source c l = (.error notRegistered, c, l) := by
  simp only [compile, hc]

end ConfigLoader.Compiler
