import ConfigLoader.Proofs.Callers.Tasks
import ConfigLoader.Proofs.Threads.Custody

/-! # Threads keep the record in order

While a process answers, the thread that has the lock is the only one at a task, until a close takes
the process. So what threads do is recorded as it may be, in whatever order they take their steps.
-/
namespace ConfigLoader.Callers
open Child (Handle Action)
open Compiler (Site)
open Matching (Carries)
open Threads (Actor set_cases)
variable {W : Type} {ops : ChildOps W} {site : Site} {h : Handle} {P : List Text → W → Prop}
  {i : Nat}

def IsRequest (limits : Limits) (id : Nat) (text : Text) : Prop :=
  ∃ p src, Compiler.frame limits (Compiler.request id p src) = .ok text

/-- A process whose pipes work, and that answers the requests that are written to it in their order,
each with one line with its number. `P` tells in which worlds some lines are without an answer. -/
structure Prompt (ops : ChildOps W) (h : Handle) (P : List Text → W → Prop) : Prop where
  input : ∀ ts w, P ts w → ops.hasInput h w = true
  output : ∀ ts w, P ts w → ops.hasOutput h w = true
  write : ∀ id t ts w, IsRequest ops.limits id t → P ts w →
    ∃ s u, ops.act h (.write t) w = (.ok s, u) ∧ P (ts ++ [t]) u
  flush : ∀ ts w, P ts w → ∃ s u, ops.act h .flush w = (.ok s, u) ∧ P ts u
  read : ∀ id t ts w, IsRequest ops.limits id t → P (t :: ts) w →
    ∃ line reply u, ops.act h .readLine w = (.ok line, u) ∧ line ≠ [] ∧
      Json.load ops.limits.reading line = .ok reply ∧ Carries id reply ∧ P ts u

/-! ## Where threads are -/

/-- Where the thread is that has the lock, before it has written anything. -/
inductive Entering (h : Handle) (n last : Nat) : Activity → Prop
  | looking {p src} : Entering h n last (.compile p src .looking)
  | numbering {p src} : Entering h n last (.compile p src (.numbering h))
  | writing {p src} (hn : n < last) : Entering h n last (.compile p src (.writing h last))
  | leaving {p src f} : Entering h n last (.compile p src (.leaving (.error f)))
  | closing : Entering h n last (.close .looking)
  | emptying : Entering h n last (.close (.emptying (some h)))

structure Alone (a : Actor) (B : Activity → Prop) (x : Crew W) : Prop where
  holder : x.shared.holder = some a.thread
  others : ∀ (j : Nat) (u : Thread), x.threads[j]? = some u → j ≠ a.thread → u.activity = .idle
  self : ∃ t, x.threads[a.thread]? = some t ∧ t.actor a.thread = a ∧ B t.activity

def AfterClose (h : Handle) (c : Actor) (closed : Bool) (holder : Option Nat) (j : Nat)
    (u : Thread) : Prop :=
  match u.activity with
  | .idle => True
  | .compile _ _ .looking => holder = some j
  | .compile _ _ (.leaving r) => holder = some j ∧ r = .error Compiler.notRegistered
  | .compile .. => False
  | .close .looking | .close (.emptying none) | .close (.leaving none) => holder = some j
  | .close (.emptying (some _)) => False
  | .close (.leaving (some k)) => holder = some j ∧ k = h ∧ u.actor j = c ∧ closed = false
  | .close (.noting k) => k = h ∧ u.actor j = c ∧ closed = false
  | .close (.ending k p) => k = h ∧ u.actor j = c ∧ (p = .input → closed = false)

def Fits (limits : Limits) (h : Handle) (P : List Text → W → Prop) (n : Nat) (x : Crew W) : Stage → Prop
  | .free => x.shared.compiler.process = some h ∧ P [] x.shared.state.world ∧
      x.shared.holder = none ∧ ∀ (j : Nat) (u : Thread), x.threads[j]? = some u → u.activity = .idle
  | .entered a => x.shared.compiler.process = some h ∧ P [] x.shared.state.world ∧
      Alone a (Entering h n x.shared.compiler.lastId) x
  | .asked a text => x.shared.compiler.process = some h ∧ P [text] x.shared.state.world ∧
      IsRequest limits n text ∧ Alone a (fun b => ∃ p src, b = .compile p src (.flushing h)) x
  | .sent a text => x.shared.compiler.process = some h ∧ P [text] x.shared.state.world ∧
      IsRequest limits n text ∧ Alone a (fun b => ∃ p src, b = .compile p src (.reading h)) x
  | .answered a reply => x.shared.compiler.process = some h ∧ P [] x.shared.state.world ∧
      Alone a (fun b => ∃ p src, b = .compile p src (.leaving (.ok reply))) x
  | .taken c closed => x.shared.compiler.process = none ∧
      ∀ (j : Nat) (u : Thread), x.threads[j]? = some u → AfterClose h c closed x.shared.holder j u

/-- The record is in order, and the threads are where it says. -/
def Staged (limits : Limits) (h : Handle) (P : List Text → W → Prop) (x : Crew W) : Prop :=
  ∃ s n, Written limits h s n x.shared.events ∧ n ≤ x.shared.compiler.lastId ∧ Fits limits h P n x s

/-! ## Steps -/

theorem step?_cases {x x' : Crew W} (hs : x.step? ops site i = some x') :
    ∃ t t' y, x.threads[i]? = some t ∧ t.step ops site i x.shared = some (t', y) ∧
      x' = ⟨y, x.threads.set i t'⟩ := by
  obtain ⟨t, ht, hs⟩ := Option.bind_eq_some_iff.mp hs
  obtain ⟨⟨t', y⟩, hst, rfl⟩ := Option.map_eq_some_iff.mp hs
  exact ⟨t, t', y, ht, hst, rfl⟩

section Alone
variable {x x' : Crew W} {y : Shared W} {t t' : Thread} {a : Actor} {B C : Activity → Prop}

theorem Alone.turn (ha : Alone a B x) (hs : x.step? ops site i = some x') :
    ∃ t t' y, a = t.actor i ∧ x.threads[i]? = some t ∧ B t.activity ∧
      t.step ops site i x.shared = some (t', y) ∧ x' = ⟨y, x.threads.set i t'⟩ := by
  obtain ⟨t, t', y, ht, hst, hx'⟩ := step?_cases hs
  by_cases hi : i = a.thread
  · subst hi
    obtain ⟨u, hu, hact, hb⟩ := ha.self
    obtain rfl : t = u := Option.some.inj (ht.symm.trans hu)
    exact ⟨t, t', y, hact.symm, ht, hb, hst, hx'⟩
  · -- Another thread waits for the lock.
    obtain ⟨task, ts, hh, -⟩ := idle_step (ha.others i t ht hi) hst
    rw [ha.holder] at hh
    cases hh

theorem Alone.enter (ht : x.threads[i]? = some t)
    (hidle : ∀ (j : Nat) (u : Thread), x.threads[j]? = some u → u.activity = .idle)
    (hy : y.holder = some i) (hr : t'.results = t.results) (hb : B t'.activity) :
    Alone (t.actor i) B ⟨y, x.threads.set i t'⟩ where
  holder := hy
  others j u hu hj := by
    rcases set_cases hu with ⟨rfl, -⟩ | ⟨-, hu⟩
    · exact absurd rfl hj
    · exact hidle j u hu
  self := by
    refine ⟨t', List.getElem?_set_self (List.getElem?_eq_some_iff.mp ht).1, ?_, hb⟩
    simp only [Thread.actor, hr]

theorem Alone.goes {b : Activity} (ha : Alone (t.actor i) B x) (ht : x.threads[i]? = some t)
    (hy : y.holder = x.shared.holder) (hb : C b) :
    Alone (t.actor i) C ⟨y, x.threads.set i (t.goes b)⟩ where
  holder := hy.trans ha.holder
  others j u hu hj := by
    rcases set_cases hu with ⟨rfl, -⟩ | ⟨-, hu⟩
    · exact absurd rfl hj
    · exact ha.others j u hu hj
  self := ⟨t.goes b, List.getElem?_set_self (List.getElem?_eq_some_iff.mp ht).1, rfl, hb⟩

theorem Alone.idle (ha : Alone (t.actor i) B x) (ht' : t'.activity = .idle) (j : Nat) (u : Thread)
    (hu : (x.threads.set i t')[j]? = some u) : u.activity = .idle := by
  rcases set_cases hu with ⟨rfl, rfl⟩ | ⟨hj, hu⟩
  · exact ht'
  · exact ha.others j u hu hj

end Alone

section Stages
variable {x x' : Crew W} {n : Nat} {a : Actor}

theorem free_step (hw : Written ops.limits h .free n x.shared.events) (hn : n ≤ x.shared.compiler.lastId)
    (hx : Fits ops.limits h P n x .free)
    (hk : ∀ (j : Nat) (u : Thread), x.threads[j]? = some u → Known x.shared.events j u)
    (hs : x.step? ops site i = some x') : Staged ops.limits h P x' := by
  obtain ⟨hp, hP, -, hidle⟩ := hx
  obtain ⟨t, t', y, ht, hst, rfl⟩ := step?_cases hs
  obtain ⟨task, ts, -, rfl, rfl⟩ := idle_step (hidle i t ht) hst
  refine ⟨.entered (t.actor i), n, hw.see (.enter ((hk i t ht).fresh (hidle i t ht))), hn, hp, hP,
    .enter ht hidle rfl rfl ?_⟩
  cases task with
  | compile path source => exact .looking
  | close => exact .closing

theorem answered_step {reply : Value} (hw : Written ops.limits h (.answered a reply) n x.shared.events)
    (hn : n ≤ x.shared.compiler.lastId) (hx : Fits ops.limits h P n x (.answered a reply))
    (hs : x.step? ops site i = some x') : Staged ops.limits h P x' := by
  obtain ⟨hp, hP, ha⟩ := hx
  obtain ⟨t, t', y, rfl, ht, ⟨p, src, hb⟩, hst, rfl⟩ := ha.turn hs
  rw [compile_step _ _ _ _ hb] at hst
  obtain ⟨rfl, rfl⟩ := Prod.mk.inj (Option.some.inj hst)
  exact ⟨.free, n, hw.see .finish, hn, hp, hP, rfl, ha.idle rfl⟩

theorem sent_step (hops : Prompt ops h P) {text : Text}
    (hw : Written ops.limits h (.sent a text) n x.shared.events)
    (hn : n ≤ x.shared.compiler.lastId) (hx : Fits ops.limits h P n x (.sent a text))
    (hs : x.step? ops site i = some x') : Staged ops.limits h P x' := by
  obtain ⟨hp, hP, hreq, ha⟩ := hx
  obtain ⟨t, t', y, rfl, ht, ⟨p, src, hb⟩, hst, rfl⟩ := ha.turn hs
  obtain ⟨line, reply, u, hact, hne, hl, hc, hP'⟩ := hops.read n text [] _ hreq hP
  have hout := hops.output _ _ hP
  have hempty : line.isEmpty = false := by
    cases line with
    | nil => exact absurd rfl hne
    | cons c cs => rfl
  rw [compile_step _ _ _ _ hb] at hst
  simp only [Thread.compileStep, hout, Shared.act, hact, hempty, hl, if_true, Bool.false_eq_true,
    if_false] at hst
  obtain ⟨rfl, rfl⟩ := Prod.mk.inj (Option.some.inj hst)
  exact ⟨.answered (t.actor i) reply, n, hw.see (.answer hl hc), hn, hp, hP',
    ha.goes ht rfl ⟨p, src, rfl⟩⟩

theorem asked_step (hops : Prompt ops h P) {text : Text}
    (hw : Written ops.limits h (.asked a text) n x.shared.events)
    (hn : n ≤ x.shared.compiler.lastId) (hx : Fits ops.limits h P n x (.asked a text))
    (hs : x.step? ops site i = some x') : Staged ops.limits h P x' := by
  obtain ⟨hp, hP, hreq, ha⟩ := hx
  obtain ⟨t, t', y, rfl, ht, ⟨p, src, hb⟩, hst, rfl⟩ := ha.turn hs
  obtain ⟨s, u, hact, hP'⟩ := hops.flush _ _ hP
  rw [compile_step _ _ _ _ hb] at hst
  simp only [Thread.compileStep, Shared.act, hact] at hst
  obtain ⟨rfl, rfl⟩ := Prod.mk.inj (Option.some.inj hst)
  exact ⟨.sent (t.actor i) text, n, hw.see .send, hn, hp, hP', hreq, ha.goes ht rfl ⟨p, src, rfl⟩⟩

theorem isBroken_of_frame {limits : Limits} {m : Value} {f : Fault}
    (hf : Compiler.frame limits m = .error f) :
    Compiler.isBroken f = false := by
  have hk := Compiler.frame_fault hf
  rcases hk with hk | hk | hk <;> simp [Compiler.isBroken, Fault.isSystem, hk] <;> decide

theorem entered_step (hops : Prompt ops h P) (hw : Written ops.limits h (.entered a) n x.shared.events)
    (hn : n ≤ x.shared.compiler.lastId) (hx : Fits ops.limits h P n x (.entered a))
    (hs : x.step? ops site i = some x') : Staged ops.limits h P x' := by
  obtain ⟨hp, hP, ha⟩ := hx
  obtain ⟨t, t', y, rfl, ht, hb, hst, rfl⟩ := ha.turn hs
  generalize hact : t.activity = b at hb
  cases hb with
  | @looking p src =>
    rw [compile_step _ _ _ _ hact] at hst
    simp only [Thread.compileStep, hp] at hst
    obtain ⟨rfl, rfl⟩ := Prod.mk.inj (Option.some.inj hst)
    exact ⟨.entered (t.actor i), n, hw, hn, hp, hP, ha.goes ht rfl .numbering⟩
  | @numbering p src =>
    rw [compile_step _ _ _ _ hact] at hst
    obtain ⟨rfl, rfl⟩ := Prod.mk.inj (Option.some.inj hst)
    exact ⟨.entered (t.actor i), n, hw, Nat.le_succ_of_le hn, hp, hP,
      ha.goes ht rfl (.writing (Nat.lt_succ_of_le hn))⟩
  | @writing p src hlt =>
    rw [compile_step _ _ _ _ hact] at hst
    cases hpath : Compiler.absolutePath site p with
    | error f =>
      simp only [Thread.compileStep, hpath] at hst
      obtain ⟨rfl, rfl⟩ := Prod.mk.inj (Option.some.inj hst)
      exact ⟨.entered (t.actor i), n, hw, hn, hp, hP, ha.goes ht rfl .leaving⟩
    | ok q =>
      cases hm : Compiler.frame ops.limits (Compiler.request x.shared.compiler.lastId q src) with
      | error f =>
        simp only [Thread.compileStep, hpath, hops.input _ _ hP, hm, Thread.failing,
          isBroken_of_frame hm, if_true, Bool.false_eq_true, if_false] at hst
        obtain ⟨rfl, rfl⟩ := Prod.mk.inj (Option.some.inj hst)
        exact ⟨.entered (t.actor i), n, hw, hn, hp, hP, ha.goes ht rfl .leaving⟩
      | ok text =>
        obtain ⟨s, u, hwrite, hP'⟩ := hops.write _ text _ _ ⟨q, src, hm⟩ hP
        simp only [Thread.compileStep, hpath, hops.input _ _ hP, hm, Shared.act, hwrite, if_true]
          at hst
        obtain ⟨rfl, rfl⟩ := Prod.mk.inj (Option.some.inj hst)
        exact ⟨.asked (t.actor i) text, x.shared.compiler.lastId,
          hw.see (.ask (Compiler.requestId?_frame hm) hlt), Nat.le_refl _, hp, hP',
          ⟨q, src, hm⟩, ha.goes ht rfl ⟨p, src, rfl⟩⟩
  | @leaving p src f =>
    rw [compile_step _ _ _ _ hact] at hst
    obtain ⟨rfl, rfl⟩ := Prod.mk.inj (Option.some.inj hst)
    exact ⟨.free, n, hw.see .refuse, hn, hp, hP, rfl, ha.idle rfl⟩
  | closing =>
    rw [close_step _ _ _ _ hact] at hst
    simp only [Thread.closeStep, hp] at hst
    obtain ⟨rfl, rfl⟩ := Prod.mk.inj (Option.some.inj hst)
    exact ⟨.entered (t.actor i), n, hw, hn, hp, hP, ha.goes ht rfl .emptying⟩
  | emptying =>
    rw [close_step _ _ _ _ hact] at hst
    obtain ⟨rfl, rfl⟩ := Prod.mk.inj (Option.some.inj hst)
    refine ⟨.taken (t.actor i) false, n, hw.see .take, hn, rfl, fun j u hu => ?_⟩
    rcases set_cases hu with ⟨rfl, rfl⟩ | ⟨hj, hu⟩
    · exact ⟨ha.holder, rfl, rfl, rfl⟩
    · simp only [AfterClose, ha.others j u hu hj]

/-! ### After a close -/

theorem AfterClose.other {c : Actor} {b b' : Bool} {o o' : Option Nat} {j : Nat} {u : Thread}
    (hu : AfterClose h c b o j u) (hj : j ≠ i) (ho : o' = o ∨ o = none ∨ o = some i)
    (hb : b' = b ∨ c.thread = i) : AfterClose h c b' o' j u := by
  -- The lock is not taken from a thread that has it, and only the closer closes the input.
  have hold : o = some j → o' = some j := by
    rintro rfl
    rcases ho with rfl | ho | ho
    · rfl
    · cases ho
    · exact absurd (Option.some.inj ho) hj
  have hclosed : u.actor j = c → b' = b := by
    rintro rfl
    exact hb.resolve_right hj
  unfold AfterClose at hu ⊢
  split at hu
  · trivial
  · exact hold hu
  · exact ⟨hold hu.1, hu.2⟩
  · exact hu
  · exact hold hu
  · exact hold hu
  · exact hold hu
  · exact hu
  · exact ⟨hold hu.1, hu.2.1, hu.2.2.1, (hclosed hu.2.2.1).trans hu.2.2.2⟩
  · exact ⟨hu.1, hu.2.1, (hclosed hu.2.1).trans hu.2.2⟩
  · exact ⟨hu.1, hu.2.1, fun hp => (hclosed hu.2.1).trans (hu.2.2 hp)⟩

theorem AfterClose.set {c : Actor} {b b' : Bool} {o o' : Option Nat} {ts : List Thread}
    {t' : Thread}
    (hall : ∀ (j : Nat) (u : Thread), ts[j]? = some u → AfterClose h c b o j u)
    (ho : o' = o ∨ o = none ∨ o = some i) (hb : b' = b ∨ c.thread = i)
    (ht' : AfterClose h c b' o' i t') (j : Nat) (u : Thread) (hu : (ts.set i t')[j]? = some u) :
    AfterClose h c b' o' j u := by
  rcases set_cases hu with ⟨rfl, rfl⟩ | ⟨hj, hu⟩
  · exact ht'
  · exact (hall j u hu).other hj ho hb

theorem action_quiet (p : Ending) : ¬ p.action.IsTraffic := by
  cases p <;> exact id

theorem action_closeInput {p : Ending} (hp : p.action = .closeInput) : p = .input := by
  cases p <;> first | rfl | cases hp

theorem next_ne_input {p q : Ending} {r : Except Fault Text} (hn : p.next r = .inr q) :
    q ≠ .input := by
  rintro rfl
  have hw : ∀ r, Ending.waited r ≠ .inr .input := by
    intro r
    cases r <;> nofun
  cases p with
  | input =>
    cases r with
    | error f =>
      simp only [Ending.next] at hn
      split at hn <;> cases hn
    | ok s => cases hn
  | terminate | kill => cases r <;> cases hn
  | first | second =>
    simp only [Ending.next] at hn
    split at hn
    · cases hn
    · exact hw _ hn
  | last => exact hw _ hn
  | output => cases hn

theorem shut_written (ops : ChildOps W) {y : Shared W} {c : Actor} {b : Bool} {p : Ending}
    (hw : Written ops.limits h (.taken c b) n y.events) (hb : p = .input → b = false) :
    (∃ b', Written ops.limits h (.taken c b') n (y.shut ops c h p).2.events) ∧
      (y.shut ops c h p).2.compiler = y.compiler ∧ (y.shut ops c h p).2.holder = y.holder ∧
      ∀ q, (y.shut ops c h p).1 = .inr q → q ≠ .input := by
  unfold Shared.shut
  split
  · refine ⟨⟨_, hw.see (.shut (action_quiet p) fun ha => hb (action_closeInput ha))⟩, rfl, rfl, ?_⟩
    exact fun q hq => next_ne_input hq
  · exact ⟨⟨b, hw⟩, rfl, rfl, fun q hq => next_ne_input hq⟩

theorem not_compile {es : List Event} {r e : Except Fault Value}
    (hes : ∀ p src, .enter a (.compile p src) ∉ es) (p src : Value)
    (hm : Task.close = .compile p src ∨ .enter a (.compile p src) ∈ es) : r = e := by
  rcases hm with hm | hm
  · cases hm
  · exact absurd hm (hes p src)

/-- A request that is under way behind a close gives up. -/
theorem taken_compile {c : Actor} {b : Bool} {t t' : Thread} {y : Shared W} {path source : Value}
    {p : CompilePoint} (hw : Written ops.limits h (.taken c b) n x.shared.events)
    (hn : n ≤ x.shared.compiler.lastId) (hx : Fits ops.limits h P n x (.taken c b))
    (ht : x.threads[i]? = some t) (hact : t.activity = .compile path source p)
    (hst : t.step ops site i x.shared = some (t', y)) :
    Staged ops.limits h P ⟨y, x.threads.set i t'⟩ := by
  obtain ⟨hp, hall⟩ := hx
  have hi := hall i t ht
  rw [compile_step _ _ _ _ hact] at hst
  simp only [AfterClose, hact] at hi
  cases p with
  | looking =>
    simp only [Thread.compileStep, hp] at hst
    obtain ⟨rfl, rfl⟩ := Prod.mk.inj (Option.some.inj hst)
    exact ⟨.taken c b, n, hw, hn, hp, AfterClose.set hall (.inl rfl) (.inl rfl) ⟨hi, rfl⟩⟩
  | leaving r =>
    obtain ⟨hh, rfl⟩ := hi
    obtain ⟨rfl, rfl⟩ := Prod.mk.inj (Option.some.inj hst)
    exact ⟨.taken c b, n, hw.see (.finishLate fun _ _ _ => rfl), hn, hp,
      AfterClose.set hall (.inr (.inr hh)) (.inl rfl) trivial⟩
  | _ => exact hi.elim

/-- A close that took the process shuts it down, and another close finds none. -/
theorem taken_close {c : Actor} {b : Bool} {t t' : Thread} {y : Shared W} {p : ClosePoint}
    (hw : Written ops.limits h (.taken c b) n x.shared.events)
    (hn : n ≤ x.shared.compiler.lastId) (hx : Fits ops.limits h P n x (.taken c b))
    (hknown : Known x.shared.events i t)
    (ht : x.threads[i]? = some t) (hact : t.activity = .close p)
    (hst : t.step ops site i x.shared = some (t', y)) :
    Staged ops.limits h P ⟨y, x.threads.set i t'⟩ := by
  obtain ⟨hp, hall⟩ := hx
  have hi := hall i t ht
  rw [close_step _ _ _ _ hact] at hst
  -- The task of a closing thread is no request.
  have hclose : ∀ p src, .enter (t.actor i) (.compile p src) ∉ x.shared.events := by
    intro p src hm
    have htask := hknown.task _ hm
    rw [hact] at htask
    cases htask
  simp only [AfterClose, hact] at hi
  cases p with
  | looking =>
    simp only [Thread.closeStep, hp] at hst
    obtain ⟨rfl, rfl⟩ := Prod.mk.inj (Option.some.inj hst)
    exact ⟨.taken c b, n, hw, hn, hp, AfterClose.set hall (.inl rfl) (.inl rfl) hi⟩
  | emptying k =>
    cases k with
    | some k => exact hi.elim
    | none =>
      obtain ⟨rfl, rfl⟩ := Prod.mk.inj (Option.some.inj hst)
      exact ⟨.taken c b, n, hw, hn, rfl, AfterClose.set hall (.inl rfl) (.inl rfl) hi⟩
  | leaving k =>
    cases k with
    | none =>
      obtain ⟨rfl, rfl⟩ := Prod.mk.inj (Option.some.inj hst)
      exact ⟨.taken c b, n, hw.see (.finishLate (not_compile hclose)), hn, hp,
        AfterClose.set hall (.inr (.inr hi)) (.inl rfl) trivial⟩
    | some k =>
      obtain ⟨hh, hrest⟩ := hi
      obtain ⟨rfl, rfl⟩ := Prod.mk.inj (Option.some.inj hst)
      exact ⟨.taken c b, n, hw, hn, hp,
        AfterClose.set hall (.inr (.inr hh)) (.inl rfl) hrest⟩
  | noting k =>
    obtain ⟨hkh, hactor, hb⟩ := hi
    obtain ⟨rfl, rfl⟩ := Prod.mk.inj (Option.some.inj hst)
    exact ⟨.taken c b, n, hw, hn, hp,
      AfterClose.set hall (.inl rfl) (.inl rfl) ⟨hkh, hactor, fun _ => hb⟩⟩
  | ending k p =>
    obtain ⟨rfl, rfl, hb⟩ := hi
    obtain ⟨⟨b', hw'⟩, hcomp, hhold, hnext⟩ := shut_written ops hw hb
    have hadds := shut_adds ops (t.actor i) k p x.shared
    simp only [Thread.closeStep] at hst
    rcases hshut : x.shared.shut ops (t.actor i) k p with ⟨d | q, z⟩
    · rw [hshut] at hw' hcomp hhold hadds hst
      obtain ⟨rfl, rfl⟩ := Prod.mk.inj (Option.some.inj hst)
      have hnone : ∀ p src, .enter (t.actor i) (.compile p src) ∉ z.events := by
        obtain ⟨es, hes, hnew⟩ := hadds
        intro p src hm
        rw [hes] at hm
        exact (List.mem_append.mp hm).elim (fun hm => (hnew _ hm).2 _ rfl) (hclose p src)
      exact ⟨.taken (t.actor i) b', n, hw'.see (.finishLate (not_compile hnone)), hcomp ▸ hn,
        (congrArg _ hcomp).trans hp, AfterClose.set hall (.inl hhold) (.inr rfl) trivial⟩
    · rw [hshut] at hw' hcomp hhold hst hnext
      obtain ⟨rfl, rfl⟩ := Prod.mk.inj (Option.some.inj hst)
      exact ⟨.taken (t.actor i) b', n, hw', hcomp ▸ hn, (congrArg _ hcomp).trans hp,
        AfterClose.set hall (.inl hhold) (.inr rfl)
          ⟨rfl, rfl, fun hq => absurd hq (hnext q rfl)⟩⟩

theorem taken_step {c : Actor} {b : Bool} (hw : Written ops.limits h (.taken c b) n x.shared.events)
    (hn : n ≤ x.shared.compiler.lastId) (hx : Fits ops.limits h P n x (.taken c b))
    (hk : ∀ (j : Nat) (u : Thread), x.threads[j]? = some u → Known x.shared.events j u)
    (hs : x.step? ops site i = some x') : Staged ops.limits h P x' := by
  have ⟨hp, hall⟩ := hx
  obtain ⟨t, t', y, ht, hst, rfl⟩ := step?_cases hs
  have hknown := hk i t ht
  cases hact : t.activity with
  | idle =>
    obtain ⟨task, ts, hh, rfl, rfl⟩ := idle_step hact hst
    refine ⟨.taken c b, n, hw.see (.enterLate (hknown.fresh hact)), hn, hp,
      AfterClose.set hall (.inr (.inl hh)) (.inl rfl) ?_⟩
    cases task <;> rfl
  | compile path source p => exact taken_compile hw hn hx ht hact hst
  | close p => exact taken_close hw hn hx hknown ht hact hst

end Stages

/-! ## Runs -/

/-- The record is in order, and tells of each thread how far it came. -/
structure Sane (limits : Limits) (h : Handle) (P : List Text → W → Prop) (x : Crew W) : Prop where
  staged : Staged limits h P x
  known : ∀ (j : Nat) (u : Thread), x.threads[j]? = some u → Known x.shared.events j u

variable {x x' : Crew W} {c : Compiler} {l : Logged W}

theorem Staged.step (hops : Prompt ops h P) (hx : Staged ops.limits h P x)
    (hk : ∀ (j : Nat) (u : Thread), x.threads[j]? = some u → Known x.shared.events j u)
    (hs : x.step? ops site i = some x') : Staged ops.limits h P x' := by
  obtain ⟨s, n, hw, hn, hfits⟩ := hx
  cases s with
  | free => exact free_step hw hn hfits hk hs
  | entered a => exact entered_step hops hw hn hfits hs
  | asked a text => exact asked_step hops hw hn hfits hs
  | sent a text => exact sent_step hops hw hn hfits hs
  | answered a reply => exact answered_step hw hn hfits hs
  | taken c b => exact taken_step hw hn hfits hk hs

theorem Sane.step (hops : Prompt ops h P) (hx : Sane ops.limits h P x)
    (hs : x.step? ops site i = some x') : Sane ops.limits h P x' := by
  refine ⟨hx.staged.step hops hx.known hs, fun j u hu => ?_⟩
  obtain ⟨t, t', y, ht, hst, rfl⟩ := step?_cases hs
  rcases set_cases hu with ⟨rfl, rfl⟩ | ⟨hj, hu⟩
  · exact (hx.known j t ht).turn (step_turn hst)
  · exact (hx.known j u hu).other (step_turn hst) hj

theorem Sane.run (hops : Prompt ops h P) (schedule : List Nat) (hx : Sane ops.limits h P x) :
    Sane ops.limits h P (x.run ops site schedule) := by
  induction schedule generalizing x with
  | nil => exact hx
  | cons i schedule ih =>
    refine ih (x := (x.step? ops site i).getD x) ?_
    cases hs : x.step? ops site i with
    | none => exact hx
    | some x' => exact hx.step hops hs

theorem Sane.start (hc : c.process = some h) (hP : P [] l.world) (tasks : List (List Task)) :
    Sane ops.limits h P (Crew.start c l tasks) := by
  have hthread : ∀ (j : Nat) (u : Thread), (Crew.start c l tasks).threads[j]? = some u →
      u.activity = .idle := by
    intro j u hu
    obtain ⟨ts, -, rfl⟩ := List.mem_map.mp (List.mem_of_getElem? hu)
    rfl
  refine ⟨⟨.free, c.lastId, .start, Nat.le_refl _, hc, hP, rfl, hthread⟩, fun j u hu => ?_⟩
  exact ⟨nofun, nofun, nofun⟩

end ConfigLoader.Callers
