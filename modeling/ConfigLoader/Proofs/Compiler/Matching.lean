import Mathlib
import ConfigLoader.Child.Script
import ConfigLoader.Proofs.Child.Records
import ConfigLoader.Proofs.Compiler.Frames
import ConfigLoader.Proofs.Compiler.Traffic

/-! # Which request a reply answers

A reply is taken for the answer to the request just sent, whatever it says itself. So it is the
answer to an earlier one as soon as a request was sent whose answer was not read while the process
was kept. The ledger of the processes tells how many such requests there are.
-/
namespace ConfigLoader.Matching
open Child (Handle Book Ledger ledger)
open Compiler
variable {W : Type}

def Carries (id : Nat) (reply : Value) : Prop :=
  ∃ es, reply = .mapping es ∧ Entries.getText? es "id" = some (.int id)

theorem Carries.unique {i j : Nat} {reply : Value} (hi : Carries i reply) (hj : Carries j reply) :
    i = j := by
  obtain ⟨es, rfl, hi⟩ := hi
  obtain ⟨fs, hf, hj⟩ := hj
  cases hf
  rw [hi] at hj
  cases hj
  rfl

/-- The process answers each request that it took, in their order and by their numbers. -/
def Orderly (limits : Limits) (b : Book) : Prop :=
  ∀ exchanged ∈ b.taken.reverse.zip b.given.reverse, ∀ id p src reply,
    frame limits (request id p src) = .ok exchanged.1 →
      Json.load limits.reading exchanged.2 = .ok reply →
      Carries id reply

/-- The reply that a request reads, if the exchange gets as far. -/
def decoded? (ops : ChildOps W) (site : Site) (path source : Value) (c : Compiler) (w : W) :
    Option Value :=
  match c.process, absolutePath site path with
  | some h, .ok p => (exchange ops h (request (c.lastId + 1) p source) w).1.toOption
  | _, _ => none

/-- What a request ends with is decided by the reply that it reads; one that reads none fails. -/
theorem compile_decoded (ops : ChildOps W) (site : Site) (path source : Value) (c : Compiler)
    (l : Logged W) :
    match decoded? ops site path source c l.world with
    | some reply => (compile ops site path source c l).1 = (Reply.read reply).bind Reply.outcome
    | none => ∃ f, (compile ops site path source c l).1 = .error f := by
  unfold decoded? compile
  cases hc : c.process with
  | none => exact ⟨_, rfl⟩
  | some h =>
    cases hp : absolutePath site path with
    | error f => exact ⟨f, rfl⟩
    | ok p =>
      rcases e : exchange ops h (request (c.lastId + 1) p source) l.world with ⟨r, w⟩
      cases r with
      | ok reply => simp only [e, Except.toOption]
      | error f =>
        simp only [e, Except.toOption]
        split
        · exact giveUp_error ops h exitedUnexpectedly w
        · exact ⟨f, rfl⟩

/-! ## Requests without an answer -/

/-- The world once a process took a message, if it does. -/
def takes? (ops : ChildOps W) (h : Handle) (message : Value) (w : W) : Option W :=
  match ops.hasInput h w, frame ops.limits message with
  | true, .ok text =>
    match ops.act h (.write text) w with
    | (.ok _, w) => some w
    | (.error _, _) => none
  | _, _ => none

/-- A process took a message, and a fault that does not cost the compiler its process comes before
an answer is read. -/
def leavesUnanswered (ops : ChildOps W) (h : Handle) (message : Value) (w : W) : Bool :=
  match takes? ops h message w with
  | none => false
  | some w =>
    match ops.act h .flush w with
    | (.error f, _) => !isBroken f
    | (.ok _, w) => ops.hasOutput h w &&
      match ops.act h .readLine w with
      | (.error f, _) => !isBroken f
      | (.ok _, _) => false

section Exchange
variable {ops : ChildOps W} {k : Handle} {m : Value} {t : Ledger W} {b : Book}

variable (ops m) in
theorem takes_cases (hb : t.books[k]? = some b) :
    (takes? (ledger ops) k m t = none ∧ ∃ f, (send (ledger ops) k m t).1 = .error f ∧
      (send (ledger ops) k m t).2.books[k]? = some b) ∨
    ∃ text u, takes? (ledger ops) k m t = some u ∧ frame ops.limits m = .ok text ∧
      u.books[k]? = some { b with taken := text :: b.taken } ∧
      send (ledger ops) k m t =
        (((ledger ops).act k .flush u).1.map fun _ => (), ((ledger ops).act k .flush u).2) := by
  cases hi : (ledger ops).hasInput k t with
  | false =>
    left
    simp only [takes?, send, hi, Bool.false_eq_true, if_false]
    exact ⟨trivial, closedInput, rfl, hb⟩
  | true =>
    cases hm : frame (ledger ops).limits m with
    | error f =>
      left
      simp only [takes?, send, hi, hm, if_true]
      exact ⟨trivial, f, rfl, hb⟩
    | ok text =>
      rcases ew : (ledger ops).act k (.write text) t with ⟨r, u⟩
      cases r with
      | error f =>
        left
        simp only [takes?, send, hi, hm, ew, if_true]
        refine ⟨trivial, f, rfl, ?_⟩
        rw [Child.Ledger.act_error ew]
        exact hb
      | ok line =>
        right
        refine ⟨text, u, ?_, hm, Child.Ledger.act_ok hb ew, send_written hi hm ew⟩
        simp only [takes?, hi, hm, ew]

variable (ops m) in
theorem exchange_cases (hb : t.books[k]? = some b) :
    (∃ f, (exchange (ledger ops) k m t).1 = .error f ∧
      (exchange (ledger ops) k m t).2.books[k]? = some b ∧
      leavesUnanswered (ledger ops) k m t = false) ∨
    (∃ text f, frame ops.limits m = .ok text ∧ (exchange (ledger ops) k m t).1 = .error f ∧
      (exchange (ledger ops) k m t).2.books[k]? = some { b with taken := text :: b.taken } ∧
      leavesUnanswered (ledger ops) k m t = !isBroken f) ∨
    ∃ text line, frame ops.limits m = .ok text ∧
      (exchange (ledger ops) k m t).1 =
        (if line.isEmpty then .error endOfOutput else Json.load ops.limits.reading line) ∧
      (exchange (ledger ops) k m t).2.books[k]? =
        some { b with taken := text :: b.taken, given := line :: b.given } ∧
      leavesUnanswered (ledger ops) k m t = false := by
  rcases takes_cases ops m hb with
    ⟨hn, f, h1, h2⟩ | ⟨text, u, ht, hm, hu, hs⟩
  · left
    rcases es : send (ledger ops) k m t with ⟨r, v⟩
    rw [es] at h1 h2
    obtain rfl : r = .error f := h1
    simp only [exchange, es, leavesUnanswered, hn]
    exact ⟨f, rfl, h2, trivial⟩
  · right
    rcases ef : (ledger ops).act k .flush u with ⟨r, v⟩
    rw [ef] at hs
    cases r with
    | error f =>
      left
      simp only [exchange, hs, leavesUnanswered, ht, ef, Except.map]
      refine ⟨text, f, hm, rfl, ?_, rfl⟩
      rw [Child.Ledger.act_error ef]
      exact hu
    | ok line =>
      have hv : v.books[k]? = some { b with taken := text :: b.taken } :=
        Child.Ledger.act_ok hu ef
      cases ho : (ledger ops).hasOutput k v with
      | false =>
        left
        simp only [exchange, hs, leavesUnanswered, ht, ef, Except.map, receive, ho,
          Bool.false_eq_true, if_false, Bool.false_and]
        exact ⟨text, endOfOutput, hm, rfl, hv, rfl⟩
      | true =>
        rcases er : (ledger ops).act k .readLine v with ⟨r, x⟩
        cases r with
        | error f =>
          left
          simp only [exchange, hs, leavesUnanswered, ht, ef, Except.map, receive, ho, er,
            if_true, Bool.true_and]
          refine ⟨text, f, hm, rfl, ?_, rfl⟩
          rw [Child.Ledger.act_error er]
          exact hv
        | ok line =>
          right
          simp only [exchange, hs, leavesUnanswered, ht, ef, Except.map, receive, ho, er,
            if_true, Bool.true_and]
          exact ⟨text, line, hm, rfl, Child.Ledger.act_ok hv er, trivial⟩

end Exchange

/-! ## Runs -/

structure Session (W : Type) where
  compiler : Compiler
  state : Logged (Ledger W)
  /-- The requests since the last registration that were left unanswered. -/
  unanswered : Nat

def Session.start (s : Settings) (w : W) : Session W := ⟨Compiler.new s, .start ⟨w, []⟩, 0⟩

inductive Call (W : Type)
  | register
  | compile (path source : Value)
  | close
  /-- Processes do something by themselves. -/
  | elapse (change : W → W)

/-- Whether a request of a session is left unanswered. -/
def Session.leaves (ops : ChildOps W) (site : Site) (path source : Value) (x : Session W) : Bool :=
  match x.compiler.process, absolutePath site path with
  | some h, .ok p =>
    leavesUnanswered (ledger ops) h (request (x.compiler.lastId + 1) p source) x.state.world
  | _, _ => false

def Call.perform (ops : ChildOps W) (site : Site) (x : Session W) : Call W → Session W
  | .register =>
    let (r, c, l) := Compiler.register (ledger ops) site x.compiler x.state
    ⟨c, l, if r.isOk then 0 else x.unanswered⟩
  | .compile path source =>
    let (_, c, l) := Compiler.compile (ledger ops) site path source x.compiler x.state
    ⟨c, l, x.unanswered + (x.leaves ops site path source).toNat⟩
  | .close =>
    let (_, c, l) := Compiler.close (ledger ops) x.compiler x.state
    ⟨c, l, x.unanswered⟩
  | .elapse change =>
    let t := x.state.world
    { x with state := { x.state with world := { t with world := change t.world } } }

def run (ops : ChildOps W) (site : Site) (cs : List (Call W)) (x : Session W) : Session W :=
  cs.foldl (Call.perform ops site) x

structure Balanced (limits : Limits) (lastId n : Nat) (b : Book) : Prop where
  length : b.taken.length = b.given.length + n
  answered : b.given ≠ []
  frames : ∃ hello requests, b.taken = requests ++ [hello] ∧
    ∀ text ∈ requests, ∃ id p src, id ≤ lastId ∧ frame limits (request id p src) = .ok text

theorem Balanced.mono {limits : Limits} {i j n : Nat} {b : Book} (hb : Balanced limits i n b)
    (hij : i ≤ j) :
    Balanced limits j n b := by
  obtain ⟨hello, requests, ht, hr⟩ := hb.frames
  refine ⟨hb.length, hb.answered, hello, requests, ht, ?_⟩
  intro text hm
  obtain ⟨id, p, src, hi, hf⟩ := hr text hm
  exact ⟨id, p, src, Nat.le_trans hi hij, hf⟩

theorem Balanced.next {limits : Limits} {i n : Nat} {b : Book} {p src : Value} {text : Text}
    (hb : Balanced limits i n b) (hf : frame limits (request (i + 1) p src) = .ok text) :
    Balanced limits (i + 1) (n + 1) { b with taken := text :: b.taken } ∧
    ∀ line, Balanced limits (i + 1) n
      { b with taken := text :: b.taken, given := line :: b.given } := by
  obtain ⟨hello, requests, ht, hr⟩ := (hb.mono (Nat.le_succ i)).frames
  have hn : ∃ hello requests', text :: b.taken = requests' ++ [hello] ∧
      ∀ t ∈ requests', ∃ id p src, id ≤ i + 1 ∧ frame limits (request id p src) = .ok t := by
    refine ⟨hello, text :: requests, by rw [ht]; rfl, ?_⟩
    intro t hm
    rcases List.mem_cons.mp hm with rfl | hm
    · exact ⟨i + 1, p, src, Nat.le_refl _, hf⟩
    · exact hr t hm
  have hl := hb.length
  refine ⟨⟨?_, hb.answered, hn⟩, fun line => ⟨?_, List.cons_ne_nil _ _, hn⟩⟩
  · simp only [List.length_cons]
    omega
  · simp only [List.length_cons]
    omega

/-- The book of the process that a session holds is balanced. -/
def Kept (limits : Limits) (x : Session W) : Prop :=
  ∀ k, x.compiler.process = some k →
    ∃ b, x.state.world.books[k]? = some b ∧ Balanced limits x.compiler.lastId x.unanswered b

section Steps
variable {ops : ChildOps W} {site : Site} {x : Session W}

/-- A registration starts with a balanced book, and if it fails, the books that there were stay. -/
theorem register_kept (hx : Kept ops.limits x) :
    Kept ops.limits (Call.register.perform ops site x) := by
  unfold Call.perform
  cases hn : x.compiler.isRegistered (ledger ops) x.state.world with
  | true =>
    simp only [register, hn, if_true]
    exact hx
  | false =>
    rcases e : register (ledger ops) site x.compiler x.state with ⟨r, c, l⟩
    have hr := register_cases hn site
    rw [e] at hr
    intro k hk
    rcases hr with ⟨f, rfl, -, hc, hl⟩ | ⟨h, v, rfl, hg, hc, hl⟩
    · obtain rfl : c = x.compiler := hc
      obtain ⟨b, hb, hB⟩ := hx k hk
      refine ⟨b, ?_, hB⟩
      have hlt := (List.getElem?_eq_some_iff.mp hb).1
      rw [show l.world = _ from hl, ← hb]
      rcases greet_cases (ledger ops) site x.compiler.settings x.state.world with
        ⟨f, u, hs, -, hu⟩ | ⟨j, u, hs, hu, -⟩
      · rw [hu, Child.Ledger.start_error hs]
      · obtain ⟨hj, g, hg⟩ := Child.Ledger.start_ok hs
        rw [hu _ (Child.Ledger.book_respected ops (hj ▸ Nat.ne_of_lt hlt)), hg,
          List.getElem?_append_left hlt]
    · obtain rfl : c = { x.compiler with process := some h, version := v } := hc
      obtain rfl : h = k := Option.some.inj hk
      obtain ⟨u, reply, hs, he, -, hw⟩ := greet_ok hg
      obtain ⟨hj, g, hu⟩ := Child.Ledger.start_ok hs
      have hb : u.books[h]? = some ⟨g, [], []⟩ := by
        rw [hu, hj, List.getElem?_append_right (Nat.le_refl _), Nat.sub_self]
        rfl
      rcases exchange_cases ops (handshake site x.compiler.settings) hb with
        ⟨f, h1, -⟩ | ⟨text, f, -, h1, -⟩ | ⟨text, line, -, -, h2, -⟩
      · rw [he] at h1
        cases h1
      · rw [he] at h1
        cases h1
      · refine ⟨⟨g, [text], [line]⟩, ?_, rfl, List.cons_ne_nil _ _, text, [], rfl, by simp⟩
        rw [show l.world = _ from hl, hw]
        exact h2

variable (ops) in
/-- The exchange of a request keeps the book balanced, unless it costs the compiler its process. -/
theorem exchange_balanced {k : Handle} {i n : Nat} {t : Ledger W} {b : Book} (p source : Value)
    (hb : t.books[k]? = some b) (hB : Balanced ops.limits i n b)
    (hr : ∀ f, (exchange (ledger ops) k (request (i + 1) p source) t).1 = .error f →
      isBroken f = false) :
    ∃ b', (exchange (ledger ops) k (request (i + 1) p source) t).2.books[k]? = some b' ∧
      Balanced ops.limits (i + 1)
        (n + (leavesUnanswered (ledger ops) k (request (i + 1) p source) t).toNat) b' := by
  rcases exchange_cases ops (request (i + 1) p source) hb with
    ⟨f, -, h2, hl⟩ | ⟨text, f, hf, h1, h2, hl⟩ | ⟨text, line, hf, -, h2, hl⟩
  · rw [hl]
    exact ⟨b, h2, hB.mono (Nat.le_succ i)⟩
  · rw [hl, hr f h1]
    exact ⟨_, h2, (hB.next hf).1⟩
  · rw [hl]
    exact ⟨_, h2, (hB.next hf).2 line⟩

theorem compile_kept (path source : Value) (hx : Kept ops.limits x) :
    Kept ops.limits ((Call.compile path source).perform ops site x) := by
  unfold Call.perform Session.leaves
  cases hc : x.compiler.process with
  | none =>
    simp only [compile_unheld _ _ _ _ _ _ hc]
    intro k hk
    rw [hc] at hk
    cases hk
  | some h =>
    obtain ⟨b, hb, hB⟩ := hx h hc
    cases hp : absolutePath site path with
    | error f =>
      simp only [compile, hc, hp]
      intro k hk
      obtain rfl : h = k := Option.some.inj hk
      exact ⟨b, hb, hB.mono (Nat.le_succ _)⟩
    | ok p =>
      have hk := exchange_balanced ops p source hb hB
      rcases e : exchange (ledger ops) h (request (x.compiler.lastId + 1) p source)
        x.state.world with ⟨r, u⟩
      rw [e] at hk
      cases r with
      | ok reply =>
        simp only [compile, hc, hp, e]
        intro k hk'
        obtain rfl : h = k := Option.some.inj hk'
        exact hk (by simp)
      | error f =>
        by_cases hf : isBroken f = true
        · simp only [compile, hc, hp, e, hf, if_true]
          intro k hk'
          cases hk'
        · simp only [compile, hc, hp, e, hf, Bool.false_eq_true, if_false]
          intro k hk'
          obtain rfl : h = k := Option.some.inj hk'
          refine hk ?_
          rintro _ ⟨⟩
          exact Bool.eq_false_iff.mpr hf

theorem perform_kept (call : Call W) (hx : Kept ops.limits x) :
    Kept ops.limits (call.perform ops site x) := by
  cases call with
  | register => exact register_kept hx
  | compile path source => exact compile_kept path source hx
  | close =>
    unfold Call.perform
    cases hc : x.compiler.process with
    | none =>
      simp only [close, hc]
      exact hx
    | some h =>
      simp only [close, hc]
      intro k hk
      cases hk
  | elapse change => exact hx

theorem run_kept (cs : List (Call W)) (hx : Kept ops.limits x) :
    Kept ops.limits (run ops site cs x) := by
  induction cs generalizing x with
  | nil => exact hx
  | cons call cs ih => exact ih (perform_kept call hx)

end Steps

/-! ## Replies -/

/-- The line after a balanced book is in the place of a request: of the one just sent if none was
left unanswered, and else of an earlier one. -/
theorem Balanced.partner {limits : Limits} {i n : Nat} {b : Book} {p src : Value} {text : Text}
    (hb : Balanced limits i n b) (hf : frame limits (request (i + 1) p src) = .ok text) (line : Text) :
    ∃ id p' src' t, frame limits (request id p' src') = .ok t ∧
      (t, line) ∈ (text :: b.taken).reverse.zip (line :: b.given).reverse ∧
      (n = 0 → id = i + 1) ∧ (n ≠ 0 → id ≤ i) := by
  have hl := hb.length
  have hline : (line :: b.given).reverse[b.given.length]? = some line := by
    rw [List.reverse_cons, List.getElem?_append_right (by simp), List.length_reverse, Nat.sub_self]
    rfl
  have hpair : ∀ t, (text :: b.taken).reverse[b.given.length]? = some t →
      (t, line) ∈ (text :: b.taken).reverse.zip (line :: b.given).reverse := by
    intro t ht
    exact List.mem_of_getElem? (List.getElem?_zip_eq_some.mpr ⟨ht, hline⟩)
  by_cases hn : n = 0
  · refine ⟨i + 1, p, src, text, hf, hpair text ?_, fun _ => rfl, fun h => absurd hn h⟩
    rw [List.reverse_cons, List.getElem?_append_right (by rw [List.length_reverse]; omega),
      List.length_reverse, hl, hn, Nat.add_zero, Nat.sub_self]
    rfl
  · obtain ⟨hello, requests, ht, hr⟩ := hb.frames
    have hpos : 0 < b.given.length := List.length_pos_iff.mpr hb.answered
    have hlen : requests.length + 1 = b.given.length + n := by
      rw [← hl, ht, List.length_append, List.length_singleton]
    have hlt : b.given.length - 1 < requests.reverse.length := by
      rw [List.length_reverse]
      omega
    obtain ⟨id, p', src', hi, hf'⟩ :=
      hr requests.reverse[b.given.length - 1] (List.mem_reverse.mp (List.getElem_mem hlt))
    refine ⟨id, p', src', _, hf', hpair _ ?_, fun h => absurd h hn, fun _ => hi⟩
    obtain ⟨g, hg⟩ := Nat.exists_eq_succ_of_ne_zero (Nat.ne_of_gt hpos)
    rw [List.reverse_cons, ht, List.reverse_append, List.reverse_singleton,
      List.getElem?_append_left (by simp; omega)]
    simp only [hg, List.singleton_append, Nat.succ_eq_add_one, List.getElem?_cons_succ,
      Nat.add_sub_cancel]
    exact List.getElem?_eq_getElem _

theorem decoded_entered {ops : ChildOps W} {site : Site} {path source reply : Value}
    {x : Session W} (hx : Kept ops.limits x)
    (hd : decoded? (ledger ops) site path source x.compiler x.state.world = some reply) :
    ∃ k p b text line, x.compiler.process = some k ∧ absolutePath site path = .ok p ∧
      frame ops.limits (request (x.compiler.lastId + 1) p source) = .ok text ∧
      Json.load ops.limits.reading line = .ok reply ∧
      x.state.world.books[k]? = some b ∧ Balanced ops.limits x.compiler.lastId x.unanswered b ∧
      ((Call.compile path source).perform ops site x).state.world.books[k]? =
        some { b with taken := text :: b.taken, given := line :: b.given } := by
  unfold decoded? at hd
  cases hc : x.compiler.process with
  | none => simp only [hc, reduceCtorEq] at hd
  | some k =>
    cases hp : absolutePath site path with
    | error f => simp only [hc, hp, reduceCtorEq] at hd
    | ok p =>
      obtain ⟨b, hb, hB⟩ := hx k hc
      rcases e : exchange (ledger ops) k (request (x.compiler.lastId + 1) p source)
        x.state.world with ⟨r, u⟩
      simp only [hc, hp, e] at hd
      have hcases := exchange_cases ops
        (request (x.compiler.lastId + 1) p source) hb
      rw [e] at hcases
      rcases hcases with ⟨f, rfl, -⟩ | ⟨text, f, -, rfl, -⟩ | ⟨text, line, hf, rfl, hu, -⟩
      · cases hd
      · cases hd
      · cases hline : line.isEmpty with
        | true => simp only [hline, if_true, Except.toOption, reduceCtorEq] at hd
        | false =>
          simp only [hline, Bool.false_eq_true, if_false] at hd e
          cases hj : Json.load ops.limits.reading line with
          | error f => simp only [hj, Except.toOption, reduceCtorEq] at hd
          | ok v =>
            simp only [hj, Except.toOption, Option.some.injEq] at hd
            subst hd
            refine ⟨k, p, b, text, line, rfl, rfl, hf, hj, hb, hB, ?_⟩
            simp only [Call.perform, compile, hc, hp, e, hj]
            exact hu

/-- In every run, a request that reads a reply ends as the reply says. The reply is the next line
of the process, and if the process is orderly, it answers the request itself exactly when no request
was left unanswered, and else an earlier one. -/
theorem run_reply (ops : ChildOps W) (site : Site) (s : Settings) (w : W) (cs : List (Call W))
    (path source reply : Value) (x : Session W) (hx : x = run ops site cs (.start s w))
    (hd : decoded? (ledger ops) site path source x.compiler x.state.world = some reply) :
    (compile (ledger ops) site path source x.compiler x.state).1 =
      (Reply.read reply).bind Reply.outcome ∧
    ∃ k p b text line, x.compiler.process = some k ∧ absolutePath site path = .ok p ∧
      frame ops.limits (request (x.compiler.lastId + 1) p source) = .ok text ∧
      Json.load ops.limits.reading line = .ok reply ∧
      x.state.world.books[k]? = some b ∧ b.taken.length = b.given.length + x.unanswered ∧
      ((Call.compile path source).perform ops site x).state.world.books[k]? =
        some { b with taken := text :: b.taken, given := line :: b.given } ∧
      (Orderly ops.limits { b with taken := text :: b.taken, given := line :: b.given } →
        (Carries (x.compiler.lastId + 1) reply ↔ x.unanswered = 0) ∧
        (x.unanswered ≠ 0 → ∃ id ≤ x.compiler.lastId, Carries id reply)) := by
  have hkept : Kept ops.limits x := by
    rw [hx]
    refine run_kept cs ?_
    rintro k ⟨⟩
  have hout := compile_decoded (ledger ops) site path source x.compiler x.state
  rw [hd] at hout
  obtain ⟨k, p, b, text, line, hk, hp, hf, hj, hb, hB, hu⟩ := decoded_entered hkept hd
  refine ⟨hout, k, p, b, text, line, hk, hp, hf, hj, hb, hB.length, hu, ?_⟩
  intro ho
  obtain ⟨id, p', src', t, ht, hmem, h0, hne⟩ := hB.partner hf line
  have hid := ho (t, line) hmem id p' src' reply ht hj
  refine ⟨⟨?_, ?_⟩, fun h => ⟨id, hne h, hid⟩⟩
  · intro hown
    have heq := hown.unique hid
    by_cases hn : x.unanswered = 0
    · exact hn
    · have hle := hne hn
      omega
  · intro h
    rwa [← h0 h]

/-! ## An interrupted request -/

/-- A process that answers two requests; the first time that an answer is read, the reading is
interrupted. -/
def interrupted : Child.Script :=
  .ofPlans [.run ⟨[readyLine, firstLine, secondLine], some 0,
    [⟨.readLine, some 2, .plain .keyboardInterrupt []⟩], true, true⟩] 1
where
  readyLine : Text := "\x7b\"status\": \"ready\"\x7d\n"
  firstLine : Text := "\x7b\"id\": 1, \"status\": \"ok\", \"value\": \"first\"\x7d\n"
  secondLine : Text := "\x7b\"id\": 2, \"status\": \"ok\", \"value\": \"second\"\x7d\n"

def interruptedSite : Site := ⟨"/", "/worker.js"⟩

def interruptedSession : Session Child.Script :=
  run (Child.Script.ops .usual) interruptedSite [.register, .compile "/a.ts" "x"]
    (.start .default interrupted)

def firstReply : Value := .mapping [("id", .int 1), ("status", "ok"), ("value", "first")]

/-- What the process took and gave, once a second request was sent. -/
def interruptedBook : Book :=
  ⟨0, [secondFrame, firstFrame, hello], [interrupted.firstLine, interrupted.readyLine]⟩
where
  hello : Text := "\x7b\"cwd\": \"/\", \"typescript\": \"typescript\", \"type_check\": true, " ++
    "\"compiler_options\": \x7b\x7d\x7d\n"
  firstFrame : Text := "\x7b\"id\": 1, \"path\": \"/a.ts\", \"source\": \"x\"\x7d\n"
  secondFrame : Text := "\x7b\"id\": 2, \"path\": \"/b.ts\", \"source\": \"y\"\x7d\n"

theorem interruptedBook_orderly : Orderly .usual interruptedBook := by
  intro exchanged hm id p src reply hf hj
  have hid := requestId?_frame hf
  simp only [interruptedBook, List.reverse_cons, List.reverse_nil, List.nil_append,
    List.cons_append, List.zip_cons_cons, List.zip_nil_right, List.mem_cons, List.not_mem_nil,
    or_false] at hm
  rcases hm with rfl | rfl
  · have hn : requestId? interruptedBook.hello = none := by cbv
    rw [hn] at hid
    cases hid
  · have hn : requestId? interruptedBook.firstFrame = some 1 := by cbv
    obtain rfl : 1 = id := Option.some.inj (hn.symm.trans hid)
    have hl : Json.load Limits.usual.reading interrupted.firstLine = .ok firstReply := by cbv
    rw [hl] at hj
    cases hj
    exact ⟨_, rfl, by cbv⟩

/-- After a request that was interrupted, the next one ends with the answer to it, though the
process is orderly. -/
theorem run_reply_interrupted :
    decoded? (ledger (Child.Script.ops .usual)) interruptedSite "/b.ts" "y" interruptedSession.compiler
      interruptedSession.state.world = some firstReply ∧
    (compile (ledger (Child.Script.ops .usual)) interruptedSite "/b.ts" "y" interruptedSession.compiler
      interruptedSession.state).1 = .ok "first" ∧
    interruptedSession.unanswered = 1 ∧
    ¬ Carries (interruptedSession.compiler.lastId + 1) firstReply := by
  have hd : decoded? (ledger (Child.Script.ops .usual)) interruptedSite "/b.ts" "y"
      interruptedSession.compiler interruptedSession.state.world = some firstReply := by cbv
  have hu : interruptedSession.unanswered = 1 := by cbv
  obtain ⟨hr, k, p, b, text, line, hk, -, -, -, -, -, hb, ho⟩ :=
    run_reply (Child.Script.ops .usual) interruptedSite .default interrupted
      [.register, .compile "/a.ts" "x"] "/b.ts" "y" firstReply interruptedSession rfl hd
  refine ⟨hd, ?_, hu, ?_⟩
  · rw [hr]
    cbv
  · have hk0 : interruptedSession.compiler.process = some 0 := by cbv
    obtain rfl : k = 0 := Option.some.inj (hk.symm.trans hk0)
    have hbook : ((Call.compile "/b.ts" "y").perform (Child.Script.ops .usual) interruptedSite
        interruptedSession).state.world.books[0]? = some interruptedBook := by cbv
    have heq := Option.some.inj (hbook.symm.trans hb)
    intro hc
    have h0 := (ho (heq ▸ interruptedBook_orderly)).1.mp hc
    rw [hu] at h0
    cases h0

end ConfigLoader.Matching
