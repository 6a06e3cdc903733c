import ConfigLoader.Compiler.Callers
import ConfigLoader.Proofs.Compiler.Matching
import ConfigLoader.Proofs.Compiler.Startup

/-! # The record of threads that share a compiler

What threads do to the lock, to a process that answers, and to its slot can be recorded in one order
only: requests one after another, each as a whole, until a close takes the process; then nothing but
its shutdown, and tasks that come to nothing.
-/
namespace ConfigLoader.Callers
open Child (Handle Action)
open Compiler (requestId?)
open Matching (Carries)
open Threads (Actor)

def Event.actor : Event → Actor
  | .enter a _ | .act a _ _ _ | .take a _ | .finish a _ _ => a

def Event.request? : Event → Option Nat
  | .act _ _ (.write text) _ => requestId? text
  | _ => none

def Event.isWrite : Event → Bool
  | .act _ _ (.write _) _ => true
  | _ => false

def Event.isRead : Event → Bool
  | .act _ _ .readLine _ => true
  | _ => false

def Event.isCloseInput : Event → Bool
  | .act _ _ .closeInput _ => true
  | _ => false

inductive Stage
  | free
  | entered (a : Actor)
  | asked (a : Actor) (text : Text)
  | sent (a : Actor) (text : Text)
  | answered (a : Actor) (reply : Value)
  /-- A close took the process, and closed its input or not. -/
  | taken (c : Actor) (closed : Bool)

/-- How many requests are without an answer. -/
def Stage.unanswered : Stage → Nat
  | asked .. | sent .. => 1
  | _ => 0

def Stage.closed : Stage → Nat
  | taken _ true => 1
  | _ => 0

def replyOutcome (reply : Value) : Except Fault Value :=
  (Compiler.Reply.read reply).bind Compiler.Reply.outcome

/-- What may be recorded next, behind other events, with the number of the last request. -/
inductive Follows (limits : Limits) (h : Handle) (es : List Event) : Stage → Nat → Event → Stage → Nat → Prop
  | enter {n a task} (ha : ∀ e ∈ es, e.actor ≠ a) :
      Follows limits h es .free n (.enter a task) (.entered a) n
  | ask {n m a text s} (ht : requestId? text = some m) (hm : n < m) :
      Follows limits h es (.entered a) n (.act a h (.write text) (.ok s)) (.asked a text) m
  | send {n a text s} :
      Follows limits h es (.asked a text) n (.act a h .flush (.ok s)) (.sent a text) n
  | answer {n a text line reply} (hl : Json.load limits.reading line = .ok reply) (hc : Carries n reply) :
      Follows limits h es (.sent a text) n (.act a h .readLine (.ok line)) (.answered a reply) n
  | finish {n a reply task} :
      Follows limits h es (.answered a reply) n (.finish a task (replyOutcome reply)) .free n
  | refuse {n a task f} : Follows limits h es (.entered a) n (.finish a task (.error f)) .free n
  | take {n a} : Follows limits h es (.entered a) n (.take a h) (.taken a false) n
  | shut {n c b action r} (ht : ¬ action.IsTraffic) (hb : action = .closeInput → b = false) :
      Follows limits h es (.taken c b) n (.act c h action r) (.taken c (b || action == .closeInput)) n
  | enterLate {n c b a task} (ha : ∀ e ∈ es, e.actor ≠ a) :
      Follows limits h es (.taken c b) n (.enter a task) (.taken c b) n
  | finishLate {n c b a task r}
      (hr : ∀ p src, task = .compile p src ∨ .enter a (.compile p src) ∈ es →
        r = .error Compiler.notRegistered) :
      Follows limits h es (.taken c b) n (.finish a task r) (.taken c b) n

inductive Written (limits : Limits) (h : Handle) : Stage → Nat → List Event → Prop
  | start {n} : Written limits h .free n []
  | see {s n e s' n' es} (hw : Written limits h s n es) (hf : Follows limits h es s n e s' n') :
      Written limits h s' n' (e :: es)

section Records
variable {limits : Limits} {h k : Handle} {s : Stage} {n : Nat} {e : Event} {es later earlier : List Event}
  {a c : Actor}

theorem Written.before (hw : Written limits h s n (later ++ es)) : ∃ s n, Written limits h s n es := by
  induction later generalizing s n with
  | nil => exact ⟨s, n, hw⟩
  | cons e later ih =>
    cases hw with
    | see hw hf => exact ih hw

theorem quiet_of_not_traffic {action : Action} {r : Except Fault Text}
    (ht : ¬ action.IsTraffic) :
    (Event.act a k action r).isWrite = false ∧ (Event.act a k action r).isRead = false ∧
      (Event.act a k action r).request? = none := by
  cases action with
  | write text | flush | readLine => exact absurd trivial ht
  | closeInput | closeOutput | wait seconds | terminate | kill => exact ⟨rfl, rfl, rfl⟩

/-! ## Requests -/

theorem Written.read_cases {line : Text}
    (hw : Written limits h s n (.act a k .readLine (.ok line) :: es)) :
    ∃ text reply, s = .answered a reply ∧ k = h ∧ Written limits h (.sent a text) n es ∧
      Json.load limits.reading line = .ok reply ∧ Carries n reply := by
  cases hw with
  | see hw hf =>
    cases hf with
    | shut ht => exact absurd trivial ht
    | answer hl hc => exact ⟨_, _, rfl, rfl, hw, hl, hc⟩

theorem Written.sent_cases {text : Text} (hw : Written limits h (.sent a text) n es) :
    ∃ t u rest, es = .act a h .flush (.ok t) :: .act a h (.write text) (.ok u) :: rest ∧
      requestId? text = some n := by
  cases hw with
  | see hw hf =>
    cases hf with
    | send =>
      cases hw with
      | see hw hf =>
        cases hf with
        | ask ht hm => exact ⟨_, _, _, rfl, ht⟩

/-- A line that is read answers the request that the same task has just written, and the task ends
with this answer. -/
theorem Written.read_own {line : Text}
    (hw : Written limits h s n (later ++ .act a k .readLine (.ok line) :: earlier)) :
    ∃ text t u rest id reply,
      earlier = .act a k .flush (.ok t) :: .act a k (.write text) (.ok u) :: rest ∧
      requestId? text = some id ∧ Json.load limits.reading line = .ok reply ∧ Carries id reply ∧
      ∀ e more, later = more ++ [e] → ∃ task, e = .finish a task (replyOutcome reply) := by
  obtain ⟨s₁, n₁, h₁⟩ := hw.before
  obtain ⟨text, reply, -, rfl, hsent, hl, hc⟩ := h₁.read_cases
  obtain ⟨t, u, rest, rfl, hid⟩ := hsent.sent_cases
  refine ⟨text, t, u, rest, n₁, reply, rfl, hid, hl, hc, ?_⟩
  rintro e more rfl
  rw [List.append_assoc, List.singleton_append] at hw
  obtain ⟨s₂, n₂, h₂⟩ := hw.before
  cases h₂ with
  | see h₃ hf =>
    obtain ⟨-, reply', rfl, -, -, hl', -⟩ := h₃.read_cases
    obtain rfl : reply = reply' := Except.ok.inj (hl.symm.trans hl')
    cases hf with
    | finish => exact ⟨_, rfl⟩

theorem Written.replied {p src v : Value}
    (hw : Written limits h s n (later ++ .finish a (.compile p src) (.ok v) :: earlier)) :
    ∃ line rest, earlier = .act a h .readLine (.ok line) :: rest := by
  obtain ⟨s₁, n₁, h₁⟩ := hw.before
  generalize hr : (Except.ok v : Except Fault Value) = r at h₁
  cases h₁ with
  | see h₂ hf =>
    cases hf with
    | finish =>
      cases h₂ with
      | see h₃ hf =>
        cases hf with
        | answer => exact ⟨_, _, rfl⟩
    | refuse => cases hr
    | finishLate hlate =>
      rw [← hr] at hlate
      cases hlate p src (.inl rfl)

theorem Written.numbered (hw : Written limits h s n es) :
    ∀ e ∈ es, e.isWrite = true → ∃ id, e.request? = some id := by
  induction hw with
  | start => nofun
  | see hw hf ih =>
    refine List.forall_mem_cons.mpr ⟨?_, ih⟩
    intro he
    cases hf with
    | ask ht hm => exact ⟨_, ht⟩
    | @shut n c b action r ht hb =>
      rw [(quiet_of_not_traffic (a := c) (k := h) (r := r) ht).1] at he
      cases he
    | _ => cases he

theorem Written.unanswered (hw : Written limits h s n es) :
    es.countP Event.isWrite = es.countP Event.isRead + s.unanswered := by
  induction hw with
  | start => rfl
  | see hw hf ih =>
    cases hf with
    | @shut n c b action r ht hb =>
      obtain ⟨hwr, hrd, -⟩ := quiet_of_not_traffic (a := c) (k := h) (r := r) ht
      rw [List.countP_cons_of_neg (by simp [hwr]), List.countP_cons_of_neg (by simp [hrd])]
      exact ih
    | _ => simp [List.countP_cons, Event.isWrite, Event.isRead, Stage.unanswered, ih]

theorem Written.numbers (hw : Written limits h s n es) :
    (es.filterMap Event.request?).Pairwise (· > ·) ∧
      ∀ id ∈ es.filterMap Event.request?, id ≤ n := by
  induction hw with
  | start => exact ⟨.nil, nofun⟩
  | see hw hf ih =>
    cases hf with
    | @ask _ _ a text u ht hm =>
      obtain ⟨hp, hb⟩ := ih
      have hq : (Event.act a h (.write text) (.ok u)).request? = _ := ht
      rw [List.filterMap_cons_some hq]
      constructor
      · exact List.pairwise_cons.mpr ⟨fun id hid => Nat.lt_of_le_of_lt (hb id hid) hm, hp⟩
      · intro id hid
        rcases List.mem_cons.mp hid with rfl | hid
        · exact Nat.le_refl _
        · exact Nat.le_trans (hb id hid) (Nat.le_of_lt hm)
    | @shut n c b action r ht hb =>
      have hq := (quiet_of_not_traffic (a := c) (k := h) (r := r) ht).2.2
      rwa [List.filterMap_cons_none hq]
    | _ => exact ih

/-! ## After a close -/

/-- What may be recorded after a close took the process. -/
def Late (c : Actor) (h : Handle) : Event → Prop
  | .act a k action _ => a = c ∧ k = h ∧ ¬ action.IsTraffic
  | .take .. => False
  | .enter .. | .finish .. => True

theorem Written.taken (hw : Written limits h s n (later ++ .take c k :: earlier)) :
    (∃ b, s = .taken c b) ∧ k = h ∧ ∀ e ∈ later, Late c h e := by
  induction later generalizing s n with
  | nil =>
    cases hw with
    | see hw hf =>
      cases hf with
      | take => exact ⟨⟨_, rfl⟩, rfl, nofun⟩
  | cons e later ih =>
    cases hw with
    | see hw hf =>
      obtain ⟨⟨b, rfl⟩, hk, hl⟩ := ih hw
      have hlate : Late c h e ∧ ∃ b, s = .taken c b := by
        cases hf with
        | shut ht => exact ⟨⟨rfl, rfl, ht⟩, _, rfl⟩
        | enterLate | finishLate => exact ⟨trivial, _, rfl⟩
      exact ⟨hlate.2, hk, List.forall_mem_cons.mpr ⟨hlate.1, hl⟩⟩

/-- A request that enters after a close took the process does nothing to it, and fails. -/
theorem Written.late {p src : Value}
    (hw : Written limits h s n (later ++ .take c k :: earlier))
    (he : .enter a (.compile p src) ∈ later) :
    (∀ j action r, .act a j action r ∉ later ++ .take c k :: earlier) ∧
      ∀ task r, .finish a task r ∈ later ++ .take c k :: earlier →
        r = .error Compiler.notRegistered := by
  suffices hs : a ≠ c ∧ (∀ j action r, .act a j action r ∉ later ++ .take c k :: earlier) ∧
      ∀ task r, .finish a task r ∈ later ++ .take c k :: earlier →
        r = .error Compiler.notRegistered from hs.2
  induction later generalizing s n with
  | nil => exact absurd he List.not_mem_nil
  | cons e later ih =>
    cases hw with
    | see hw hf =>
      obtain ⟨⟨b, rfl⟩, -, -⟩ := hw.taken
      have hmem : ∀ {e' : Event}, e' ∈ (e :: later) ++ .take c k :: earlier → e' ≠ e →
          e' ∈ later ++ .take c k :: earlier := fun hm hne => (List.mem_cons.mp hm).resolve_left hne
      rcases List.mem_cons.mp he with rfl | hlater
      · -- The task has just entered: nothing before was done by it.
        cases hf with
        | enterLate ha =>
          refine ⟨?_, ?_, ?_⟩
          · exact (ha _ (List.mem_append_right _ List.mem_cons_self)).symm
          · exact fun j action r hm => ha _ (hmem hm nofun) rfl
          · exact fun task r hm => absurd rfl (ha _ (hmem hm nofun))
      · obtain ⟨hne, hact, hfin⟩ := ih hw hlater
        refine ⟨hne, fun j action r hm => ?_, fun task r hm => ?_⟩
        · cases hf with
          | shut =>
            refine hact j action r (hmem hm ?_)
            rintro ⟨⟩
            exact hne rfl
          | enterLate | finishLate => exact hact j action r (hmem hm nofun)
        · cases hf with
          | finishLate hr =>
            rcases List.mem_cons.mp hm with heq | hm
            · cases heq
              exact hr p src (.inr (List.mem_append_left _ hlater))
            · exact hfin task r hm
          | shut | enterLate => exact hfin task r (hmem hm nofun)

theorem Written.closed (hw : Written limits h s n es) : es.countP Event.isCloseInput = s.closed := by
  induction hw with
  | start => rfl
  | see hw hf ih =>
    cases hf with
    | @shut n c b action r ht hb =>
      by_cases ha : action = .closeInput
      · obtain rfl := hb ha
        subst ha
        simpa [List.countP_cons, Event.isCloseInput, Stage.closed] using ih
      · have hc : Event.isCloseInput (.act c h action r) = false := by
          cases action with
          | closeInput => exact absurd rfl ha
          | _ => rfl
        have hb' : (b || action == .closeInput) = b := by simp [ha]
        rw [List.countP_cons_of_neg (by simp [hc]), hb']
        exact ih
    | _ => simpa [List.countP_cons, Event.isCloseInput, Stage.closed] using ih

end Records
end ConfigLoader.Callers
