import ConfigLoader.Compiler.Reply
import ConfigLoader.Proofs.Json.Overflow
import ConfigLoader.Proofs.Json.Documents
import ConfigLoader.Proofs.Loader.Call
import ConfigLoader.Worker

/-! # Answers as callers see them

Every end of an evaluation that has an answer is told by a frame with a status of its own, and what
a call ends with can be read off this end alone, where there is room to write the answer and to read it.
-/
namespace ConfigLoader
open Json.Canonical (received receivedItems receivedItems_eq received_fields textEntries ArePlain levels
  memberLevels load_line_cases)
open Modules (State Stop)
open TypeScript (Finding)
open Script (Item)

def TypeScript.Finding.recorded (ts : TypeScript) (f : Finding) : Except Fault Diagnostic :=
  Diagnostic.read (received ((f.document? ts).getD .null))

namespace Worker

def told (t : Text) : Value := .text (Text.joinSurrogates t)

def toldReport (ts : TypeScript) (directory : Text) (es : List Finding) : Value :=
  told ((ts.report? (.text directory) es).getD [])

def findingsFault (ts : TypeScript) (directory : Text) (es : List Finding) : Fault :=
  match es.mapM (Finding.recorded ts) with
  | .ok ds => Fault.diagnosticsFault ds (toldReport ts directory es)
  | .error f => f

/-- A diagnostic that cannot be read is a problem of its fields. -/
theorem recorded_error {ts : TypeScript} {f : Finding} {e : Fault} (h : f.recorded ts = .error e) :
    e.isOrdinary = true := by
  unfold Finding.recorded Diagnostic.read Validation.orFault at h
  split at h
  · cases h
  · cases h
    rfl

theorem mapM_error {α β ε : Type} {f : α → Except ε β} {as : List α} {e : ε}
    (h : as.mapM f = .error e) : ∃ a ∈ as, f a = .error e := by
  induction as with
  | nil => cases h
  | cons a as ih =>
    rw [List.mapM_cons] at h
    cases ha : f a with
    | error e' =>
      rw [ha] at h
      cases h
      exact ⟨a, List.mem_cons_self .., ha⟩
    | ok b =>
      rw [ha] at h
      cases has : as.mapM f with
      | ok bs =>
        rw [has] at h
        cases h
      | error e' =>
        rw [has] at h
        cases h
        obtain ⟨c, hc, hf⟩ := ih has
        exact ⟨c, List.mem_cons_of_mem _ hc, hf⟩

@[simp] theorem findingsFault_ordinary (ts : TypeScript) (directory : Text) (es : List Finding) :
    (findingsFault ts directory es).isOrdinary = true := by
  unfold findingsFault
  cases h : es.mapM (Finding.recorded ts) with
  | ok ds => rfl
  | error e =>
    obtain ⟨f, -, hf⟩ := mapM_error h
    exact recorded_error hf

def toldField (fields : Entries) (name default : String) : Value :=
  ((Entries.getText? fields name).map received).getD (.text (Text.ofString default))

def errorFault (fields : Entries) : Fault :=
  Fault.execution (toldField fields "message" "") (toldField fields "name" "Error")
    (toldField fields "stack" "")

@[simp] theorem formField?_text (e : Engine) (s : State) (name : String) (t : Text) :
    formField? e s name (.text t) = some [(.text (Text.ofString name), .text t)] := rfl

theorem errorFault_texts (e : Engine) {s : State} {name message name' message' stack' : Text}
    {fields : List (Text × Item)} (hn : given "name" (.text name) fields = .text name')
    (hm : given "message" (.text message) fields = .text message')
    (hk : given "stack" (.text (Item.errorText name message)) fields = .text stack') :
    errorFault ((errorFields? e s name message fields).getD []) =
      Fault.execution (told message') (told name') (told stack') := by
  have hstack : (if (Item.text stack').truthy then Item.text stack' else .text []) = .text stack' := by
    cases stack' <;> rfl
  have hfields : errorFields? e s name message fields =
      some [(.text (Text.ofString "name"), .text name'),
        (.text (Text.ofString "message"), .text message'),
        (.text (Text.ofString "stack"), .text stack')] := by
    simp only [errorFields?, hn, hm, hk, hstack, formField?_text, bind, pure, Option.bind_some]
    rfl
  rw [hfields]
  rfl

/-! ## Outcomes -/

section
variable (e : Engine) (ts : TypeScript) (directory : Text) (id : Option Value) (t : State)

/-- Whether the evaluation of a request ends the worker: it has no answer, or there is no room to write
it. -/
def endsWorker (r : Except Stop Value) : Bool :=
  ((answer? e ts t (.text directory) id r).bind (frame? e)).isNone

/-- What is read from the answer to an evaluation: a value, the errors among the findings of a source, an
error, or another value that was thrown. -/
def reading : Except Stop Value → Except Fault Value
  | .ok v => .ok (received v)
  | .error (.found es) => .error (findingsFault ts directory es).wrap
  | .error (.raised v) =>
    match t.heap.look v with
    | .object (.error name message) fields =>
      .error (errorFault ((errorFields? e t name message fields).getD [])).wrap
    | _ => .error (Fault.thrown (received ((thrownDocument? e t v).getD .null)))
  | .error (.exited code) => .error (Compiler.exitedUnexpectedly (Text.ofInt code)).wrap

/-- What a call ends with when the evaluation of its request does: with what is read from the answer if it
can be read, and with the code of the worker where the evaluation ended it. -/
def outcome (room : Nat) (r : Except Stop Value) : Except Fault Value :=
  match (answer? e ts t (.text directory) id r).bind (frame? e) with
  | none => .error (Compiler.exitedUnexpectedly (Text.ofInt (endCode r))).wrap
  | some frame =>
    match Json.load room frame with
    | .error f => .error f.wrap
    | .ok _ => reading e ts directory t r

variable {e ts directory id t}

theorem frame?_some {v : Value} {frame : Text} (h : frame? e v = some frame) :
    frame = frameLine v ∧ levels v ≤ e.frames := by
  unfold frame? at h
  split at h
  · next hl => exact ⟨(Option.some.inj h).symm, hl⟩
  · cases h

theorem answered_some {r : Except Stop Value} {frame : Text}
    (h : (answer? e ts t (.text directory) id r).bind (frame? e) = some frame) :
    ∃ d, answer? e ts t (.text directory) id r = some d ∧ levels d ≤ e.frames ∧
      frame = frameLine d := by
  obtain ⟨d, hd, hf⟩ := Option.bind_eq_some_iff.mp h
  obtain ⟨rfl, hl⟩ := frame?_some hf
  exact ⟨d, hd, hl, rfl⟩

theorem answered_of_ends {r : Except Stop Value} (h : endsWorker e ts directory id t r = false) :
    ∃ d, answer? e ts t (.text directory) id r = some d ∧ levels d ≤ e.frames := by
  unfold endsWorker at h
  cases ha : (answer? e ts t (.text directory) id r).bind (frame? e) with
  | none =>
    rw [ha] at h
    cases h
  | some frame =>
    obtain ⟨d, hd, hl, -⟩ := answered_some ha
    exact ⟨d, hd, hl⟩

theorem ends_of_answered {r : Except Stop Value} {d : Value}
    (hd : answer? e ts t (.text directory) id r = some d) (hl : levels d ≤ e.frames) :
    endsWorker e ts directory id t r = false := by
  simp only [endsWorker, hd, Option.bind_some, frame?, hl, if_true, Option.isNone_some]

/-- A call whose answer is written and has no more levels than can be read ends with what it says. -/
theorem outcome_read {room : Nat} {r : Except Stop Value} {d : Value}
    (hd : answer? e ts t (.text directory) id r = some d) (hwritten : levels d ≤ e.frames)
    (hread : levels d ≤ room) : outcome e ts directory id t room r = reading e ts directory t r := by
  have hload : Json.load room (frameLine d) = .ok (received d) := Json.Canonical.load_line hread
  simp only [outcome, hd, Option.bind_some, frame?, hwritten, if_true, hload]

/-- A call whose answer has more levels than can be read ends with a fault of this cause. -/
theorem outcome_overflows {room : Nat} {r : Except Stop Value} {d : Value}
    (hd : answer? e ts t (.text directory) id r = some d) (hwritten : levels d ≤ e.frames)
    (hread : room < levels d) : ∃ f : Fault, f.kind = .recursionError ∧
      outcome e ts directory id t room r = .error f.wrap := by
  obtain ⟨hle, -⟩ | ⟨-, f, hload, hf⟩ := load_line_cases room d
  · omega
  · have hload : Json.load room (frameLine d) = .error f := hload
    exact ⟨f, hf, by simp only [outcome, hd, Option.bind_some, frame?, hwritten, if_true, hload]⟩

theorem outcome_ended {room : Nat} {r : Except Stop Value}
    (h : endsWorker e ts directory id t r = true) : outcome e ts directory id t room r =
      .error (Compiler.exitedUnexpectedly (Text.ofInt (endCode r))).wrap := by
  rw [endsWorker, Option.isNone_iff_eq_none] at h
  rw [outcome, h]

end

/-! ## Silence -/

def errorItems (name message : Text) (fields : List (Text × Item)) : List Item :=
  let stack := given "stack" (.text (Item.errorText name message)) fields
  [given "name" (.text name) fields, given "message" (.text message) fields,
    if stack.truthy then stack else .text []]

/-- Why there is nothing to answer a request with: the process ended itself; the findings cannot be told,
or what an error says of itself; a value that was thrown has neither a document nor a text; or the answer
has more levels than there is room for. -/
inductive Silenced (e : Engine) (ts : TypeScript) (directory : Text) (id : Option Value) (t : State) :
    Except Stop Value → Prop
  | exited (code : Nat) : Silenced e ts directory id t (.error (.exited code))
  | unnamed {es : List Finding} {f : Finding} (hf : f ∈ es)
      (h : f.category.bind ts.categoryName = none) : Silenced e ts directory id t (.error (.found es))
  | unreported {es : List Finding} (h : ts.format (.text directory) es = none) :
    Silenced e ts directory id t (.error (.found es))
  | unnamable {v i : Item} {name message : Text} {fields : List (Text × Item)} {f : Script.Failure}
      (hl : t.heap.look v = .object (.error name message) fields)
      (hi : i ∈ errorItems name message fields)
      (h : Script.Encoding.document e.frames t.heap i = .error f) :
    Silenced e ts directory id t (.error (.raised v))
  | unshown {v : Item}
      (hl : ∀ name message fields, t.heap.look v ≠ .object (.error name message) fields)
      (hv : v ≠ .undefined) (hd : ∀ d, Script.Encoding.document e.values t.heap v ≠ .ok (some d))
      (h : v.displayWithin? e.texts t.heap = none) : Silenced e ts directory id t (.error (.raised v))
  | deep {r : Except Stop Value} {d : Value} (hd : answer? e ts t (.text directory) id r = some d)
      (h : e.frames < levels d) : Silenced e ts directory id t r

theorem formField?_none {e : Engine} {s : State} {name : String} {v : Item} :
    formField? e s name v = none ↔ ∃ f, Script.Encoding.document e.frames s.heap v = .error f := by
  unfold formField?
  rcases Script.Encoding.document e.frames s.heap v with f | _ | d <;> simp

theorem errorFields?_none {e : Engine} {s : State} {name message : Text}
    {fields : List (Text × Item)} : errorFields? e s name message fields = none ↔
      ∃ i ∈ errorItems name message fields, ∃ f, Script.Encoding.document e.frames s.heap i = .error f := by
  simp only [errorItems, List.mem_cons, List.not_mem_nil, or_false, exists_eq_or_imp, exists_eq_left]
  rw [← @formField?_none e s "name", ← @formField?_none e s "message", ← @formField?_none e s "stack"]
  unfold errorFields?
  simp only [bind, pure]
  cases formField? e s "name" (given "name" (.text name) fields) with
  | none => simp
  | some a =>
    cases formField? e s "message" (given "message" (.text message) fields) with
    | none => simp
    | some b =>
      simp only [Option.bind_some, reduceCtorEq, false_or]
      cases formField? e s "stack" _ <;> simp

theorem thrownDocument?_none {e : Engine} {s : State} {v : Item} : thrownDocument? e s v = none ↔
    v ≠ .undefined ∧ (∀ d, Script.Encoding.document e.values s.heap v ≠ .ok (some d)) ∧
      v.displayWithin? e.texts s.heap = none := by
  by_cases hv : v = .undefined
  · subst hv
    simp [thrownDocument?]
  · unfold thrownDocument?
    split
    · exact absurd rfl hv
    · split
      · next d hd => simp [hd]
      · next hother =>
        rw [Option.map_eq_none_iff]
        exact ⟨fun h => ⟨hv, hother, h⟩, fun h => h.2.2⟩

theorem mapM_none {α β : Type} {f : α → Option β} {as : List α} :
    as.mapM f = none ↔ ∃ a ∈ as, f a = none := by
  induction as with
  | nil => simp
  | cons a as ih =>
    rw [List.mapM_cons]
    cases ha : f a with
    | none => simp [ha]
    | some b =>
      simp only [bind, Option.bind_some, List.mem_cons, exists_eq_or_imp, ha, reduceCtorEq, false_or]
      rw [← ih]
      cases as.mapM f <;> simp

theorem answer?_found {e : Engine} {ts : TypeScript} {directory : Text} {id : Option Value} {t : State}
    {es : List Finding} : answer? e ts t (.text directory) id (.error (.found es)) = none ↔
      (∃ f ∈ es, f.category.bind ts.categoryName = none) ∨ ts.format (.text directory) es = none := by
  have hdocument : ∀ f : Finding, f.document? ts = none ↔ f.category.bind ts.categoryName = none := by
    intro f
    unfold Finding.document?
    cases f.category.bind ts.categoryName <;> simp
  have hnamed : es.mapM (Finding.document? ts) = none ↔
      ∃ f ∈ es, f.category.bind ts.categoryName = none := by
    simp only [mapM_none, hdocument]
  rw [← hnamed]
  simp only [answer?, stoppedAnswer?, TypeScript.report?, bind, pure]
  cases es.mapM (Finding.document? ts) with
  | none => simp
  | some ds => cases ts.format (.text directory) es <;> simp

@[simp] theorem levels_valued (id : Binary64) (v : Value) :
    levels (answer (some (.float id)) "ok" [("value", v)]) = levels v + 1 := by
  simp [answer, idField, levels, memberLevels]

theorem answer?_failure (e : Engine) (ts : TypeScript) (t : State) (directory : Text) (id : Binary64)
    (f : Script.Failure) :
    ∃ d, answer? e ts t (.text directory) (some (.float id)) (.error (.raised (Modules.errorItem f))) =
      some d ∧ levels d ≤ 1 := by
  refine ⟨answer (some (.float id)) "error" [("name", .text f.name), ("message", .text f.message),
    ("stack", .text (Item.errorText f.name f.message))], ?_, ?_⟩
  · have hstack (k : Text) : (if (Item.text k).truthy then Item.text k else .text []) = .text k := by
      cases k <;> rfl
    have hgiven (n : Text) (v : Item) : given n v [] = v := rfl
    simp only [answer?, stoppedAnswer?, Modules.errorItem, Script.Heap.look, errorFields?, hgiven, hstack,
      formField?_text, bind, pure, Option.bind_some, Option.map_some]
    rfl
  · simp [answer, idField, levels, memberLevels]

theorem reading_failure {e : Engine} {ts : TypeScript} {t : State} {directory : Text}
    (f : Script.Failure) :
    reading e ts directory t (.error (.raised (Modules.errorItem f))) =
      .error (Fault.execution (told f.message) (told f.name)
        (told (Item.errorText f.name f.message))).wrap := by
  have hgiven (n : Text) (v : Item) : given n v [] = v := rfl
  have hfault : errorFault ((errorFields? e t f.name f.message []).getD []) = _ :=
    errorFault_texts e (hgiven _ _) (hgiven _ _) (hgiven _ _)
  rw [← hfault]
  rfl

theorem endsWorker_iff {e : Engine} {ts : TypeScript} {directory : Text} {id : Option Value} {t : State}
    {r : Except Stop Value} :
    endsWorker e ts directory id t r = true ↔ Silenced e ts directory id t r := by
  have hends : endsWorker e ts directory id t r = true ↔
      answer? e ts t (.text directory) id r = none ∨
        ∃ d, answer? e ts t (.text directory) id r = some d ∧ e.frames < levels d := by
    unfold endsWorker
    cases answer? e ts t (.text directory) id r with
    | none => simp
    | some d =>
      simp only [Option.bind_some, frame?, reduceCtorEq, Option.some.injEq, exists_eq_left', false_or]
      split <;> simp <;> omega
  rw [hends]
  constructor
  · rintro (h | ⟨d, hd, h⟩)
    · cases r with
      | ok v => cases h
      | error stop =>
        cases stop with
        | exited code => exact .exited code
        | found es =>
          obtain ⟨f, hf, h⟩ | h := answer?_found.mp h
          · exact .unnamed hf h
          · exact .unreported h
        | raised v =>
          simp only [answer?, stoppedAnswer?] at h
          split at h
          · next hl =>
            obtain ⟨i, hi, f, hf⟩ := errorFields?_none.mp (Option.map_eq_none_iff.mp h)
            exact .unnamable hl hi hf
          · next hl =>
            obtain ⟨h1, h2, h3⟩ := thrownDocument?_none.mp (Option.map_eq_none_iff.mp h)
            exact .unshown (fun name message fields => hl name message fields) h1 h2 h3
    · exact .deep hd h
  · intro h
    cases h with
    | exited code => exact .inl rfl
    | unnamed hf h => exact .inl (answer?_found.mpr (.inl ⟨_, hf, h⟩))
    | unreported h => exact .inl (answer?_found.mpr (.inr h))
    | unnamable hl hi h =>
      left
      simp only [answer?, stoppedAnswer?, hl, errorFields?_none.mpr ⟨_, hi, _, h⟩, Option.map_none]
    | unshown hl h1 h2 h3 =>
      left
      simp only [answer?, stoppedAnswer?, thrownDocument?_none.mpr ⟨h1, h2, h3⟩, Option.map_none]
    | deep hd h => exact .inr ⟨_, hd, h⟩

/-! ## Frames -/

theorem received_answer (names : List Text) (id : Value) (status : String)
    (fields : List (Text × Value)) (hf : fields.map Prod.fst = names)
    (hn : ArePlain ("id" :: "status" :: names)) :
    received (answer (some id) status (textEntries fields)) =
      .mapping (("id", received id) :: ("status", told status) ::
        textEntries (fields.map fun f => (f.1, received f.2))) := by
  subst hf
  exact received_fields _ (("id", id) :: ("status", status) :: fields) rfl hn

def replied (reply : Value) : Except Fault Value :=
  (Compiler.Reply.read reply).bind Compiler.Reply.outcome

@[simp] theorem read_value (id v : Value) :
    replied (received (answer (some id) "ok" [("value", v)])) = .ok (received v) := by
  have h := received_answer ["value"] id "ok" [("value", v)] rfl (by decide)
  exact (congrArg replied h).trans rfl

@[simp] theorem read_thrown (id v : Value) :
    replied (received (answer (some id) "thrown" [("value", v)])) =
      .error (Fault.thrown (received v)) := by
  have h := received_answer ["value"] id "thrown" [("value", v)] rfl (by decide)
  exact (congrArg replied h).trans rfl

def optional (name : String) (v : Option Value) : Entries :=
  match v with
  | some v => [(.text (Text.ofString name), v)]
  | none => []

theorem formField?_some {e : Engine} {s : State} {name : String} {v : Item} {es : Entries}
    (h : formField? e s name v = some es) : ∃ d, es = optional name d := by
  unfold formField? at h
  split at h
  · next d _ => exact ⟨some d, (Option.some.inj h).symm⟩
  · exact ⟨none, (Option.some.inj h).symm⟩
  · cases h

theorem errorFields?_some {e : Engine} {s : State} {name message : Text}
    {fields : List (Text × Item)} {es : Entries} (h : errorFields? e s name message fields = some es) :
    ∃ n m k, es = optional "name" n ++ optional "message" m ++ optional "stack" k := by
  unfold errorFields? at h
  simp only [bind, Option.bind_eq_some_iff, pure, Option.some.injEq] at h
  obtain ⟨a, ha, b, hb, c, hc, rfl⟩ := h
  obtain ⟨n, rfl⟩ := formField?_some ha
  obtain ⟨m, rfl⟩ := formField?_some hb
  obtain ⟨k, rfl⟩ := formField?_some hc
  exact ⟨n, m, k, rfl⟩

theorem read_error (id : Value) {e : Engine} {s : State} {name message : Text}
    {fields : List (Text × Item)} {es : Entries} (h : errorFields? e s name message fields = some es) :
    replied (received (answer (some id) "error" es)) = .error (errorFault es) := by
  obtain ⟨n, m, k, rfl⟩ := errorFields?_some h
  have hplain : ∀ (names : List Text) (fs : List (Text × Value)), fs.map Prod.fst = names →
      ArePlain ("id" :: "status" :: names) →
      replied (received (answer (some id) "error" (textEntries fs))) =
        replied (.mapping (("id", received id) :: ("status", told "error") ::
          textEntries (fs.map fun f => (f.1, received f.2)))) :=
    fun names fs hf hn => congrArg replied (received_answer names id "error" fs hf hn)
  cases n <;> cases m <;> cases k
  · exact (hplain [] [] rfl (by decide)).trans rfl
  · exact (hplain ["stack"] [("stack", _)] rfl (by decide)).trans rfl
  · exact (hplain ["message"] [("message", _)] rfl (by decide)).trans rfl
  · exact (hplain ["message", "stack"] [("message", _), ("stack", _)] rfl (by decide)).trans rfl
  · exact (hplain ["name"] [("name", _)] rfl (by decide)).trans rfl
  · exact (hplain ["name", "stack"] [("name", _), ("stack", _)] rfl (by decide)).trans rfl
  · exact (hplain ["name", "message"] [("name", _), ("message", _)] rfl (by decide)).trans rfl
  · exact (hplain ["name", "message", "stack"] [("name", _), ("message", _), ("stack", _)] rfl
      (by decide)).trans rfl

theorem mapM_some {α β : Type} {f : α → Option β} {as : List α} {bs : List β}
    (h : as.mapM f = some bs) (b : β) : bs = as.map fun a => (f a).getD b := by
  induction as generalizing bs with
  | nil => exact (Option.some.inj h).symm
  | cons a as ih =>
    rw [List.mapM_cons] at h
    simp only [bind, Option.bind_eq_some_iff, pure, Option.some.injEq] at h
    obtain ⟨c, hc, cs, hcs, rfl⟩ := h
    rw [List.map_cons, hc, ← ih hcs]
    rfl

theorem read_found (id : Value) {ts : TypeScript} {directory report : Text} {es : List Finding}
    {documents : List Value} (hd : es.mapM (Finding.document? ts) = some documents)
    (hr : ts.report? (.text directory) es = some report) :
    replied (received (answer (some id) "diagnostics"
      [("message", .text report), ("diagnostics", .list documents)])) =
      .error (findingsFault ts directory es) := by
  have h := received_answer ["message", "diagnostics"] id "diagnostics"
    [("message", .text report), ("diagnostics", .list documents)] rfl (by decide)
  refine (congrArg replied h).trans ?_
  have hread : ((receivedItems documents).mapM Diagnostic.read) = es.mapM (Finding.recorded ts) := by
    rw [mapM_some hd .null, receivedItems_eq, List.map_map, List.mapM_map]
    rfl
  have hreport : toldReport ts directory es = told report := by
    rw [toldReport, hr, Option.getD_some]
  have hbind : ∀ r : Except Fault (List Diagnostic),
      (r >>= fun ds => Except.ok (Compiler.Reply.diagnostics ds (told report))).bind
        Compiler.Reply.outcome =
      .error (match r with
        | .ok ds => Fault.diagnosticsFault ds (told report)
        | .error f => f) := by
    intro r
    cases r <;> rfl
  rw [findingsFault, hreport, ← hread]
  exact hbind _

theorem read_answer {e : Engine} {ts : TypeScript} {directory : Text} {id : Value} {t : State}
    {r : Except Stop Value} {d : Value} (hd : answer? e ts t (.text directory) (some id) r = some d) :
    Loader.answer (replied (received d)) = reading e ts directory t r := by
  cases r with
  | ok v =>
    cases hd
    rw [read_value]
    rfl
  | error stop =>
    cases stop with
    | exited code => cases hd
    | found es =>
      simp only [answer?, stoppedAnswer?, bind, Option.bind_eq_some_iff, pure, Option.some.injEq] at hd
      obtain ⟨documents, hdocuments, report, hreport, rfl⟩ := hd
      rw [read_found id hdocuments hreport]
      simp only [Loader.answer_error, Fault.reported, findingsFault_ordinary, if_true, reading]
    | raised v =>
      simp only [answer?, stoppedAnswer?] at hd
      split at hd
      · next name message fields hl =>
        obtain ⟨es, hes, rfl⟩ := Option.map_eq_some_iff.mp hd
        rw [read_error id hes]
        simp only [reading, hl, hes]
        rfl
      · next hother =>
        obtain ⟨document, hdocument, rfl⟩ := Option.map_eq_some_iff.mp hd
        rw [read_thrown]
        simp only [reading, hdocument]
        rfl

end Worker
end ConfigLoader
