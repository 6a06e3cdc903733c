import ConfigLoader.Proofs.Loader.Rejections
import ConfigLoader.Proofs.Script.Encoding

/-! # Exported documents

A document that a module exports comes back from the call where there is room for its levels: as its default
export if it counts as true, or as all that it exports if no default is among it. A default export that
counts as false is passed over.
-/
namespace ConfigLoader
open Script (Item Heap Holds)
open Json (IsDocument)
open Json.Canonical (levels numberText_zero print print_mapping received textEntries)

/-! ## What is selected -/

namespace Script
variable {h : Heap} {a d : Item} {v : Value}

theorem Item.field?_cell {n : Nat} {shape : Shape} {fields : List (Text × Item)}
    (hn : h.get n = .object shape fields) (name : Text) :
    (Item.cell n).field? h name = (Item.object shape fields).field? h name := by
  rw [field?, field?, Heap.look, hn]
  rfl

theorem Item.truthy_of_field {name : Text} (hd : a.field? h name = some d) : a.truthy = true := by
  cases a with
  | object | cell => rfl
  | _ => cases hd

theorem Holds.field?_none {name : String} (hv : Holds h a v) (hname : Worker.field? v name = none) :
    a.field? h name = none := by
  induction hv with
  | @mapping ms hnames htexts hms ih =>
    have hentry : ((textEntries (ms.map fun m => (m.1, m.2.2))).find? fun e =>
        e.1.sameKey (.text name)) = none := Option.map_eq_none_iff.mp hname
    have hfield : ((ms.map fun m => (m.1, m.2.1)).find? fun f => f.1 == Text.ofString name) = none := by
      rw [List.find?_eq_none] at hentry ⊢
      intro f hf
      obtain ⟨m, hm, rfl⟩ := List.mem_map.mp hf
      exact hentry _ (List.mem_map_of_mem (List.mem_map_of_mem hm))
    exact Option.map_eq_none_iff.mpr hfield
  | cell hn hv ih => exact (Item.field?_cell hn name).trans (ih hname)
  | _ => rfl

theorem Holds.mapping_of_field {name : Text} (hv : Holds h a v) (hd : a.field? h name = some d) :
    ∃ es, v = .mapping es := by
  induction hv with
  | mapping => exact ⟨_, rfl⟩
  | cell hn hv ih => exact ih ((Item.field?_cell hn name).symm.trans hd)
  | _ => cases hd

end Script

theorem Json.Canonical.print_mapping_ne (es : Entries) {v : Value} (hv : IsDocument v)
    (hfalse : (Item.ofValue v).truthy = false) : print (.mapping es) ≠ print v := by
  intro h
  rw [print_mapping] at h
  have hfirst : some (CodePoint.ofChar '\x7b') = (print v).head? := congrArg List.head? h
  cases hv with
  | null => exact absurd hfirst (by decide)
  | bool b =>
    obtain rfl : b = false := hfalse
    exact absurd hfirst (by decide)
  | @number x hx =>
    have hzero : x.isZero = true := by
      have hnan := Binary64.isNaN_of_isFinite hx
      simpa [Item.ofValue, Item.truthy, hnan] using hfalse
    rw [print, numberText_zero hx hzero] at hfirst
    exact absurd hfirst (by decide)
  | @text t ht =>
    obtain rfl : t = [] := by simpa [Item.ofValue, Item.truthy] using hfalse
    exact absurd hfirst (by decide)
  | list | mapping => cases hfalse

/-! ## What is evaluated -/

namespace Worker
open Modules (State Surroundings)
open TypeScript (Pipeline)
variable {c : Surroundings} {p : Pipeline} {script file source : Text} {s t : State}
  {exported d : Item} {v : Value}

theorem selected_default (hd : exported.field? t.heap "default" = some d) :
    selected t exported = if d.truthy then d else exported := by
  rw [selected, if_pos (Item.truthy_of_field hd), hd]

theorem selected_exports (hno : exported.field? t.heap "default" = none) :
    selected t exported = exported := by
  rw [selected, hno]
  exact ite_self exported

/-- The evaluation of a source that selects a document ends with a document that has its text, or with the
error of the stack if this has no room for it. -/
theorem evaluate_holds (hrun : (execute c p script file source).run.run s = (.ok exported, t))
    (hv : Holds t.heap (selected t exported) v) :
    (levels v ≤ c.engine.values ∧ ∃ w, evaluate c p script file source s =
      (.ok w, Modules.forgetNew s t) ∧ print w = print v ∧ levels w = levels v) ∨
    (c.engine.values < levels v ∧ evaluate c p script file source s =
      (.error (.raised (Modules.errorItem Script.stackFailure)), Modules.forgetNew s t)) := by
  unfold evaluate
  rw [hrun]
  dsimp only
  have hheap : (Modules.forgetNew s t).heap = t.heap := rfl
  have hselected : selected (Modules.forgetNew s t) exported = selected t exported := rfl
  rw [hheap, hselected]
  have htells : Script.Encoding.Tells c.engine.values 0
    (Script.Encoding.document c.engine.values t.heap (selected t exported)) v :=
    Script.Encoding.document_tells hv
  obtain ⟨hroom, w, hw, -, hprint, hlevels⟩ | ⟨hdeep, hw⟩ := htells
  · rw [Nat.zero_add] at hroom
    exact .inl ⟨hroom, w, by rw [hw]; rfl, hprint, hlevels⟩
  · rw [Nat.zero_add] at hdeep
    exact .inr ⟨hdeep, by rw [hw]⟩

end Worker

/-! ## What is loaded -/

namespace Serving
open Child (Machine)
open Child.Machine (ops)
open Modules (State)
open Worker (told)

/-- A loader whose calls are served: it holds a worker already, or creates one for its empty slot. -/
inductive Provided (x : Setting) (settings : Settings) (n : Nat) (s : State)
    (l : Loader Machine Compiler) : Prop
  | held (h : Serves x n (some s) l)
  | created {c : Compiler} {k : Logged Machine} (hslot : l.slot = none)
      (hc : (Compiler.service (ops x.limits) x.caller settings).create
        (l.note .info "Creating compiler service").state = (.ok c, k))
      (htree : k.world.tree = l.state.world.tree) (h : Serves x n (some s) ⟨some c, k⟩)

variable {x : Setting} {settings : Settings} {n : Nat} {s t : State} {l : Loader Machine Compiler}
  {q : Query} {v : Value}

theorem call_provided (hl : Provided x settings n s l) (hq : l.state.world.tree = q.tree) :
    ∃ l', l.call (Compiler.service (ops x.limits) x.caller settings) (.text q.path)
      (.text q.content) = ((step x (n + 1) q (some s)).1, l') := by
  cases hl with
  | held h =>
    obtain ⟨c, hslot, -⟩ := h.held
    obtain ⟨l', hcall, -⟩ := call_asks (Loader.attempt_held
      (Compiler.service (ops x.limits) x.caller settings) (.text q.path) (.text q.content) hslot)
    exact ⟨l', (ask_served h hslot settings q hq).1 ▸ hcall⟩
  | created hslot hc htree h =>
    obtain ⟨l', hcall, -⟩ := call_asks (Loader.attempt_created
      (Compiler.service (ops x.limits) x.caller settings) (.text q.path) (.text q.content) hslot hc)
    exact ⟨l', (ask_served h rfl settings q (htree.trans hq)).1 ▸ hcall⟩

def Query.execution (q : Query) (x : Setting) (s : State) : Except Modules.Stop Item × State :=
  (Worker.execute (Worker.surroundings (seen x.site q.tree) x.compiler x.desk.pipeline)
    x.desk.pipeline x.site.script (q.file x) q.source).run.run s

/-- There is room for a document wherever it is gone through: when it is encoded, in the frame that holds it,
and when this is read. -/
structure Fits (x : Setting) (v : Value) : Prop where
  encoded : levels v ≤ x.site.engine.values
  written : levels v < x.site.engine.frames
  read : levels v < x.limits.reading

/-- Why a document did not come back: there was no room for it where it was encoded, in its frame, or where
the frame was read. -/
inductive TooDeep (x : Setting) (v : Value) : Fault → Prop
  | encoded {stack : Value} (h : x.site.engine.values < levels v) :
    TooDeep x v (Fault.execution (told Script.stackFailure.message) (told Script.stackFailure.name) stack)
  | written (h : levels v ≤ x.site.engine.values) (hframes : x.site.engine.frames ≤ levels v) :
    TooDeep x v (Compiler.exitedUnexpectedly "1")
  | read {f : Fault} (h : levels v ≤ x.site.engine.values) (hframes : levels v < x.site.engine.frames)
      (hread : x.limits.reading ≤ levels v) (hf : f.kind = .recursionError) : TooDeep x v f

/-- A call loads a document: it ends with what the text of the document is read as, which has this text
itself, or says that there was no room for it. -/
structure Loads (x : Setting) (settings : Settings) (l : Loader Machine Compiler) (q : Query)
    (v : Value) : Prop where
  whole : Fits x v → ∃ w l', l.call (Compiler.service (ops x.limits) x.caller settings)
      (.text q.path) (.text q.content) = (.ok w, l') ∧
    Json.load x.limits.reading (print v ++ "\n") = .ok w ∧ print w = print v
  deep : ¬ Fits x v → ∃ f l', l.call (Compiler.service (ops x.limits) x.caller settings)
      (.text q.path) (.text q.content) = (.error f.wrap, l') ∧ TooDeep x v f

theorem outcome_valued {w : Value} {t : State} (hw : q.evaluate x s = (.ok w, t))
    (hframes : levels w < x.site.engine.frames) :
    (levels w < x.limits.reading → q.outcome x n s = .ok (received w)) ∧
    (x.limits.reading ≤ levels w → ∃ f : Fault, f.kind = .recursionError ∧
      q.outcome x n s = .error f.wrap) := by
  have hlevels := Worker.levels_valued (Binary64.ofInt n) w
  have houtcome : q.outcome x n s = Worker.outcome x.site.engine x.compiler x.desk.directory
      (some (.float (Binary64.ofInt n))) t x.limits.reading (.ok w) := by
    rw [Query.outcome, hw]
    rfl
  rw [houtcome]
  refine ⟨fun hread => ?_, fun hread => ?_⟩
  · exact Worker.outcome_read rfl (by omega) (by omega)
  · exact Worker.outcome_overflows rfl (by omega) (by omega)

theorem outcome_unwritten {w : Value} {t : State} (hw : q.evaluate x s = (.ok w, t))
    (hframes : x.site.engine.frames ≤ levels w) :
    q.outcome x n s = .error (Compiler.exitedUnexpectedly "1").wrap := by
  have hlevels := Worker.levels_valued (Binary64.ofInt n) w
  have hends : Worker.endsWorker x.site.engine x.compiler x.desk.directory
      (some (.float (Binary64.ofInt n))) t (.ok w) = true :=
    Worker.endsWorker_iff.mpr (.deep rfl (by omega))
  have hcode : Text.ofInt ((1 : Nat) : Int) = "1" := by decide
  rw [Query.outcome, hw, ← hcode]
  exact Worker.outcome_ended hends

theorem outcome_failure {f : Script.Failure} {t : State}
    (hw : q.evaluate x s = (.error (.raised (Modules.errorItem f)), t)) :
    q.outcome x n s = .error (Fault.execution (told f.message) (told f.name)
      (told (Item.errorText f.name f.message))).wrap := by
  obtain ⟨d, hd, hlevels⟩ := Worker.answer?_failure x.site.engine x.compiler t x.desk.directory
    (Binary64.ofInt n) f
  have hframes : levels d ≤ x.site.engine.frames :=
    Nat.le_trans hlevels (Nat.le_trans (by decide) x.site.engine.enough.1)
  have hreading : levels d ≤ x.limits.reading :=
    Nat.le_trans hlevels (Nat.le_trans (by decide) x.limits.enough.2.2.2)
  have houtcome : q.outcome x n s = Worker.reading x.site.engine x.compiler x.desk.directory t
      (.error (.raised (Modules.errorItem f))) := by
    rw [Query.outcome, hw]
    exact Worker.outcome_read hd hframes hreading
  rw [houtcome, Worker.reading_failure]

theorem loads_selected (hl : Provided x settings n s l) (hq : l.state.world.tree = q.tree) {id : Text}
    (hid : Json.intText ((n + 1 : Nat) : Int) = .ok id) {exported : Item}
    (hrun : q.execution x s = (.ok exported, t)) (hv : Holds t.heap (Worker.selected t exported) v) :
    Loads x settings l q v := by
  obtain ⟨l', hcall⟩ := call_provided hl hq
  have hstep : (step x (n + 1) q (some s)).1 = q.outcome x (n + 1) s := by rw [step, hid]
  rw [hstep] at hcall
  obtain ⟨hvalues, w, hw, hprint, hlevels⟩ | ⟨hvalues, hw⟩ := Worker.evaluate_holds hrun hv
  · have hw : q.evaluate x s = (.ok w, Modules.forgetNew s t) := hw
    constructor
    · rintro ⟨-, hframes, hread⟩
      rw [(outcome_valued hw (hlevels ▸ hframes)).1 (hlevels ▸ hread),
        Json.Canonical.received_of_print hprint] at hcall
      exact ⟨_, l', hcall, Json.Canonical.load_line hread.le,
        Json.Canonical.print_received hv.isDocument⟩
    · intro hno
      by_cases hframes : levels v < x.site.engine.frames
      · have hread : x.limits.reading ≤ levels v :=
          Nat.le_of_not_lt fun hread => hno ⟨hvalues, hframes, hread⟩
        obtain ⟨f, hf, houtcome⟩ := (outcome_valued hw (hlevels ▸ hframes)).2 (hlevels ▸ hread)
        exact ⟨f, l', houtcome ▸ hcall, .read hvalues hframes hread hf⟩
      · have hframes := Nat.le_of_not_lt hframes
        rw [outcome_unwritten hw (hlevels ▸ hframes)] at hcall
        exact ⟨_, l', hcall, .written hvalues hframes⟩
  · constructor
    · intro hfits
      exact absurd hfits.encoded (Nat.not_le.mpr hvalues)
    · intro _
      rw [outcome_failure hw] at hcall
      exact ⟨_, l', hcall, .encoded hvalues⟩

/-- A default export that is a document is what the call loads, if it counts as true; one that counts as
false is passed over, and the call loads all that the module exports, which is never the same. Exports
that are a document without a default are what the call loads. -/
theorem exports_loaded (hl : Provided x settings n s l) (hq : l.state.world.tree = q.tree) {id : Text}
    (hid : Json.intText ((n + 1 : Nat) : Int) = .ok id) {exported : Item}
    (hrun : q.execution x s = (.ok exported, t)) :
    (∀ d v, exported.field? t.heap "default" = some d → Holds t.heap d v →
      ((Item.ofValue v).truthy = true → Loads x settings l q v) ∧
      ((Item.ofValue v).truthy = false → ∀ o, Holds t.heap exported o →
        Loads x settings l q o ∧ print o ≠ print v)) ∧
    ∀ v, Worker.field? v "default" = none → Holds t.heap exported v → Loads x settings l q v := by
  refine ⟨fun d v hd hv => ⟨fun htrue => ?_, fun hfalse o ho => ⟨?_, ?_⟩⟩, fun v hno hv => ?_⟩
  · refine loads_selected hl hq hid hrun ?_
    rw [Worker.selected_default hd, hv.truthy, if_pos htrue]
    exact hv
  · refine loads_selected hl hq hid hrun ?_
    rw [Worker.selected_default hd, hv.truthy, hfalse]
    exact ho
  · obtain ⟨es, rfl⟩ := ho.mapping_of_field hd
    exact Json.Canonical.print_mapping_ne es hv.isDocument hfalse
  · refine loads_selected hl hq hid hrun ?_
    rw [Worker.selected_exports (hv.field?_none hno)]
    exact hv

def programmed (statements : List Script.Statement) : TypeScript :=
  { TypeScript.Scripted.compiler [Text.ofString "w"] with
    transpile := fun _ _ options => ([], ⟨statements, .mapping options, [], .null⟩) }

/-- A document of values that count as false and of empty containers. -/
def hollow : Value := .mapping (textEntries [
  ("b", .list [.null, .bool false, .float (.zero false), .text [], .list [], .mapping []]),
  ("1", .mapping [])])

theorem hollow_isDocument : IsDocument hollow := by
  have hzero : (Binary64.zero false).isFinite = true := rfl
  have hempty : IsDocument (.mapping (textEntries [])) := .mapping List.nodup_nil nofun nofun
  refine .mapping (by decide) (by decide) ?_
  intro m hm
  simp only [List.mem_cons, List.not_mem_nil, or_false] at hm
  rcases hm with rfl | rfl
  · refine .list fun v hv => ?_
    simp only [List.mem_cons, List.not_mem_nil, or_false] at hv
    rcases hv with rfl | rfl | rfl | rfl | rfl | rfl
    · exact .null
    · exact .bool false
    · exact .number hzero
    · exact .text rfl
    · exact .list nofun
    · exact hempty
  · exact hempty

def sampleQuery : Query := ⟨sample.tree, "/w/a.ts", ""⟩

def sampleExecution (statements : List Script.Statement) : Except Modules.Stop Item × State :=
  sampleQuery.execution (sampleSetting (programmed statements) false)
    (Worker.startState "/worker.js")

/-- The call of a worker that has such a compiler ends with the text of a value. -/
def LoadsSample (statements : List Script.Statement) (v : Value) : Prop :=
  ∃ w l', (sampleLoader (programmed statements) false).call
      (Compiler.service (ops .usual) ⟨"/w", "/worker.js"⟩ .default) (.text sampleQuery.path)
      (.text sampleQuery.content) = (.ok w, l') ∧ print w = print v

theorem Loads.sample {statements : List Script.Statement}
    (h : Loads (sampleSetting (programmed statements) false) .default
      (sampleLoader (programmed statements) false) sampleQuery v)
    (hlevels : levels v < 990) : LoadsSample statements v := by
  have hfits : Fits (sampleSetting (programmed statements) false) v :=
    ⟨Nat.le_trans hlevels.le (show 990 ≤ 4000 by decide),
      Nat.lt_trans hlevels (show 990 < 4000 by decide), hlevels⟩
  obtain ⟨w, l', hcall, -, hprint⟩ := h.whole hfits
  exact ⟨w, l', hcall, hprint⟩

theorem exports_loaded_hollow : LoadsSample [.setDefault (some hollow)] hollow ∧
    LoadsSample [.setExports (some hollow)] hollow ∧
    LoadsSample [.setDefault (some .null)] (.mapping (textEntries [("default", .null)])) := by
  have hserved (statements : List Script.Statement) :
      Provided (sampleSetting (programmed statements) false) .default 0
        (Worker.startState "/worker.js") (sampleLoader (programmed statements) false) :=
    .held (serves_sample _ _)
  have hid : Json.intText ((0 + 1 : Nat) : Int) = .ok "1" := rfl
  refine ⟨?_, ?_, ?_⟩
  · have hrun : (sampleExecution [.setDefault (some hollow)]).1 = .ok (.cell 2) := rfl
    have hloads := exports_loaded (hserved _) rfl hid (Prod.fst_eq_iff.mp hrun)
    exact ((hloads.1 _ hollow rfl (Script.holds_ofValue _ hollow_isDocument)).1 rfl).sample (by decide)
  · have hrun : (sampleExecution [.setExports (some hollow)]).1 = .ok (.cell 4) := rfl
    have hloads := exports_loaded (hserved _) rfl hid (Prod.fst_eq_iff.mp hrun)
    exact (hloads.2 hollow rfl (.cell rfl (Script.holds_ofValue _ hollow_isDocument))).sample
      (by decide)
  · have hrun : (sampleExecution [.setDefault (some .null)]).1 = .ok (.cell 2) := rfl
    have hloads := exports_loaded (hserved _) rfl hid (Prod.fst_eq_iff.mp hrun)
    refine Loads.sample ((hloads.1 .null .null rfl .null).2 rfl _ ?_).1 (by decide)
    have hdocument : IsDocument (.mapping (textEntries [("default", .null)])) := by
      refine .mapping (by decide) (by decide) fun m hm => ?_
      rw [List.mem_singleton.mp hm]
      exact .null
    exact .cell rfl (Script.holds_ofValue _ hdocument)

/-- The text of the default export that a statement sets. -/
def defaultText? : Script.Statement → Option Text
  | .setDefault v => v.map print
  | _ => none

def zeroDefault : Text := "[\x7b\"do\": \"default\", \"value\": 0\x7d]"

/-- Such a source sets zero as its default export, and its call loads the object that holds it. -/
theorem zero_default_replaced :
    (TypeScript.Scripted.Plan.ofSource sample.tree.cwd zeroDefault).program.map defaultText? =
      [some (print (.int 0))] ∧
    ∃ w, results .usual ⟨"/w", "/worker.js"⟩ { Settings.default with typeCheck := false }
        [⟨sample.tree, "/w/a.ts", zeroDefault⟩] (Loader.start sample) = [.ok w] ∧
      print w = "\x7b\"default\":0\x7d" ∧ print w ≠ print (.int 0) := by
  have hcall : (results .usual ⟨"/w", "/worker.js"⟩ { Settings.default with typeCheck := false }
      [⟨sample.tree, "/w/a.ts", zeroDefault⟩] (Loader.start sample)).map
        (fun r => r.toOption.map print) = [some (Text.ofString "\x7b\"default\":0\x7d")] := by
    decide +kernel
  obtain ⟨r, hr, hprint⟩ := List.map_eq_singleton_iff.mp hcall
  cases r with
  | error f => cases hprint
  | ok w =>
    have hprint : print w = "\x7b\"default\":0\x7d" := Option.some.inj hprint
    refine ⟨by decide +kernel, w, hr, hprint, ?_⟩
    rw [hprint]
    decide +kernel

end Serving
end ConfigLoader
