import ConfigLoader.Proofs.Json.Exact
import ConfigLoader.Proofs.Worker.Answers

/-! # Findings as callers see them

A finding with a number for its code and a name for its category is read as a diagnostic with these, and
with its place where it says that it starts there.
-/
namespace ConfigLoader.TypeScript
open Json.Canonical (received received_fields receivedNumber_ofInt textEntries ArePlain)
open Worker (told toldReport)

/-- A number that scripts hold exactly, in one of its forms. -/
def IsNumber (v : Value) (n : Int) : Prop := (v = .int n ∨ v = Finding.number n) ∧ n.natAbs < 2 ^ 53

theorem IsNumber.received {v : Value} {n : Int} (h : IsNumber v n) : received v = .int n := by
  obtain ⟨rfl | rfl, hn⟩ := h
  · exact receivedNumber_ofInt hn
  · exact receivedNumber_ofInt hn

theorem IsNumber.wholeNumber {v : Value} {n : Int} (h : IsNumber v n) :
    v.wholeNumber? = some n := by
  obtain ⟨rfl | rfl, hn⟩ := h
  · rfl
  · exact Binary64.toInt?_ofInt hn

namespace Finding

/-- A finding as compilers make them: its code is a number, and so is what its place counts, and its
category has a name. -/
structure IsProper (ts : TypeScript) (f : Finding) : Prop where
  code : ∃ v n, f.code = some v ∧ IsNumber v n
  place : ∀ p, f.place = some p → IsNumber (number (p.line + 1)) (p.line + 1) ∧
    IsNumber (number (p.column + 1)) (p.column + 1)
  category : ∃ name, f.category.bind ts.categoryName = some name

def told? (f : Finding) : Option Place := if f.hasStart then f.place else none

def toldCategory (ts : TypeScript) (f : Finding) : Text :=
  Text.joinSurrogates (Text.lower ((f.category.bind ts.categoryName).getD []))

def diagnostic (ts : TypeScript) (f : Finding) : Diagnostic where
  code := (f.code.bind Value.wholeNumber?).getD 0
  category := f.toldCategory ts
  message := Text.joinSurrogates (f.message ts)
  file := f.told?.map fun p => Text.joinSurrogates p.file
  line := f.told?.map fun p => p.line + 1
  column := f.told?.map fun p => p.column + 1

def placeFields? : Option Place → List (Text × Value)
  | some p => [("file", .text p.file), ("line", number (p.line + 1)),
      ("column", number (p.column + 1))]
  | none => [("file", .null), ("line", .null), ("column", .null)]

/-- The fields of a finding with a code and the name of a category. -/
def fields (ts : TypeScript) (f : Finding) (code : Value) (name : Text) : List (Text × Value) :=
  ("code", code) :: ("category", .text (Text.lower name)) :: ("message", .text (f.message ts)) ::
    placeFields? f.told?

variable {ts : TypeScript} {f : Finding} {v : Value} {name : Text}

theorem document_fields (hv : f.code = some v) (hname : f.category.bind ts.categoryName = some name) :
    f.document? ts = some (.mapping (textEntries (f.fields ts v name))) := by
  simp only [document?, hv, hname, fields, told?, bind, Option.bind_some, pure]
  cases f.place <;> cases f.hasStart <;> rfl

theorem received_document (hv : f.code = some v)
    (hname : f.category.bind ts.categoryName = some name) :
    received ((f.document? ts).getD .null) =
      .mapping (textEntries ((f.fields ts v name).map fun g => (g.1, received g.2))) := by
  rw [document_fields hv hname]
  refine received_fields ["code", "category", "message", "file", "line", "column"] _ ?_ (by decide)
  rw [fields]
  cases f.told? <;> rfl

/-- A finding whose numbers are read as integers is read as a diagnostic with these. -/
theorem recorded_received {k : Int} (count : Place → Int × Int) (hv : f.code = some v)
    (hname : f.category.bind ts.categoryName = some name) (hk : received v = .int k)
    (hcount : ∀ p, f.told? = some p → received (number (p.line + 1)) = .int (count p).1 ∧
      received (number (p.column + 1)) = .int (count p).2) :
    f.recorded ts = .ok {
      code := k
      category := f.toldCategory ts
      message := Text.joinSurrogates (f.message ts)
      file := f.told?.map fun p => Text.joinSurrogates p.file
      line := f.told?.map fun p => (count p).1
      column := f.told?.map fun p => (count p).2 } := by
  have hread := congrArg Diagnostic.read (received_document hv hname)
  rw [recorded, hread, fields, toldCategory, hname]
  cases hp : f.told? with
  | none =>
    simp only [placeFields?, List.map_cons, List.map_nil, hk]
    rfl
  | some p =>
    obtain ⟨hline, hcolumn⟩ := hcount p hp
    simp only [placeFields?, List.map_cons, List.map_nil, hk, hline, hcolumn]
    rfl

theorem place_of_told {p : Place} (h : f.told? = some p) : f.place = some p := by
  rw [told?] at h
  split at h
  · exact h
  · cases h

theorem recorded_proper (h : f.IsProper ts) : f.recorded ts = .ok (f.diagnostic ts) := by
  obtain ⟨v, n, hv, hn⟩ := h.code
  obtain ⟨name, hname⟩ := h.category
  have hcode : (f.diagnostic ts).code = n := by
    rw [diagnostic, hv, Option.bind_some, hn.wholeNumber, Option.getD_some]
  have hread := recorded_received (fun p => (p.line + 1, p.column + 1)) hv hname hn.received
    fun p hp => ⟨(h.place p (place_of_told hp)).1.received, (h.place p (place_of_told hp)).2.received⟩
  rw [hread, ← hcode]
  rfl

theorem findingsFault_proper {es : List Finding} (h : ∀ f ∈ es, f.IsProper ts) (directory : Text) :
    Worker.findingsFault ts directory es =
      Fault.diagnosticsFault (es.map (diagnostic ts)) (toldReport ts directory es) := by
  have hm : es.mapM (recorded ts) = .ok (es.map (diagnostic ts)) := by
    induction es with
    | nil => rfl
    | cons f es ih =>
      rw [List.mapM_cons, recorded_proper (h f (List.mem_cons_self ..)),
        ih fun g hg => h g (List.mem_cons_of_mem _ hg)]
      rfl
  rw [Worker.findingsFault, hm]

end Finding
end ConfigLoader.TypeScript
