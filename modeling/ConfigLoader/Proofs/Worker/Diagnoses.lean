import Mathlib.Data.List.Forall2
import ConfigLoader.Proofs.Json.Exact
import ConfigLoader.Proofs.Worker.Findings

/-! # Diagnostics that tell findings

A finding with integers for its code and for the counts of its place is told by a diagnostic that
holds it whole.
-/
namespace ConfigLoader.TypeScript
open Json.Canonical (received integerLimit receivedNumber_integer levels)
open Worker (told toldReport)

/-- The number that a value is to scripts. -/
def number? : Value → Option Binary64
  | .int n => some (Binary64.ofInt n)
  | .float x => some x
  | _ => none

/-- A value that is an integer to scripts, and one of those that they write without an exponent. -/
def IsInteger (v : Value) (n : Int) : Prop :=
  (∃ x, number? v = some x ∧ x.toInt? = some n) ∧ n.natAbs < integerLimit.natAbs

/-- An integer is another one to scripts; small integers are themselves. -/
structure HeldAs (k n : Int) : Prop where
  held : (Binary64.ofInt k).toInt? = some n
  exact : n.natAbs < 2 ^ 53 → k = n

theorem IsInteger.received {v : Value} {n : Int} (h : IsInteger v n) :
    ∃ k, received v = .int k ∧ HeldAs k n := by
  obtain ⟨⟨x, hv, hx⟩, hn⟩ := h
  obtain ⟨k, hk, hheld, hexact⟩ := receivedNumber_integer hx hn
  refine ⟨k, ?_, hheld, hexact⟩
  cases v with
  | int m =>
    cases hv
    exact hk
  | float y =>
    cases hv
    exact hk
  | _ => cases hv

theorem isInteger_number {c n : Int} (h : IsInteger (Finding.number c) n) (hc : c.natAbs < 2 ^ 53) :
    n = c := by
  obtain ⟨⟨x, hv, hx⟩, -⟩ := h
  cases hv
  rw [Binary64.toInt?_ofInt hc] at hx
  exact (Option.some.inj hx).symm

structure Counts (c k : Int) : Prop where
  held : ∃ n, IsInteger (Finding.number (c + 1)) n ∧ HeldAs k n
  exact : (c + 1).natAbs < 2 ^ 53 → k = c + 1

theorem counts_of_isInteger {c : Int} (h : ∃ n, IsInteger (Finding.number (c + 1)) n) :
    ∃ k, received (Finding.number (c + 1)) = .int k ∧ Counts c k := by
  obtain ⟨n, hn⟩ := h
  obtain ⟨k, hk, hheld⟩ := hn.received
  refine ⟨k, hk, ⟨n, hn, hheld⟩, fun hc => ?_⟩
  have heq := isInteger_number hn hc
  rw [hheld.exact (heq ▸ hc), heq]

namespace Finding

variable {ts : TypeScript} {f : Finding}

/-- The numbers of a finding that are told are integers, and its category has a name. -/
structure HasIntegers (ts : TypeScript) (f : Finding) : Prop where
  code : ∃ v n, f.code = some v ∧ IsInteger v n
  place : ∀ p, f.told? = some p → (∃ n, IsInteger (number (p.line + 1)) n) ∧
    ∃ n, IsInteger (number (p.column + 1)) n
  category : ∃ name, f.category.bind ts.categoryName = some name

/-- A diagnostic tells a finding: its code, its category in lower case, its text, and its place if it has a
file and a start. -/
structure ToldBy (ts : TypeScript) (d : Diagnostic) (f : Finding) : Prop where
  code : ∃ v n, f.code = some v ∧ IsInteger v n ∧ HeldAs d.code n
  category : ∃ c name, f.category = some c ∧ ts.categoryName c = some name ∧
    d.category = Text.joinSurrogates (Text.lower name)
  message : d.message = Text.joinSurrogates (ts.flatten f.text)
  placed : ∀ p, f.place = some p → f.hasStart = true →
    d.file = some (Text.joinSurrogates p.file) ∧
    (∃ k, d.line = some k ∧ Counts p.line k) ∧ ∃ k, d.column = some k ∧ Counts p.column k
  unplaced : f.place = none ∨ f.hasStart = false → d.file = none ∧ d.line = none ∧ d.column = none

theorem levels_placeFields? (o : Option Place) : ∀ g ∈ placeFields? o, levels g.2 = 0 := by
  cases o <;> simp [placeFields?, levels, number]

theorem levels_document (h : f.HasIntegers ts) {d : Value} (hd : f.document? ts = some d) :
    levels d ≤ 1 := by
  obtain ⟨v, n, hv, ⟨⟨x, hx, -⟩, -⟩⟩ := h.code
  obtain ⟨name, hname⟩ := h.category
  have hleaf : levels v = 0 := by
    cases v with
    | int | float => rfl
    | _ => cases hx
  obtain rfl : _ = d := Option.some.inj ((document_fields hv hname).symm.trans hd)
  rw [levels, Nat.add_le_add_iff_right, Json.Canonical.memberLevels_le]
  intro e he
  obtain ⟨g, hg, rfl⟩ := List.mem_map.mp he
  simp only [fields, List.mem_cons] at hg
  rcases hg with rfl | rfl | rfl | hg
  · exact hleaf.le
  · exact Nat.le_refl 0
  · exact Nat.le_refl 0
  · exact (levels_placeFields? _ g hg).le

theorem answer?_findings {e : Engine} {t : Modules.State} {directory report : Text}
    {es : List Finding} (id : Binary64) (h : ∀ f ∈ es, f.HasIntegers ts)
    (hreport : ts.format (.text directory) es = some report) :
    ∃ d, Worker.answer? e ts t (.text directory) (some (.float id)) (.error (.found es)) = some d ∧
      levels d ≤ 3 := by
  have hdocuments : ∃ ds, es.mapM (document? ts) = some ds ∧ ∀ d ∈ ds, levels d ≤ 1 := by
    clear hreport
    induction es with
    | nil => exact ⟨[], rfl, nofun⟩
    | cons f es ih =>
      have hf := h f (List.mem_cons_self ..)
      obtain ⟨v, n, hv, -⟩ := hf.code
      obtain ⟨name, hname⟩ := hf.category
      obtain ⟨ds, hds, hall⟩ := ih fun g hg => h g (List.mem_cons_of_mem _ hg)
      have hd := document_fields hv hname
      refine ⟨_ :: ds, ?_, List.forall_mem_cons.mpr ⟨levels_document hf hd, hall⟩⟩
      rw [List.mapM_cons, hd, hds]
      rfl
  obtain ⟨ds, hds, hall⟩ := hdocuments
  have hlist : levels (.list ds) ≤ 2 := by
    rw [levels, Nat.add_le_add_iff_right, Json.Canonical.itemLevels_le]
    exact hall
  refine ⟨Worker.answer (some (.float id)) "diagnostics"
    [("message", .text ("Unable to compile TypeScript:\n" ++ Text.trimBlankEnd report)),
      ("diagnostics", .list ds)], ?_, ?_⟩
  · simp only [Worker.answer?, Worker.stoppedAnswer?, hds, report?, hreport, Option.map_some, bind,
      Option.bind_some, pure]
  · rw [Worker.answer, levels, Nat.add_le_add_iff_right, Json.Canonical.memberLevels_le]
    simp only [Worker.idField, List.mem_append, List.mem_cons, List.not_mem_nil, or_false]
    rintro e ((rfl | rfl) | rfl | rfl)
    · exact Nat.zero_le _
    · exact Nat.zero_le _
    · exact Nat.zero_le _
    · exact hlist

theorem recorded_told (h : f.HasIntegers ts) : ∃ d, f.recorded ts = .ok d ∧ ToldBy ts d f := by
  obtain ⟨v, n, hv, hn⟩ := h.code
  obtain ⟨name, hname⟩ := h.category
  obtain ⟨k, hk, hheld⟩ := hn.received
  have hcount : ∃ count : Place → Int × Int, ∀ p, f.told? = some p →
      (received (number (p.line + 1)) = .int (count p).1 ∧ Counts p.line (count p).1) ∧
      received (number (p.column + 1)) = .int (count p).2 ∧ Counts p.column (count p).2 := by
    cases hp : f.told? with
    | none => exact ⟨fun _ => (0, 0), nofun⟩
    | some p =>
      obtain ⟨l, hl⟩ := counts_of_isInteger (h.place p hp).1
      obtain ⟨c, hc⟩ := counts_of_isInteger (h.place p hp).2
      refine ⟨fun _ => (l, c), ?_⟩
      rintro q ⟨⟩
      exact ⟨hl, hc⟩
  obtain ⟨count, hcount⟩ := hcount
  refine ⟨_, recorded_received count hv hname hk fun p hp => ⟨(hcount p hp).1.1, (hcount p hp).2.1⟩,
    ⟨v, n, hv, hn, hheld⟩, ?_, rfl, ?_, ?_⟩
  · obtain ⟨c, hc, hcn⟩ := Option.bind_eq_some_iff.mp hname
    exact ⟨c, name, hc, hcn, by rw [toldCategory, hname, Option.getD_some]⟩
  · intro p hp hs
    have htold : f.told? = some p := by rw [told?, hs, if_pos rfl, hp]
    obtain ⟨⟨-, hl⟩, -, hc⟩ := hcount p htold
    simp only [htold, Option.map_some]
    exact ⟨trivial, ⟨_, rfl, hl⟩, _, rfl, hc⟩
  · intro hno
    have htold : f.told? = none := by
      rw [told?]
      rcases hno with hp | hs
      · rw [hp, ite_self]
      · rw [hs, if_neg Bool.false_ne_true]
    simp only [htold, Option.map_none, and_self]

theorem findingsFault_told {es : List Finding} (h : ∀ f ∈ es, f.HasIntegers ts) (directory : Text) :
    ∃ ds, List.Forall₂ (ToldBy ts) ds es ∧ Worker.findingsFault ts directory es =
      Fault.diagnosticsFault ds (toldReport ts directory es) := by
  have hall : ∃ ds, List.Forall₂ (ToldBy ts) ds es ∧ es.mapM (recorded ts) = .ok ds := by
    induction es with
    | nil => exact ⟨[], .nil, rfl⟩
    | cons f es ih =>
      obtain ⟨d, hd, hf⟩ := recorded_told (h f (List.mem_cons_self ..))
      obtain ⟨ds, hds, hes⟩ := ih fun g hg => h g (List.mem_cons_of_mem _ hg)
      refine ⟨d :: ds, .cons hf hds, ?_⟩
      rw [List.mapM_cons, hd, hes]
      rfl
  obtain ⟨ds, hds, hm⟩ := hall
  refine ⟨ds, hds, ?_⟩
  rw [Worker.findingsFault, hm]

end Finding
end ConfigLoader.TypeScript
