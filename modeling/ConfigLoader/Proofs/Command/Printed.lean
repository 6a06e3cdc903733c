import ConfigLoader.Proofs.Command.Endings
import ConfigLoader.Proofs.Json.Printed
import ConfigLoader.Proofs.Text.Utf8

/-! # What a run prints

The output of a run that loads a configuration is a document again, and what is read of it is the
configuration, with dates, times and bytes as the texts that show them.
-/
namespace ConfigLoader.Command
open ConfigFile (standardTable open? Loaded loadStandard)
variable {W S : Type}

section
variable {limits : Limits} {ops : ServiceOps W S} {t : FileTree} {file : Text} {l : Loader W S}

theorem loadStandard_slot {q : ConfigFile.Request ConfigFile.Reader}
    (h : open? standardTable t file = .ok q) (hq : q.reader ≠ .typescript) :
    (loadStandard limits ops t file l).2.slot = l.slot := by
  obtain ⟨k, hslot, -, hk⟩ := loadStandard_ok ops l h
  obtain ⟨path, content, reader⟩ := q
  rw [hk]
  cases reader with
  | json => exact hslot
  | yaml => exact hslot
  | typescript => exact absurd rfl hq

/-- Closing after a load is no fault if closing the service of a module is none. -/
theorem close_loaded {w : W} {c : Loaded}
    (hload : (loadStandard limits ops t file (.start w)).1 = .ok c)
    (hclose : ∀ q service, open? standardTable t file = .ok q → q.reader = .typescript →
      (loadStandard limits ops t file (.start w)).2.slot = some service →
      (ops.close service (loadStandard limits ops t file (.start w)).2.state).1 = .ok ()) :
    ((loadStandard limits ops t file (.start w)).2.close ops).1 = .ok () := by
  cases ho : open? standardTable t file with
  | error f =>
    rw [loadStandard_error ho] at hload
    cases hload
  | ok q =>
    unfold Loader.close
    cases hslot : (loadStandard limits ops t file (.start w)).2.slot with
    | none => rfl
    | some service =>
      refine hclose q service ho (by_contra fun hq => ?_) hslot
      rw [loadStandard_slot ho hq] at hslot
      cases hslot

end

/-- A run that loads a configuration, with room for its levels, exits with code zero and prints a string,
which is read back from its bytes, and as JSON is what should be read of the configuration. -/
theorem run_prints_back {site : Site W S} {before t : FileTree} {args : List Text} {o : Options}
    {log : Option Location} {s : Settings} {c : Loaded}
    (hargs : Request.ofArguments before args = .ok (.load o))
    (hlog : openLog site.stamp before o.debugLog = .ok (log, t))
    (hs : settingsOf site.limits t site.defaults o = .ok s)
    (hload : (loadStandard site.limits (site.ops s) t o.config (.start (site.world t))).1 = .ok c)
    (hclose : ∀ q service, open? standardTable t o.config = .ok q → q.reader = .typescript →
      (loadStandard site.limits (site.ops s) t o.config (.start (site.world t))).2.slot = some service →
      ((site.ops s).close service
        (loadStandard site.limits (site.ops s) t o.config (.start (site.world t))).2.state).1 = .ok ())
    (hc : Json.IsConfig c.value) (hprinting : c.value.levels ≤ site.limits.printing)
    (hreading : c.value.levels ≤ site.limits.reading) :
    ∃ text, (run site before args).report = .ok text ∧
      Text.Utf8.decode (Text.Utf8.encode text) = .ok text ∧
      Json.load site.limits.reading text = .ok (Json.readBack c.value) := by
  obtain ⟨text, ht, hback⟩ := Json.load_dump hc hprinting hreading
  have houtput : IsOutput site.limits c.value := ⟨hc.isPrintable, hprinting⟩
  obtain ⟨text', ht', hprint⟩ := printReport_of_output houtput
  obtain rfl : text = text' := Except.ok.inj (ht.symm.trans ht')
  have hstring : text.IsString := by
    obtain ⟨u, hu, hstring⟩ := (print_gives_output c.value).mpr houtput
    obtain rfl : text = u := Except.ok.inj (ht.symm.trans hu)
    exact hstring
  refine ⟨text ++ "\n", ?_, Text.Utf8.decode_encode (Text.isString_append.mpr
    ⟨hstring, Text.isString_ofString _⟩), hback⟩
  rw [run_load site hargs, runLoad_loaded site hlog hs, load_eq, hload,
    close_loaded hload hclose]
  exact hprint

/-- Dates, numbers that are none, and zeros with a sign. -/
def eventsTree : FileTree := configTree "at: 2024-05-01\nof: [.nan, -0.0, \"\\u00e9\"]\n"

def eventsValue : Value :=
  .mapping [("at", .date ⟨2024, 5, 1⟩),
    ("of", .list [.float .nan, .float (.zero true), .text [0xE9]])]

def isEvents : Except Fault Loaded → Bool
  | .ok ⟨p, .mapping [(.text k, .date ⟨y, m, d⟩), (.text l, .list [.float x, .float z, .text u])]⟩ =>
    p == Text.ofString "/w/c.yaml" && k == Text.ofString "at" && l == Text.ofString "of" &&
      y == 2024 && m == 5 && d == 1 && x == .nan && z == .zero true && u == [0xE9]
  | _ => false

theorem loadStandard_events :
    (loadStandard .usual Service.Script.ops eventsTree "c.yaml"
      (.start (configSite.world eventsTree))).1 = .ok ⟨"/w/c.yaml", eventsValue⟩ := by
  have hb : isEvents (loadStandard .usual Service.Script.ops eventsTree "c.yaml"
      (.start (configSite.world eventsTree))).1 = true := by decide +kernel
  unfold isEvents at hb
  split at hb
  · next he =>
    simp only [Bool.and_eq_true, beq_iff_eq] at hb
    obtain ⟨⟨⟨⟨⟨⟨⟨⟨rfl, rfl⟩, rfl⟩, rfl⟩, rfl⟩, rfl⟩, rfl⟩, rfl⟩, rfl⟩ := hb
    exact he
  · cases hb

theorem run_prints_back_events :
    Request.ofArguments eventsTree ["c.yaml"] = .ok (.load ⟨"c.yaml", none, false, none⟩) ∧
    settingsOf .usual eventsTree configSite.defaults ⟨"c.yaml", none, false, none⟩ = .ok .default ∧
    Json.IsConfig eventsValue ∧ eventsValue.levels ≤ Limits.usual.printing ∧
    eventsValue.levels ≤ Limits.usual.reading ∧
    ∃ text, (run configSite eventsTree ["c.yaml"]).report = .ok text ∧
      Text.Utf8.decode (Text.Utf8.encode text) = .ok text ∧
      Json.load Limits.usual.reading text = .ok (.mapping [("at", "2024-05-01"),
        ("of", .list [.float .nan, .float (.zero true), .text [0xE9]])]) := by
  have hargs : Request.ofArguments eventsTree ["c.yaml"] =
      .ok (.load ⟨"c.yaml", none, false, none⟩) := rfl
  have hlog : openLog configSite.stamp eventsTree none = .ok (none, eventsTree) := rfl
  have hs : settingsOf .usual eventsTree configSite.defaults ⟨"c.yaml", none, false, none⟩ =
      .ok .default := rfl
  have hslot : (loadStandard .usual (configSite.ops .default) eventsTree "c.yaml"
      (.start (configSite.world eventsTree))).2.slot = none := by decide +kernel
  have hc : Json.IsConfig eventsValue := by
    have hitems : Json.IsConfig (.list [.float .nan, .float (.zero true), .text [0xE9]]) := by
      refine .list ?_
      simp only [List.forall_mem_cons]
      exact ⟨.float _, .float _, .text (by simp; rfl), nofun⟩
    have hvalues : ∀ m ∈ [(Text.ofString "at", Value.date ⟨2024, 5, 1⟩), (Text.ofString "of",
        .list [.float .nan, .float (.zero true), .text [0xE9]])], Json.IsConfig m.2 := by
      simp only [List.forall_mem_cons]
      exact ⟨.date _, hitems, nofun⟩
    exact .mapping (by decide) (by simp) hvalues
  have hprinting : eventsValue.levels ≤ Limits.usual.printing := by decide
  have hreading : eventsValue.levels ≤ Limits.usual.reading := by decide
  refine ⟨hargs, hs, hc, hprinting, hreading, ?_⟩
  refine run_prints_back hargs hlog hs loadStandard_events (fun _ _ _ _ h => ?_) hc hprinting hreading
  cases hslot.symm.trans h

end ConfigLoader.Command
