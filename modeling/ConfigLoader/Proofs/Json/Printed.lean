import ConfigLoader.Proofs.Json.Documents
import ConfigLoader.Proofs.Json.Floats
import ConfigLoader.Proofs.Json.Printable

/-! # Printed values read back

A printed value is indented, and its text goes beyond ASCII. A reader has the value again, with dates,
times and bytes as the texts that show them, where there is room for its levels.
-/
namespace ConfigLoader.Json
open Canonical (textEntries ofPairs_textEntries)
open Text (IsString)

/-- A value of a configuration: keys are texts, each of its own, texts can be encoded, and integers have
no more digits than can be shown. Dates, times and bytes may stand where texts stand. -/
inductive IsConfig : Value → Prop
  | null : IsConfig .null
  | bool (b : Bool) : IsConfig (.bool b)
  | int {n : Int} (h : isLong n = false) : IsConfig (.int n)
  | float (x : Binary64) : IsConfig (.float x)
  | text {t : Text} (h : t.IsString) : IsConfig (.text t)
  | bytes (b : List UInt8) : IsConfig (.bytes b)
  | date (d : Date) : IsConfig (.date d)
  | dateTime (d : DateTime) : IsConfig (.dateTime d)
  | list {vs : List Value} (h : ∀ v ∈ vs, IsConfig v) : IsConfig (.list vs)
  | mapping {ms : List (Text × Value)} (hdistinct : (ms.map Prod.fst).Nodup)
      (hnames : ∀ m ∈ ms, m.1.IsString) (h : ∀ m ∈ ms, IsConfig m.2) :
      IsConfig (.mapping (textEntries ms))

mutual

def readBack : Value → Value
  | .bytes b => .text (Value.bytes b).display
  | .date d => .text (Value.date d).display
  | .dateTime d => .text (Value.dateTime d).display
  | .float x => .float (readFloat x)
  | .list vs => .list (readBackItems vs)
  | .mapping es => .mapping (readBackEntries es)
  | v => v

def readBackItems : List Value → List Value
  | [] => []
  | v :: vs => readBack v :: readBackItems vs

def readBackEntries : List (Value × Value) → List (Value × Value)
  | [] => []
  | (k, v) :: es => (k, readBack v) :: readBackEntries es

end

@[simp] theorem readBackItems_eq (vs : List Value) : readBackItems vs = vs.map readBack := by
  induction vs with
  | nil => rfl
  | cons v vs ih => rw [readBackItems, ih]; rfl

@[simp] theorem readBackEntries_eq (ms : List (Text × Value)) :
    readBackEntries (textEntries ms) = textEntries (ms.map fun m => (m.1, readBack m.2)) := by
  induction ms with
  | nil => rfl
  | cons m ms ih => exact congrArg ((Value.text m.1, readBack m.2) :: ·) ih

/-! ## Values that can be printed -/

theorem arePrintable_iff (limits : Limits) (vs : List Value) :
    ArePrintable limits vs ↔ ∀ v ∈ vs, IsPrintable limits v := by
  induction vs with
  | nil => exact iff_of_true trivial nofun
  | cons v vs ih => rw [ArePrintable, ih, List.forall_mem_cons]

theorem entriesPrintable_textEntries (limits : Limits) (ms : List (Text × Value)) :
    EntriesPrintable limits (textEntries ms) ↔ ∀ m ∈ ms, m.1.IsString ∧ IsPrintable limits m.2 := by
  induction ms with
  | nil => exact iff_of_true trivial nofun
  | cons m ms ih =>
    rw [List.forall_mem_cons, ← ih, and_assoc]
    exact Iff.rfl

variable {limits : Limits}

theorem IsConfig.isPrintable {v : Value} (h : IsConfig v) : IsPrintable limits v := by
  induction h with
  | null | bool | float | bytes | date | dateTime => trivial
  | int h => exact h
  | text h => exact h
  | list _ ih => exact (arePrintable_iff ..).mpr ih
  | mapping _ hnames _ ih =>
    exact (entriesPrintable_textEntries ..).mpr fun m hm => ⟨hnames m hm, ih m hm⟩

/-! ## Texts -/

theorem joinSurrogates_of_isString {t : Text} (h : t.IsString) : Text.joinSurrogates t = t := by
  have hhigh : ∀ c ∈ t, c.isHighSurrogate = false := by
    intro c hc
    have hs := h c hc
    simp only [CodePoint.isSurrogate, CodePoint.isHighSurrogate, Bool.and_eq_false_iff,
      decide_eq_false_iff_not] at hs ⊢
    omega
  have happend := Text.joinSurrogates_append hhigh []
  rwa [List.append_nil, Text.joinSurrogates, List.append_nil] at happend

theorem quote_of_isString {t : Text} (h : t.IsString) : quote false t = Canonical.quote t := by
  have hescape : t.flatMap (escapeOne false) = t.flatMap Canonical.escapeOne := by
    refine List.flatMap_congr fun c hc => ?_
    rw [Canonical.escapeOne, h c hc, if_neg Bool.false_ne_true]
  rw [quote, Canonical.quote, hescape]

theorem parsesName_quote {t : Text} (h : t.IsString) : ParsesName (quote false t) t := by
  have hname := Canonical.parses_quote t
  rwa [← quote_of_isString h, joinSurrogates_of_isString h] at hname

/-! ## Printing -/

theorem isBlank_newline (depth : Nat) : IsBlank (newline (resultLayout limits) depth) := by
  rintro c (_ | ⟨_, hc⟩)
  · rfl
  · rw [List.eq_of_mem_replicate hc]
    rfl

theorem bracket_cons (depth : Nat) (opening closing : CodePoint) (t : Text) (ts : List Text) :
    bracket (resultLayout limits) depth opening closing (t :: ts) =
      opening :: (newline (resultLayout limits) (depth + 1) ++
        (Text.join (CodePoint.ofChar ',' :: newline (resultLayout limits) (depth + 1))
          (t :: ts) ++ (newline (resultLayout limits) depth ++ [closing]))) := by
  simp only [bracket, List.cons_append, List.append_assoc]
  rfl

theorem parses_items {l : Nat} {ts : List Text} {vs : List Value}
    (h : List.Forall₂ (Parses l) ts vs) (depth : Nat) :
    Parses (l + 1) (bracket (resultLayout limits) depth '[' ']' ts) (.list vs) := by
  cases h with
  | nil => exact parses_nil
  | cons ht h =>
    rw [bracket_cons]
    exact parses_list (isBlank_newline _) (isBlank_newline _) (.cons ht h) (List.cons_ne_nil _ _)

theorem parses_members {l : Nat} {ts : List Text} {ms : List (Text × Value)}
    (h : List.Forall₂ (ParsesMember l " ") ts ms) (depth : Nat) :
    Parses (l + 1) (bracket (resultLayout limits) depth '\x7b' '\x7d' ts)
      (.mapping (Entries.ofPairs (textEntries ms))) := by
  have hspace : IsBlank " " := List.forall_mem_singleton.mpr rfl
  cases h with
  | nil => exact parses_empty
  | cons ht h =>
    rw [bracket_cons]
    exact parses_mapping hspace (isBlank_newline _) (isBlank_newline _) (.cons ht h) (List.cons_ne_nil _ _)

/-- A value is printed, at any depth that leaves room for it, as a text that is read as what it should be
where there are levels enough. -/
def PrintsBack (limits : Limits) (v : Value) : Prop :=
  ∀ depth l, depth + v.levels ≤ limits.printing → v.levels ≤ l →
    ∃ text, print (resultLayout limits) depth v = .ok text ∧ Parses l text (readBack v)

theorem printItems_back {vs : List Value} (h : ∀ v ∈ vs, PrintsBack limits v) (depth l : Nat)
    (hd : ∀ v ∈ vs, depth + v.levels ≤ limits.printing) (hl : ∀ v ∈ vs, v.levels ≤ l) :
    ∃ ts, printItems (resultLayout limits) depth vs = .ok ts ∧
      List.Forall₂ (Parses l) ts (vs.map readBack) := by
  induction vs with
  | nil => exact ⟨[], rfl, .nil⟩
  | cons v vs ih =>
    obtain ⟨t, ht, hv⟩ := h v (List.mem_cons_self ..) depth l (hd v (List.mem_cons_self ..))
      (hl v (List.mem_cons_self ..))
    obtain ⟨ts, hts, hvs⟩ := ih (fun w hw => h w (List.mem_cons_of_mem _ hw))
      (fun w hw => hd w (List.mem_cons_of_mem _ hw)) fun w hw => hl w (List.mem_cons_of_mem _ hw)
    refine ⟨t :: ts, ?_, .cons hv hvs⟩
    simp only [printItems, ht, hts, bind, Except.bind]
    rfl

theorem printMembers_back {ms : List (Text × Value)} (hnames : ∀ m ∈ ms, m.1.IsString)
    (h : ∀ m ∈ ms, PrintsBack limits m.2) (depth l : Nat)
    (hd : ∀ m ∈ ms, depth + m.2.levels ≤ limits.printing) (hl : ∀ m ∈ ms, m.2.levels ≤ l) :
    ∃ ts, printMembers (resultLayout limits) depth (textEntries ms) = .ok ts ∧
      List.Forall₂ (ParsesMember l " ") ts (ms.map fun m => (m.1, readBack m.2)) := by
  induction ms with
  | nil => exact ⟨[], rfl, .nil⟩
  | cons m ms ih =>
    obtain ⟨t, ht, hv⟩ := h m (List.mem_cons_self ..) depth l (hd m (List.mem_cons_self ..))
      (hl m (List.mem_cons_self ..))
    obtain ⟨ts, hts, hvs⟩ := ih (fun n hn => hnames n (List.mem_cons_of_mem _ hn))
      (fun n hn => h n (List.mem_cons_of_mem _ hn)) (fun n hn => hd n (List.mem_cons_of_mem _ hn))
      fun n hn => hl n (List.mem_cons_of_mem _ hn)
    refine ⟨(quote false m.1 ++ CodePoint.ofChar ':' :: (" " ++ t)) :: ts, ?_,
      .cons (.mk (parsesName_quote (hnames m (List.mem_cons_self ..))) hv) hvs⟩
    have hts : printMembers (resultLayout limits) depth (ms.map fun m => (.text m.1, m.2)) = .ok ts := hts
    simp only [textEntries, List.map_cons, printMembers, nameText, ht, hts, bind, Except.bind,
      List.append_assoc]
    rfl

theorem shown_back {l : Nat} {v : Value} (htext : ∀ t, v ≠ .text t)
    (hflaw : ∀ n, flaw? (n + 1) v = none) :
    ∃ text, (shown limits v).map (quote false) = .ok text ∧ Parses l text (.text v.display) := by
  have hstring : v.display.IsString := Value.isString_display fun t ht => absurd ht (htext t)
  refine ⟨quote false v.display, ?_, (parsesName_quote hstring).parses⟩
  rw [shown, shownAs, flaw?_leaf hflaw]
  rfl

theorem IsConfig.printsBack {v : Value} (h : IsConfig v) : PrintsBack limits v := by
  induction h with
  | null => exact fun _ _ _ _ => ⟨_, rfl, Canonical.parses_null⟩
  | bool b =>
    intro depth l _ _
    cases b with
    | true => exact ⟨_, rfl, Canonical.parses_print (.bool true) (Nat.zero_le l)⟩
    | false => exact ⟨_, rfl, Canonical.parses_print (.bool false) (Nat.zero_le l)⟩
  | int h =>
    refine fun depth l _ _ => ⟨_, ?_, parses_ofInt h⟩
    rw [print, intText, h]
    rfl
  | float x => exact fun _ _ _ _ => ⟨_, rfl, parses_float x⟩
  | text h => exact fun _ _ _ _ => ⟨_, rfl, (parsesName_quote h).parses⟩
  | bytes b => exact fun _ _ _ _ => shown_back (v := .bytes b) (fun _ h => by cases h) fun _ => rfl
  | date d => exact fun _ _ _ _ => shown_back (v := .date d) (fun _ h => by cases h) fun _ => rfl
  | dateTime d =>
    exact fun _ _ _ _ => shown_back (v := .dateTime d) (fun _ h => by cases h) fun _ => rfl
  | @list vs h ih =>
    intro depth l hd hl
    rw [Value.levels] at hd hl
    obtain ⟨k, rfl⟩ := Nat.exists_eq_succ_of_ne_zero (Nat.ne_of_gt (Nat.lt_of_lt_of_le
      (Nat.succ_pos _) hl))
    have hitems : ∀ v ∈ vs, v.levels ≤ Value.itemLevels vs := Value.itemLevels_le.mp (Nat.le_refl _)
    obtain ⟨ts, hts, hvs⟩ := printItems_back ih (depth + 1) k
      (fun v hv => by have := hitems v hv; omega) fun v hv => by have := hitems v hv; omega
    refine ⟨bracket (resultLayout limits) depth '[' ']' ts, ?_, ?_⟩
    · have hlt : depth < (resultLayout limits).levels := by
        change depth < limits.printing
        omega
      rw [print, within_of_lt hlt, hts]
      rfl
    · rw [readBack, readBackItems_eq]
      exact parses_items hvs depth
  | @mapping ms hdistinct hnames h ih =>
    intro depth l hd hl
    rw [Value.levels] at hd hl
    obtain ⟨k, rfl⟩ := Nat.exists_eq_succ_of_ne_zero (Nat.ne_of_gt (Nat.lt_of_lt_of_le
      (Nat.succ_pos _) hl))
    have hitems : ∀ m ∈ ms, m.2.levels ≤ Value.entryLevels (textEntries ms) := fun m hm =>
      Value.entryLevels_le.mp (Nat.le_refl _) (Value.text m.1, m.2) (List.mem_map_of_mem hm)
    obtain ⟨ts, hts, hvs⟩ := printMembers_back hnames ih (depth + 1) k
      (fun m hm => by have := hitems m hm; omega) fun m hm => by have := hitems m hm; omega
    refine ⟨bracket (resultLayout limits) depth '\x7b' '\x7d' ts, ?_, ?_⟩
    · have hlt : depth < (resultLayout limits).levels := by
        change depth < limits.printing
        omega
      rw [print, within_of_lt hlt, hts]
      rfl
    · have hnodup : ((ms.map fun m => (m.1, readBack m.2)).map Prod.fst).Nodup := by
        rw [List.map_map]
        exact hdistinct
      have hparses := @parses_members limits k ts _ hvs depth
      rwa [ofPairs_textEntries hnodup, ← readBackEntries_eq, ← readBack] at hparses

theorem load_dump {v : Value} (h : IsConfig v) (hprinting : v.levels ≤ limits.printing)
    (hreading : v.levels ≤ limits.reading) :
    ∃ text, dump (resultLayout limits) v = .ok text ∧
      load limits.reading (text ++ "\n") = .ok (readBack v) := by
  have hroom : 0 + v.levels ≤ limits.printing := by rwa [Nat.zero_add]
  obtain ⟨text, ht, hparses⟩ := h.printsBack 0 limits.reading hroom hreading
  exact ⟨text, ht, load_parses hparses⟩

end ConfigLoader.Json
