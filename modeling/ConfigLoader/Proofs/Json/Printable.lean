import ConfigLoader.Proofs.Fault.Ends
import ConfigLoader.Proofs.Json.Faults
import ConfigLoader.Proofs.Value.Literals

/-! # Values that can be printed

Results are printed without escapes beyond ASCII, so a text is printed as a string if it is one. Values
without a form are shown, keys are not. A value can be printed if its texts are strings, its keys have
names, its numbers can be shown and it lies nowhere within itself.
-/
namespace ConfigLoader.Json
open Fault (Gives gives_ok not_gives_error gives_bind gives_map gives_congr gives_and)
open Text (IsString)

def IsNameable : Value → Prop
  | .null | .bool _ | .float _ => True
  | .int n => isLong n = false
  | .text t => t.IsString
  | _ => False

section
variable (limits : Limits)

mutual

def IsPrintable : Value → Prop
  | .null | .bool _ | .float _ | .bytes _ | .date _ | .dateTime _ => True
  | .int n => isLong n = false
  | .text t => t.IsString
  | .set vs => flaw? limits.showing (.set vs) = none
  | .list vs | .tuple vs => ArePrintable vs
  | .mapping es => EntriesPrintable es
  | .cycle _ => False

def ArePrintable : List Value → Prop
  | [] => True
  | v :: vs => IsPrintable v ∧ ArePrintable vs

def EntriesPrintable : List (Value × Value) → Prop
  | [] => True
  | (k, v) :: es => IsNameable k ∧ IsPrintable v ∧ EntriesPrintable es

end

end

variable {limits : Limits}

/-! ## Texts -/

@[simp] theorem isString_escapeOne {c : CodePoint} :
    (escapeOne false c).IsString ↔ c.isSurrogate = false := by
  constructor
  · intro h
    by_contra hs
    rw [Bool.not_eq_false] at hs
    have hne : ∀ d : CodePoint, d.isSurrogate = false → c ≠ d := by
      rintro d hd rfl
      cases hd.symm.trans hs
    have hc : 0xD800 ≤ c.val := by
      rw [CodePoint.isSurrogate, Bool.and_eq_true, decide_eq_true_eq] at hs
      exact hs.1
    have hself : escapeOne false c = [c] := by
      rw [escapeOne, if_neg (hne _ (Text.isSurrogate_ofChar '"')),
        if_neg (hne _ (Text.isSurrogate_ofChar '\\')), if_neg (by omega), if_neg (by omega),
        if_neg (by omega), if_neg (by omega), if_neg (by omega), if_neg (by omega)]
      rfl
    rw [hself] at h
    cases (Text.isString_cons.mp h).1.symm.trans hs
  · intro h
    simp [escapeOne, unicodeEscape, h]

theorem isString_quote {t : Text} : (quote false t).IsString ↔ t.IsString := by
  have hquotes : (quote false t).IsString ↔ IsString (t.flatMap (escapeOne false)) := by
    simp [quote]
  rw [hquotes]
  constructor
  · intro h c hc
    refine isString_escapeOne.mp fun d hd => ?_
    exact h d (List.mem_flatMap.mpr ⟨c, hc, hd⟩)
  · exact fun h => Text.isString_flatMap fun c hc => isString_escapeOne.mpr (h c hc)

theorem isString_newline (depth : Nat) : (newline (resultLayout limits) depth).IsString :=
  Text.isString_cons.mpr ⟨rfl, Text.isString_replicate _ rfl⟩

theorem isString_bracket {depth : Nat} {opening closing : Char} {items : List Text} :
    (bracket (resultLayout limits) depth opening closing items).IsString ↔ ∀ t ∈ items, t.IsString := by
  cases items with
  | nil => simp [bracket]
  | cons t items =>
    have hsep : IsString ((resultLayout limits).itemSeparator ++ newline (resultLayout limits) (depth + 1)) :=
      Text.isString_append.mpr ⟨Text.isString_ofString _, isString_newline _⟩
    simp [bracket, Text.isString_join hsep, isString_newline]

theorem spelled_floatStyle : Binary64.Style.Spelled
    { Value.floatStyle with infinity := "Infinity", nan := "NaN" } :=
  ⟨Text.isString_ofString _, Text.isString_ofString _, Text.isString_ofString _⟩

/-! ## Values -/

@[simp] theorem intText_gives {n : Int} : Gives IsString (intText n) ↔ isLong n = false := by
  unfold intText
  split
  · next h => exact iff_of_false not_gives_error (by simp [h])
  · next h =>
    exact iff_of_true (gives_ok.mpr (Text.isString_ofInt n)) (Bool.eq_false_iff.mpr h)

theorem floatText_gives (x : Binary64) :
    Gives IsString (.ok (floatText x) : Except Fault Text) :=
  gives_ok.mpr (Binary64.isString_text spelled_floatStyle x)

theorem nameText_gives {k : Value} : Gives IsString (nameText (resultLayout limits) k) ↔ IsNameable k := by
  cases k with
  | null => exact iff_of_true (gives_ok.mpr (Text.isString_ofString _)) trivial
  | bool b =>
    refine iff_of_true (gives_ok.mpr ?_) trivial
    simp
  | float x => exact iff_of_true (floatText_gives x) trivial
  | int n => exact intText_gives
  | text t => exact gives_ok
  | _ => exact iff_of_false not_gives_error id

theorem shown_gives {v : Value} (h : ∀ t, v ≠ .text t) :
    Gives IsString ((shown limits v).map (quote false)) ↔ flaw? limits.showing v = none := by
  rw [gives_map, shown, shownAs]
  cases flaw? limits.showing v with
  | some f => exact iff_of_false not_gives_error nofun
  | none =>
    refine iff_of_true (gives_ok.mpr (isString_quote.mpr (Value.isString_display ?_))) rfl
    exact fun t ht => absurd ht (h t)

theorem flaw?_leaf {v : Value} (h : ∀ n, flaw? (n + 1) v = none) : flaw? limits.showing v = none := by
  obtain ⟨n, hn⟩ := Nat.exists_eq_succ_of_ne_zero (Nat.ne_of_gt limits.enough.2.1)
  rw [hn]
  exact h n

theorem within_gives {depth m : Nat} (hd : depth ≤ limits.printing) {p : Prop}
    {items : Except Fault (List Text)} {opening closing : Char}
    (h : depth < limits.printing → (Gives (fun ts => ∀ t ∈ ts, t.IsString) items ↔
      p ∧ depth + 1 + m ≤ limits.printing)) :
    Gives IsString ((within (resultLayout limits) depth items).map
      (bracket (resultLayout limits) depth opening closing)) ↔
      p ∧ depth + (m + 1) ≤ limits.printing := by
  rw [gives_map]
  rcases Nat.lt_or_ge depth limits.printing with hlt | hge
  · rw [within_of_lt hlt, show depth + (m + 1) = depth + 1 + m by omega, ← h hlt]
    exact gives_congr fun ts => isString_bracket
  · rw [within_of_le hge]
    exact iff_of_false not_gives_error fun hp => by omega

theorem leaf_gives {depth : Nat} (hd : depth ≤ limits.printing) {p q : Prop} (h : p ↔ q) :
    p ↔ q ∧ depth + 0 ≤ limits.printing := by
  rw [h, Nat.add_zero]
  exact (and_iff_left hd).symm

theorem fits_max {depth a b n : Nat} : depth + max a b ≤ n ↔ depth + a ≤ n ∧ depth + b ≤ n := by
  omega

mutual

theorem print_gives {depth : Nat} (hd : depth ≤ limits.printing) : (v : Value) →
    (Gives IsString (print (resultLayout limits) depth v) ↔
      IsPrintable limits v ∧ depth + v.levels ≤ limits.printing)
  | .null => leaf_gives hd (iff_of_true (gives_ok.mpr (Text.isString_ofString _)) trivial)
  | .bool b => leaf_gives hd (iff_of_true (gives_ok.mpr (by simp)) trivial)
  | .int _ => leaf_gives hd intText_gives
  | .float x => leaf_gives hd (iff_of_true (floatText_gives x) trivial)
  | .text _ => leaf_gives hd (gives_ok.trans isString_quote)
  | .list vs => within_gives hd fun hlt => printItems_gives hlt vs
  | .tuple vs => within_gives hd fun hlt => printItems_gives hlt vs
  | .mapping es => within_gives hd fun hlt => printMembers_gives hlt es
  | .cycle _ => by
    refine iff_of_false ?_ fun h => h.1
    rw [print, within]
    split <;> exact not_gives_error
  | .bytes b => leaf_gives hd (iff_of_true
      ((shown_gives (v := .bytes b) nofun).mpr (flaw?_leaf fun _ => rfl)) trivial)
  | .date d => leaf_gives hd (iff_of_true
      ((shown_gives (v := .date d) nofun).mpr (flaw?_leaf fun _ => rfl)) trivial)
  | .dateTime d => leaf_gives hd (iff_of_true
      ((shown_gives (v := .dateTime d) nofun).mpr (flaw?_leaf fun _ => rfl)) trivial)
  | .set vs => leaf_gives hd (shown_gives (v := .set vs) nofun)

theorem printItems_gives {depth : Nat} (hd : depth ≤ limits.printing) : (vs : List Value) →
    (Gives (fun ts => ∀ t ∈ ts, t.IsString) (printItems (resultLayout limits) depth vs) ↔
      ArePrintable limits vs ∧ depth + Value.itemLevels vs ≤ limits.printing)
  | [] => leaf_gives hd (iff_of_true (gives_ok.mpr nofun) trivial)
  | v :: vs => by
    rw [ArePrintable, Value.itemLevels, fits_max, and_and_and_comm, ← print_gives hd v,
      ← printItems_gives hd vs, printItems, gives_bind, ← gives_and]
    refine gives_congr fun t => ?_
    rw [gives_bind, and_comm, ← gives_and]
    refine gives_congr fun ts => gives_ok.trans ?_
    rw [List.forall_mem_cons, and_comm]

theorem printMembers_gives {depth : Nat} (hd : depth ≤ limits.printing) :
    (es : List (Value × Value)) →
    (Gives (fun ts => ∀ t ∈ ts, t.IsString) (printMembers (resultLayout limits) depth es) ↔
      EntriesPrintable limits es ∧ depth + Value.entryLevels es ≤ limits.printing)
  | [] => leaf_gives hd (iff_of_true (gives_ok.mpr nofun) trivial)
  | (k, v) :: es => by
    rw [EntriesPrintable, Value.entryLevels, fits_max, and_assoc, and_and_and_comm,
      ← @nameText_gives limits, ← print_gives hd v, ← printMembers_gives hd es,
      printMembers, gives_bind, ← gives_and]
    refine gives_congr fun name => ?_
    rw [gives_bind, and_comm, ← gives_and, ← gives_and]
    refine gives_congr fun t => ?_
    rw [gives_bind, and_comm (a := t.IsString), ← gives_and, ← gives_and]
    refine gives_congr fun ts => gives_ok.trans ?_
    have hmember : IsString (quote false name ++ (resultLayout limits).nameSeparator ++ t) ↔
        name.IsString ∧ t.IsString := by
      simp [isString_quote, resultLayout]
    rw [List.forall_mem_cons]
    exact (and_congr_left fun _ => hmember).trans
      ⟨fun ⟨⟨hname, ht⟩, hts⟩ => ⟨⟨hts, ht⟩, hname⟩, fun ⟨⟨hts, ht⟩, hname⟩ => ⟨⟨hname, ht⟩, hts⟩⟩

end

end ConfigLoader.Json
