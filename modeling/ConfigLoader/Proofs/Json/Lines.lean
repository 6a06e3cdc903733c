import ConfigLoader.Proofs.Json.Faults
import ConfigLoader.Proofs.Json.Texts
import ConfigLoader.Text.Blank

/-! # Documents on one line

A frame holds no end of a line but its own, so a reader of lines gets it whole.
-/
namespace ConfigLoader.Json

def OneLine (t : Text) : Prop := ∀ c ∈ t, c.val ≠ 10 ∧ c.val ≠ 13

namespace OneLine

theorem nil : OneLine [] := by
  intro c hc
  cases hc

theorem append {s t : Text} (hs : OneLine s) (ht : OneLine t) : OneLine (s ++ t) := by
  intro c hc
  rcases List.mem_append.mp hc with hc | hc
  · exact hs c hc
  · exact ht c hc

theorem cons {c : CodePoint} {t : Text} (hc : c.val ≠ 10 ∧ c.val ≠ 13) (ht : OneLine t) :
    OneLine (c :: t) := by
  intro d hd
  rcases List.mem_cons.mp hd with rfl | hd
  · exact hc
  · exact ht d hd

theorem flatten {ts : List Text} (h : ∀ t ∈ ts, OneLine t) : OneLine ts.flatten := by
  intro c hc
  obtain ⟨t, ht, hct⟩ := List.mem_flatten.mp hc
  exact h t ht c hct

theorem join {sep : Text} {ts : List Text} (hs : OneLine sep) (h : ∀ t ∈ ts, OneLine t) :
    OneLine (Text.join sep ts) := by
  induction ts with
  | nil => exact nil
  | cons t ts ih =>
    have ht := h t (List.mem_cons_self ..)
    have hrest := ih fun u hu => h u (List.mem_cons_of_mem _ hu)
    cases ts with
    | nil => exact flatten fun u hu => by rwa [List.mem_singleton.mp hu]
    | cons u ts => exact ht.append (hs.append hrest)

theorem of_all {t : Text} (h : t.all (fun c => c.val != 10 && c.val != 13) = true) :
    OneLine t := by
  intro c hc
  have hx := List.all_eq_true.mp h c hc
  simpa only [Bool.and_eq_true, bne_iff_ne] using hx

theorem of_digits {t : Text} (h : ∀ c ∈ t, c.isDigit = true) : OneLine t := by
  intro c hc
  have hd := h c hc
  simp only [CodePoint.isDigit, Bool.and_eq_true, decide_eq_true_eq] at hd
  omega

theorem replicate_zero (k : Nat) : OneLine (List.replicate k (CodePoint.ofChar '0')) := by
  intro c hc
  rw [List.eq_of_mem_replicate hc]
  decide

theorem of_mem {s t : Text} (hs : OneLine s) (h : ∀ c ∈ t, c ∈ s) : OneLine t :=
  fun c hc => hs c (h c hc)

theorem ofNat (n : Nat) : OneLine (Text.ofNat n) :=
  of_digits fun _ hc => Text.isDigit_of_mem_ofNat hc

theorem padded (width n : Nat) : OneLine (Text.padded width n) :=
  (replicate_zero _).append (ofNat n)

end OneLine

theorem splitLines_oneLine {t : Text} (ht : OneLine t) (line : Text) :
    Text.splitLines line (t ++ [10]) = ([line.reverse ++ t], []) := by
  induction t generalizing line with
  | nil =>
    rw [List.nil_append, Text.splitLines, List.append_nil]
    rfl
  | cons c t ih =>
    obtain ⟨h10, h13⟩ := ht c (List.mem_cons_self ..)
    have hi := ih (fun d hd => ht d (List.mem_cons_of_mem _ hd)) (c :: line)
    obtain ⟨d, r, hr⟩ : ∃ d r, t ++ [10] = d :: r := by
      cases t with
      | nil => exact ⟨_, _, rfl⟩
      | cons d r => exact ⟨_, _, rfl⟩
    rw [hr] at hi
    rw [List.cons_append, hr, Text.splitLines]
    simp only [h10, h13, decide_false, Bool.false_and, Bool.or_self, Bool.false_eq_true, if_false,
      hi, List.reverse_cons, List.append_assoc, List.singleton_append]

/-! ## Printed documents -/

theorem val_digitChar : ∀ d : Fin 16, (CodePoint.ofChar (Nat.digitChar d.val)).val ≠ 10 ∧
    (CodePoint.ofChar (Nat.digitChar d.val)).val ≠ 13 := by decide

theorem digitChar_oneLine (d : Fin 16) : OneLine [CodePoint.ofChar (Nat.digitChar d.val)] :=
  .cons (val_digitChar d) .nil

theorem hex_oneLine (n : Nat) : OneLine (Text.hex 4 n) := by
  refine (OneLine.replicate_zero _).append ?_
  induction n using Nat.strongRecOn with
  | ind n ih =>
    by_cases hn : n < 16
    · rw [Nat.toDigits_of_lt_base hn]
      exact digitChar_oneLine ⟨n, hn⟩
    · rw [Nat.toDigits_of_base_le (by omega) (by omega), List.map_append]
      exact (ih (n / 16) (by omega)).append
        (digitChar_oneLine ⟨n % 16, Nat.mod_lt n (by omega)⟩)

theorem Written.oneLine {c : CodePoint} {w : Text} (h : Written c w) : OneLine w := by
  cases h with
  | plain hq hb hc =>
    intro d hd
    rw [List.mem_singleton.mp hd]
    omega
  | @short e he =>
    have hlf : simpleEscape? 10 = none := by decide
    have hcr : simpleEscape? 13 = none := by decide
    refine .cons (by decide) (.cons ⟨?_, ?_⟩ .nil)
    · intro h10
      rw [show e = 10 from Fin.ext h10, hlf] at he
      cases he
    · intro h13
      rw [show e = 13 from Fin.ext h13, hcr] at he
      cases he
  | unicode hc =>
    rw [unicodeEscape_eq]
    exact .cons (by decide) (.cons (by decide) (hex_oneLine c.val))

theorem quote_oneLine (t : Text) : OneLine (quote true t) := by
  have h : ∀ c ∈ t.flatMap (escapeOne true), c.val ≠ 10 ∧ c.val ≠ 13 := by
    rw [flatMap_escapeOne_apart]
    intro c hc
    obtain ⟨d, hd, hcd⟩ := List.mem_flatMap.mp hc
    exact (escapeOne_written (.inl (val_lt_of_mem_apart hd))).oneLine c hcd
  exact (OneLine.append (OneLine.of_all (by decide)) h).append (.of_all (by decide))

theorem intText_oneLine {n : Int} {t : Text} (h : intText n = .ok t) : OneLine t := by
  unfold intText at h
  split at h
  · cases h
  · cases h
    cases n with
    | ofNat n => exact .ofNat n
    | negSucc n => exact .cons (by decide) (.ofNat (n + 1))

theorem positional_oneLine {style : Binary64.Style} (he : OneLine style.wholeEnd) {ds : Text}
    (hds : OneLine ds) (point : Int) : OneLine (Binary64.positional style ds point) := by
  unfold Binary64.positional
  dsimp only
  split
  · exact ((OneLine.of_all (by decide)).append (.replicate_zero _)).append hds
  split
  · exact (hds.append (.replicate_zero _)).append he
  · exact ((hds.of_mem fun c hc => List.mem_of_mem_take hc).append
      (.of_all (by decide))).append (hds.of_mem fun c hc => List.mem_of_mem_drop hc)

theorem scientific_oneLine (style : Binary64.Style) {ds : Text} (hds : OneLine ds) (e : Int) :
    OneLine (Binary64.scientific style ds e) := by
  unfold Binary64.scientific
  dsimp only
  refine OneLine.append (.append (.append ?_ (.of_all (by decide))) ?_) (.padded _ _)
  · rcases ds with _ | ⟨d, _ | ⟨c, r⟩⟩
    · exact .of_all (by decide)
    · exact hds
    · exact .cons (hds d (List.mem_cons_self ..)) (.cons (by decide)
        (hds.of_mem fun c hc => List.mem_cons_of_mem _ hc))
  · split <;> exact .of_all (by decide)

/-- A style whose words stand on one line gives texts on one line. -/
theorem text_oneLine {style : Binary64.Style} (he : OneLine style.wholeEnd)
    (hi : OneLine style.infinity) (hn : OneLine style.nan) (x : Binary64) :
    OneLine (x.text style) := by
  have hsign : ∀ b : Bool, OneLine (if b = true then Text.ofString "-" else Text.ofString "") := by
    intro b
    cases b
    · exact .nil
    · exact .of_all (by decide)
  unfold Binary64.text
  by_cases hx : x.isNaN = true
  · rw [if_pos hx]
    exact hn
  rw [if_neg hx]
  dsimp only
  split
  · exact (hsign _).append hi
  split
  · exact ((hsign _).append (.of_all (by decide))).append he
  have hds := OneLine.ofNat (x.shortest.strip 400).digits
  split
  · exact (hsign _).append (positional_oneLine he hds _)
  · exact (hsign _).append (scientific_oneLine style hds _)

theorem floatText_oneLine (x : Binary64) : OneLine (floatText x) :=
  text_oneLine (.of_all (by decide)) (.of_all (by decide)) (.of_all (by decide)) x

theorem within_map_ok {α β : Type} {l : Layout} {depth : Nat} {items : Except Fault α} {g : α → β}
    {b : β} (h : (within l depth items).map g = .ok b) : ∃ a, items = .ok a ∧ g a = b := by
  unfold within at h
  split at h
  · exact map_ok h
  · cases h

variable {limits : Limits}

theorem bracket_oneLine {depth : Nat} {opening closing : CodePoint} {items : List Text}
    (ho : opening.val ≠ 10 ∧ opening.val ≠ 13) (hc : closing.val ≠ 10 ∧ closing.val ≠ 13)
    (h : ∀ t ∈ items, OneLine t) : OneLine (bracket (frameLayout limits) depth opening closing items) := by
  cases items with
  | nil => exact .cons ho (.cons hc .nil)
  | cons t ts =>
    have hj : OneLine (Text.join ((frameLayout limits).itemSeparator ++
        newline (frameLayout limits) (depth + 1)) (t :: ts)) :=
      .join (.append (show OneLine (Text.ofString ", ") from .of_all (by decide)) .nil) h
    exact (((OneLine.cons ho .nil).append hj).append .nil).append (.cons hc .nil)

mutual

theorem print_oneLine (depth : Nat) :
    (v : Value) → {t : Text} → print (frameLayout limits) depth v = .ok t → OneLine t
  | .null, _, h => by cases h; exact .of_all (by decide)
  | .bool b, _, h => by cases h; cases b <;> exact .of_all (by decide)
  | .int _, _, h => intText_oneLine h
  | .float x, _, h => by cases h; exact floatText_oneLine x
  | .text t, _, h => by cases h; exact quote_oneLine t
  | .list vs, t, h => by
    obtain ⟨ts, hts, rfl⟩ := within_map_ok h
    exact bracket_oneLine (by decide) (by decide) (printItems_oneLine (depth + 1) vs hts)
  | .tuple vs, t, h => by
    obtain ⟨ts, hts, rfl⟩ := within_map_ok h
    exact bracket_oneLine (by decide) (by decide) (printItems_oneLine (depth + 1) vs hts)
  | .mapping es, t, h => by
    obtain ⟨ts, hts, rfl⟩ := within_map_ok h
    exact bracket_oneLine (by decide) (by decide) (printMembers_oneLine (depth + 1) es hts)
  | .cycle _, _, h => by
    rw [print, within] at h
    split at h <;> cases h
  | .bytes _, _, h | .date _, _, h | .dateTime _, _, h | .set _, _, h => by cases h

theorem printItems_oneLine (depth : Nat) :
    (vs : List Value) → {ts : List Text} → printItems (frameLayout limits) depth vs = .ok ts →
      ∀ t ∈ ts, OneLine t
  | [], _, h => by cases h; simp
  | v :: vs, ts, h => by
    rw [printItems] at h
    cases hv : print (frameLayout limits) depth v with
    | error f => rw [hv] at h; cases h
    | ok t =>
      cases hvs : printItems (frameLayout limits) depth vs with
      | error f => rw [hv, hvs] at h; cases h
      | ok us =>
        rw [hv, hvs] at h
        cases h
        intro u hu
        rcases List.mem_cons.mp hu with rfl | hu
        · exact print_oneLine depth v hv
        · exact printItems_oneLine depth vs hvs u hu

theorem printMembers_oneLine (depth : Nat) :
    (es : List (Value × Value)) → {ts : List Text} → printMembers (frameLayout limits) depth es = .ok ts →
      ∀ t ∈ ts, OneLine t
  | [], _, h => by cases h; simp
  | (k, v) :: es, ts, h => by
    rw [printMembers] at h
    cases hk : nameText (frameLayout limits) k with
    | error f => rw [hk] at h; cases h
    | ok name =>
      cases hv : print (frameLayout limits) depth v with
      | error f => rw [hk, hv] at h; cases h
      | ok t =>
        cases hes : printMembers (frameLayout limits) depth es with
        | error f => rw [hk, hv, hes] at h; cases h
        | ok us =>
          rw [hk, hv, hes] at h
          cases h
          intro u hu
          rcases List.mem_cons.mp hu with rfl | hu
          · have hcolon : OneLine (Text.ofString ": ") := .of_all (by decide)
            exact ((quote_oneLine name).append hcolon).append (print_oneLine depth v hv)
          · exact printMembers_oneLine depth es hes u hu

end

end ConfigLoader.Json
