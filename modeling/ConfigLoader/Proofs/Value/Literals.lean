import ConfigLoader.Proofs.Text.Strings
import ConfigLoader.Value.Literal

/-! # Literals are strings

A literal shows surrogates as escapes, so it is a string whatever the value is.
-/
namespace ConfigLoader
open Text (IsString)

/-- Pieces between two words, with a separator between them. -/
theorem Text.isString_enclosed (opening closing : String) {parts : List Text}
    (h : ∀ p ∈ parts, p.IsString) :
    IsString (Text.ofString opening ++ Text.join ", " parts ++ Text.ofString closing) := by
  simpa [Text.isString_join] using h

namespace Binary64
variable {style : Style}

structure Style.Spelled (style : Style) : Prop where
  wholeEnd : style.wholeEnd.IsString
  infinity : style.infinity.IsString
  nan : style.nan.IsString

theorem isString_positional (h : style.Spelled) {ds : Text} (hds : ds.IsString) (point : Int) :
    (positional style ds point).IsString := by
  have hzeros := fun n => Text.isString_replicate n (Text.isSurrogate_ofChar '0')
  have htake := hds.sublist (List.take_sublist point.toNat ds)
  have hdrop := hds.sublist (List.drop_sublist point.toNat ds)
  simp [positional, hzeros, hds, h.wholeEnd, htake, hdrop]

theorem isString_scientific {ds : Text} (hds : ds.IsString) (e : Int) :
    (scientific style ds e).IsString := by
  unfold scientific
  match ds, hds with
  | [], _ => simp
  | [d], hds =>
    obtain ⟨hd, -⟩ := Text.isString_cons.mp hds
    simp [hd]
  | d :: c :: r, hds =>
    obtain ⟨hd, hr⟩ := Text.isString_cons.mp hds
    obtain ⟨hc, hr⟩ := Text.isString_cons.mp hr
    simp [hd, hc, hr]

theorem isString_text (h : style.Spelled) (x : Binary64) : (x.text style).IsString := by
  simp [text, h.nan, h.infinity, h.wholeEnd, isString_positional h (Text.isString_ofNat _),
    isString_scientific (Text.isString_ofNat _)]

end Binary64

theorem Date.isString_iso (d : Date) : d.iso.IsString := by
  simp [Date.iso]

theorem Date.isString_parts (d : Date) : ∀ p ∈ d.parts, p.IsString := by
  simp [Date.parts]

namespace DateTime

theorem isString_offsetText (minutes : Int) : (offsetText minutes).IsString := by
  simp [offsetText]

theorem isString_isoWith {sep : Text} (h : sep.IsString) (d : DateTime) :
    (d.isoWith sep).IsString := by
  unfold isoWith
  cases d.offset <;> simp [d.date.isString_iso, h, isString_offsetText]

theorem isString_offsetLiteral (minutes : Int) : (offsetLiteral minutes).IsString := by
  simp [offsetLiteral]

theorem isString_literal (d : DateTime) : d.literal.IsString := by
  refine Text.isString_enclosed _ _ ?_
  simp only [List.forall_mem_append]
  refine ⟨⟨⟨d.date.isString_parts, by simp⟩, ?_⟩, ?_⟩
  · split
    · simp
    · split <;> simp
  · cases d.offset <;> simp [isString_offsetLiteral]

end DateTime

namespace Text

theorem isString_escaped {q c : CodePoint} (hq : q.isSurrogate = false) : (escaped q c).IsString := by
  by_cases hc : c = '\\' ∨ c = q
  · have hs : c.isSurrogate = false := by
      rcases hc with rfl | rfl
      · exact isSurrogate_ofChar '\\'
      · exact hq
    simp [escaped, hc, hs]
  · simp +contextual [escaped, hc, not_isSurrogate_of_isPrintable]

@[simp] theorem isSurrogate_quoteFor (t : Text) : t.quoteFor.isSurrogate = false := by
  unfold quoteFor
  split <;> exact isSurrogate_ofChar _

theorem isString_literal (t : Text) : t.literal.IsString := by
  have hbody := isString_flatMap (t := t) fun c _ => isString_escaped (isSurrogate_quoteFor t) (c := c)
  simp [literal, isSurrogate_quoteFor, hbody]

end Text

namespace Value

theorem isString_byteLiteral (b : List UInt8) : (byteLiteral b).IsString := by
  have hbody := fun t : Text => Text.isString_flatMap (t := t)
    (f := fun c => if c.val < 127 then Text.escaped t.quoteFor c else "\\x" ++ Text.hex 2 c.val)
    fun c _ => by simp [Text.isString_escaped (Text.isSurrogate_quoteFor t)]
  simp [byteLiteral, Text.isSurrogate_quoteFor, hbody]

theorem spelled_floatStyle : floatStyle.Spelled :=
  ⟨Text.isString_ofString _, Text.isString_ofString _, Text.isString_ofString _⟩

mutual

theorem isString_literal : (v : Value) → v.literal.IsString
  | .null => Text.isString_ofString _
  | .bool b => by simp [literal]
  | .int n => Text.isString_ofInt n
  | .float x => Binary64.isString_text spelled_floatStyle x
  | .text t => t.isString_literal
  | .bytes b => isString_byteLiteral b
  | .date d => Text.isString_enclosed _ _ d.isString_parts
  | .dateTime d => d.isString_literal
  | .list xs => Text.isString_enclosed _ _ (isString_literals xs)
  | .tuple xs => by
    have h := isString_literals xs
    rw [literal]
    split
    · next t ht =>
      have := h t (ht ▸ List.mem_singleton_self t)
      simp [this]
    · exact Text.isString_enclosed _ _ h
  | .set xs => by
    have h := isString_literals xs
    rw [literal]
    split
    · exact Text.isString_ofString _
    · exact Text.isString_enclosed _ _ h
  | .mapping es => Text.isString_enclosed _ _ (isString_entryLiterals es)
  | .cycle _ => by simp [literal]

theorem isString_literals : (xs : List Value) → ∀ t ∈ literals xs, t.IsString
  | [] => nofun
  | x :: xs => List.forall_mem_cons.mpr ⟨isString_literal x, isString_literals xs⟩

theorem isString_entryLiterals : (es : List (Value × Value)) → ∀ t ∈ entryLiterals es, t.IsString
  | [] => nofun
  | (k, v) :: es => List.forall_mem_cons.mpr
    ⟨by simp [isString_literal k, isString_literal v], isString_entryLiterals es⟩

end

/-- What shows a value in a message is a string, a text's own surrogates apart. -/
theorem isString_display {v : Value} (h : ∀ t, v = .text t → t.IsString) : v.display.IsString := by
  cases v with
  | text t => exact h t rfl
  | date d => exact d.isString_iso
  | dateTime d => exact d.isString_isoWith (Text.isString_ofString _)
  | _ => exact isString_literal _

end Value
end ConfigLoader
