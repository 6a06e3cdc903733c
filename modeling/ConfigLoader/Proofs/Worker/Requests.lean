import ConfigLoader.Proofs.Compiler.Frames
import ConfigLoader.Proofs.Json.Canonical
import ConfigLoader.Proofs.Json.Lines
import ConfigLoader.Proofs.Number.Decimals
import ConfigLoader.Worker

/-! # Requests as workers read them

The frame of a request is one line for a worker, and the strict reader takes it apart into the path
and the source that were sent, their surrogates joined.
-/
namespace ConfigLoader.Json.Strict

/-- What the strict reader makes of a text, whatever follows it. -/
def Reads (fuel : Nat) (t : Text) (v : Value) : Prop :=
  ∀ i r, Ends r → readValue fuel ⟨i, t ++ r⟩ = .ok (v, ⟨i + t.length, r⟩)

theorem reads_quote (fuel : Nat) (t : Text) :
    Reads (fuel + 1) (quote true t) (.text (Text.joinSurrogates t)) := by
  intro i r _
  have htext := readText_quote i t r
  obtain ⟨u, hu⟩ : ∃ u, quote true t = CodePoint.ofChar '"' :: u := ⟨_, rfl⟩
  rw [hu, List.cons_append] at htext ⊢
  simp only [readValue, if_true, htext, Except.map]

theorem isHead_of_ends {r : Text} {c : Char} (hr : Ends r)
    (hc : CodePoint.ofChar c = CodePoint.ofChar '.' ∨ CodePoint.ofChar c = CodePoint.ofChar 'e' ∨
      CodePoint.ofChar c = CodePoint.ofChar 'E') (i : Nat) : isHead c ⟨i, r⟩ = false := by
  rw [isHead, decide_eq_false_iff_not]
  intro h
  obtain ⟨-, h1, h2, h3⟩ := hr _ h
  rcases hc with hc | hc | hc
  · exact h1 hc
  · exact h2 hc
  · exact h3 hc

/-- The digits of a number are read as the number of 64 bits that is nearest to it. -/
theorem reads_ofNat (fuel : Nat) {n : Nat} (hn : 0 < n) :
    Reads (fuel + 1) (Text.ofNat n) (.float (Binary64.ofInt n)) := by
  have hd : ∀ c ∈ Text.ofNat n, c.isDigit = true := fun _ hc => Text.isDigit_of_mem_ofNat hc
  obtain ⟨c, w, hw, hc0⟩ := Text.head_ofNat hn
  have hc : c.isDigit = true := hd c (by rw [hw]; exact List.mem_cons_self ..)
  let m : Numeral := ⟨false, Text.ofNat n, [], none⟩
  have hm : m.Valid := by
    refine ⟨hd, Text.ofNat_ne_nil n, ?_, by simp [m], by rintro _ _ ⟨⟩⟩
    intro h
    rw [show m.whole = _ from hw] at h
    exact absurd (Option.some.inj h) hc0
  have hmtext : m.text = Text.ofNat n := List.append_nil _
  have hfloat : m.parts.float = Binary64.ofInt n := by
    have hdigits : Text.digitSum (Text.ofNat n ++ []) = n := by
      rw [List.append_nil, Text.digitSum_ofNat]
    change Binary64.ofDecimal false (Text.digitSum (Text.ofNat n ++ [])) 0 = _
    rw [hdigits, Binary64.ofDecimal_whole hn]
  rw [← hfloat]
  intro i r hr
  have hne : ∀ d : CodePoint, d.isDigit = false → c ≠ d := by
    rintro d hd rfl
    rw [hc] at hd
    cases hd
  have hrun : digitRun ⟨i, Text.ofNat n ++ r⟩ = (Text.ofNat n).length := by
    rw [digitRun]
    dsimp only
    rw [Text.takeWhile_digits hd fun c hc => (hr c hc).1]
  have hskip : (⟨i, Text.ofNat n ++ r⟩ : Place).skip (Text.ofNat n).length =
      ⟨i + (Text.ofNat n).length, r⟩ := Place.skip_append i _ r rfl
  have hzero : isHead '0' ⟨i, Text.ofNat n ++ r⟩ = false := by
    rw [isHead, hw, decide_eq_false_iff_not]
    exact fun h => hc0 (Option.some.inj h)
  have hminus : isHead '-' ⟨i, Text.ofNat n ++ r⟩ = false := by
    rw [isHead, hw, decide_eq_false_iff_not]
    exact fun h => hne _ (by decide) (Option.some.inj h)
  have hnumber : readNumber ⟨i, Text.ofNat n ++ r⟩ =
      .ok (.float m.parts.float, ⟨i + (Text.ofNat n).length, r⟩) := by
    obtain ⟨k, hk⟩ : ∃ k, (Text.ofNat n).length = k + 1 := ⟨w.length, by rw [hw]; rfl⟩
    have hparts := number?_text hm ends_nil
    rw [List.append_nil, hmtext] at hparts
    have htake : (Text.ofNat n ++ r).take (i + (Text.ofNat n).length - i) = Text.ofNat n := by
      rw [Nat.add_sub_cancel_left, List.take_left]
    rw [hk] at hrun hskip htake ⊢
    simp only [readNumber, hminus, Bool.false_eq_true, if_false, skipWhole, hrun, hzero, hskip,
      bind, Except.bind, skipFraction, skipExponent, isHead_of_ends hr (.inl rfl),
      isHead_of_ends hr (.inr (.inl rfl)), isHead_of_ends hr (.inr (.inr rfl)), Bool.or_self,
      htake, hparts, pure, Except.pure]
  rw [hw, List.cons_append] at hnumber ⊢
  simp only [readValue, hne _ (show (CodePoint.ofChar '"').isDigit = false by decide),
    hne _ (show (CodePoint.ofChar '[').isDigit = false by decide),
    hne _ (show (CodePoint.ofChar '\x7b').isDigit = false by decide),
    hne _ (show (CodePoint.ofChar 't').isDigit = false by decide),
    hne _ (show (CodePoint.ofChar 'f').isDigit = false by decide),
    hne _ (show (CodePoint.ofChar 'n').isDigit = false by decide), if_false, hc, Bool.or_true,
    if_true, hnumber]

theorem skipSpace_space {d : CodePoint} (hd : isSpace d = false) (j : Nat) (u : Text) :
    skipSpace ⟨j, CodePoint.ofChar ' ' :: d :: u⟩ = ⟨j + 1, d :: u⟩ := by
  have hspace : isSpace (CodePoint.ofChar ' ') = true := by decide
  rw [skipSpace, List.takeWhile_cons, hspace, List.takeWhile_cons, hd]
  rfl

theorem readMembers_member {fuel : Nat} {t : Text} {v : Value} (hv : Reads fuel t v)
    {d : CodePoint} {u : Text} (ht : t = d :: u) (hd : isSpace d = false) (missing : Problem)
    (es : Entries) (i : Nat) (name : Text) {c : CodePoint} {r : Text} (hr : Ends (c :: r))
    (hc : isSpace c = false) :
    ∃ j, readMembers (fuel + 1) missing es ⟨i, quote true name ++ (": " ++ (t ++ c :: r))⟩ =
      (let es := es.put (.text (Text.joinSurrogates name)) v
      if c = CodePoint.ofChar ',' then
        readMembers fuel .expectedName es (skipSpace ⟨j + 1, r⟩)
      else if c = CodePoint.ofChar '\x7d' then .ok (es, ⟨j + 1, r⟩)
      else stop ⟨j, c :: r⟩ .expectedCommaOrBrace) := by
  have htext := readText_quote i name (": " ++ (t ++ c :: r))
  have hcolon : (Text.ofString ": " : Text) ++ (t ++ c :: r) =
      CodePoint.ofChar ':' :: CodePoint.ofChar ' ' :: (t ++ c :: r) := rfl
  have hs1 : isSpace (CodePoint.ofChar ':') = false := by decide
  have hskip : ∀ j, skipSpace ⟨j, CodePoint.ofChar ' ' :: (t ++ c :: r)⟩ =
      ⟨j + 1, t ++ c :: r⟩ := by
    intro j
    rw [ht]
    exact skipSpace_space hd j _
  have hval := hv (i + (quote true name).length + 1 + 1) (c :: r) hr
  obtain ⟨w, hw⟩ : ∃ w, quote true name = CodePoint.ofChar '"' :: w := ⟨_, rfl⟩
  refine ⟨i + (quote true name).length + 1 + 1 + t.length, ?_⟩
  rw [hcolon] at htext ⊢
  have hhead : isHead '"' ⟨i, quote true name ++
      CodePoint.ofChar ':' :: CodePoint.ofChar ' ' :: (t ++ c :: r)⟩ = true := by
    rw [hw]
    rfl
  have hhead' : ∀ j t, isHead ':' ⟨j, CodePoint.ofChar ':' :: t⟩ = true := fun _ _ => rfl
  have hiff : ∀ (e : Char) j, isHead e ⟨j, c :: r⟩ = decide (c = CodePoint.ofChar e) := by
    intro e j
    simp only [isHead, List.head?_cons, Option.some.injEq]
  simp only [readMembers, hhead, if_true, htext, bind, Except.bind,
    skipSpace_cons hs1, hhead', Place.skip_cons, Place.skip_zero, hskip, hval,
    skipSpace_cons hc, hiff, decide_eq_true_eq]

theorem isSpace_quote : isSpace (CodePoint.ofChar '"') = false := by decide

theorem skipSpace_quote (j : Nat) (name r : Text) :
    skipSpace ⟨j, quote true name ++ r⟩ = ⟨j, quote true name ++ r⟩ :=
  skipSpace_cons isSpace_quote j _

theorem skipSpace_space_quote (j : Nat) (name r : Text) :
    skipSpace ⟨j, CodePoint.ofChar ' ' :: (quote true name ++ r)⟩ = ⟨j + 1, quote true name ++ r⟩ :=
  skipSpace_space isSpace_quote j _

/-- The members of a request are read one after the other, each behind a comma but the first. -/
theorem readMembers_request (k : Nat) {id : Nat} (hid : 0 < id) (path source : Text) : ∃ j,
    readMembers (k + 4) .expectedNameOrBrace [] ⟨1, quote true "id" ++ (": " ++ (Text.ofNat id ++
      CodePoint.ofChar ',' :: (CodePoint.ofChar ' ' :: (quote true "path" ++ (": " ++
        (quote true path ++ CodePoint.ofChar ',' :: (CodePoint.ofChar ' ' ::
          (quote true "source" ++ (": " ++ (quote true source ++
            CodePoint.ofChar '\x7d' :: []))))))))))⟩ =
      .ok ([("id", .float (Binary64.ofInt id)), ("path", .text (Text.joinSurrogates path)),
        ("source", .text (Text.joinSurrogates source))], ⟨j, []⟩) := by
  obtain ⟨d, w, hd, -⟩ := Text.head_ofNat hid
  have hdigit : d.isDigit = true :=
    Text.isDigit_of_mem_ofNat (n := id) (by rw [hd]; exact List.mem_cons_self ..)
  have hcomma : isSpace (CodePoint.ofChar ',') = false := by decide
  have hbrace : isSpace (CodePoint.ofChar '\x7d') = false := by decide
  obtain ⟨j1, h1⟩ := readMembers_member (reads_ofNat (k + 2) hid) hd (isSpace_of_isDigit hdigit)
    .expectedNameOrBrace [] 1 "id" (ends_comma (CodePoint.ofChar ' ' ::
      (quote true "path" ++ (": " ++ (quote true path ++ CodePoint.ofChar ',' ::
        (CodePoint.ofChar ' ' :: (quote true "source" ++ (": " ++ (quote true source ++
          CodePoint.ofChar '\x7d' :: []))))))))) hcomma
  obtain ⟨j2, h2⟩ := readMembers_member (reads_quote (k + 1) path) rfl isSpace_quote .expectedName
    (Entries.put [] "id" (.float (Binary64.ofInt id))) (j1 + 1 + 1) "path"
    (ends_comma (CodePoint.ofChar ' ' :: (quote true "source" ++ (": " ++
      (quote true source ++ CodePoint.ofChar '\x7d' :: []))))) hcomma
  obtain ⟨j3, h3⟩ := readMembers_member (reads_quote k source) rfl isSpace_quote .expectedName
    (Entries.put (Entries.put [] "id" (.float (Binary64.ofInt id))) "path"
      (.text (Text.joinSurrogates path)))
    (j2 + 1 + 1) "source" (ends_brace []) hbrace
  have hjoin : Text.joinSurrogates "id" = "id" ∧ Text.joinSurrogates "path" = "path" ∧
      Text.joinSurrogates "source" = "source" := by decide
  have hne : CodePoint.ofChar '\x7d' ≠ CodePoint.ofChar ',' := by decide
  simp only [hjoin.1, hjoin.2.1, hjoin.2.2, skipSpace_space_quote, if_true, if_false, hne] at h1 h2 h3
  rw [h2, h3] at h1
  exact ⟨j3 + 1, h1⟩

theorem parse_request {id : Nat} (hid : 0 < id) (path source : Text) :
    parse ("\x7b\"id\": " ++ (Text.ofNat id ++ (", \"path\": " ++ (quote true path ++
        (", \"source\": " ++ (quote true source ++ "\x7d")))))) =
      .ok (.mapping [("id", .float (Binary64.ofInt id)), ("path", .text (Text.joinSurrogates path)),
        ("source", .text (Text.joinSurrogates source))]) := by
  have hi : quote true "id" = "\"id\"" := by decide
  have hp : quote true "path" = "\"path\"" := by decide
  have hs : quote true "source" = "\"source\"" := by decide
  have hform : ("\x7b\"id\": " : Text) ++ (Text.ofNat id ++ (", \"path\": " ++ (quote true path ++
        (", \"source\": " ++ (quote true source ++ "\x7d"))))) =
      CodePoint.ofChar '\x7b' :: (quote true "id" ++ (": " ++ (Text.ofNat id ++
        CodePoint.ofChar ',' :: (CodePoint.ofChar ' ' :: (quote true "path" ++ (": " ++
          (quote true path ++ CodePoint.ofChar ',' :: (CodePoint.ofChar ' ' ::
            (quote true "source" ++ (": " ++ (quote true source ++
              CodePoint.ofChar '\x7d' :: []))))))))))) := by
    rw [hi, hp, hs]
    rfl
  rw [hform]
  generalize hT : CodePoint.ofChar '\x7b' :: _ = T
  obtain ⟨k, hk⟩ : ∃ k, 2 * T.length + 2 = k + 5 := by
    refine ⟨2 * T.length - 3, ?_⟩
    have hl : 3 ≤ T.length := by
      rw [← hT, hi]
      exact Nat.le_add_left 3 _
    omega
  have hhead : ∀ r : Text, isHead '\x7d' ⟨1, quote true "id" ++ r⟩ = false := by
    intro r
    rw [hi]
    rfl
  have hopen : isSpace (CodePoint.ofChar '\x7b') = false := by decide
  have hq : CodePoint.ofChar '\x7b' ≠ CodePoint.ofChar '"' := by decide
  have hb : CodePoint.ofChar '\x7b' ≠ CodePoint.ofChar '[' := by decide
  obtain ⟨j, hmembers⟩ := readMembers_request k hid path source
  rw [parse, hk, ← hT, skipSpace_cons hopen]
  simp only [readValue, hq, hb, if_true, if_false, Place.skip_cons, Place.skip_zero, Nat.zero_add,
    skipSpace_quote, hhead, Bool.false_eq_true, hmembers, Except.map, bind, Except.bind]
  rfl

end ConfigLoader.Json.Strict
