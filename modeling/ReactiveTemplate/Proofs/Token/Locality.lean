import ReactiveTemplate.Proofs.Text.Character
import ReactiveTemplate.Token.Lexer

/-!
# Tokens are read locally

Which token stands at the head of a text depends on the token's own text and on the one character
behind it. `Lexeme.EndsAt` says of that character that it does not make the token any longer.
-/

namespace ReactiveTemplate

/-! ## Runs of characters -/

theorem takeWhile_append_of_stop {p : Char → Bool} {text rest : List Char}
    (htext : ∀ c ∈ text, p c) (hrest : ∀ c ∈ rest.head?, ¬p c) :
    (text ++ rest).takeWhile p = text := by
  rw [List.takeWhile_append_of_pos htext]
  cases rest with
  | nil => simp
  | cons c rest => simp [hrest c rfl]

theorem dropWhile_append_of_stop {p : Char → Bool} {text rest : List Char}
    (htext : ∀ c ∈ text, p c) (hrest : ∀ c ∈ rest.head?, ¬p c) :
    (text ++ rest).dropWhile p = rest := by
  rw [List.dropWhile_append_of_pos htext]
  cases rest with
  | nil => rfl
  | cons c rest => simp [hrest c rfl]

theorem of_mem_takeWhile {p : Char → Bool} {cs : List Char} {c : Char}
    (h : c ∈ cs.takeWhile p) : p c :=
  List.all_eq_true.mp List.all_takeWhile c h

theorem not_of_head_dropWhile {p : Char → Bool} {cs : List Char} {c : Char}
    (h : c ∈ (cs.dropWhile p).head?) : ¬p c := by
  have hhead := List.head?_dropWhile_not p cs
  rw [Option.mem_def.mp h] at hhead
  simpa using hhead

theorem Part.run_append {p : Char → Bool} (cs : List Char) {rest' : List Char}
    (hrest : ∀ c ∈ rest'.head?, ¬p c) :
    Part.run p ((Part.run p cs).text ++ rest') =
      ⟨(Part.run p cs).value, (Part.run p cs).text, rest'⟩ := by
  have hall : ∀ c ∈ cs.takeWhile p, p c := fun c hc => of_mem_takeWhile hc
  simp only [Part.run, takeWhile_append_of_stop hall hrest, dropWhile_append_of_stop hall hrest]

/-! ## Escapes -/

namespace Escape

/-- A number of hexadecimal digits that has been read is read again, whatever comes behind. Their
count says where they end. -/
theorem readHex_append {count code : Nat} {cs text rest : List Char}
    (h : readHex count cs = ⟨some code, text, rest⟩) (rest' : List Char) :
    text.length = count ∧ readHex count (text ++ rest') = ⟨some code, text, rest'⟩ := by
  simp only [readHex, Part.mk.injEq, Option.ite_none_right_eq_some] at h
  obtain ⟨⟨hlength, hcode⟩, htext, -⟩ := h
  rw [htext] at hlength hcode
  have hall : text.takeWhile isHexDigit = text := by
    have hhex : ∀ c ∈ text, isHexDigit c := fun c hc => of_mem_takeWhile (htext ▸ hc)
    have htake := @takeWhile_append_of_stop isHexDigit text [] hhex (by simp)
    rwa [List.append_nil] at htake
  refine ⟨hlength, ?_⟩
  simp only [readHex]
  rw [← hlength, List.take_left, hall]
  simp [Option.some.inj hcode]

/-- A code point is read the same way in front of any text: it ends behind its fourth digit, or at
its closing brace. -/
theorem readCodePoint_append {code : Nat} {cs text rest : List Char}
    (h : readCodePoint cs = ⟨some code, text, rest⟩) (rest' : List Char) :
    readCodePoint (text ++ rest') = ⟨some code, text, rest'⟩ := by
  have hsplit := readCodePoint_splits cs
  rw [h] at hsplit
  unfold readCodePoint at h
  split at h
  · next cs =>
      split at h
      · next tail hdrop =>
          dsimp only at h
          split at h
          · cases h
          · next hcount =>
              cases h
              have hall : ∀ c ∈ cs.takeWhile isHexDigit, isHexDigit c := fun c hc =>
                of_mem_takeWhile hc
              have hstop : ∀ c ∈ ('}' :: rest').head?, ¬isHexDigit c := by
                rintro c ⟨⟩
                decide
              rw [List.append_assoc, List.cons_append, readCodePoint]
              simp only [List.singleton_append, takeWhile_append_of_stop hall hstop,
                dropWhile_append_of_stop hall hstop]
              rw [if_neg hcount]
      · cases h
  · next hbrace =>
      obtain ⟨hlength, hread⟩ := readHex_append h rest'
      obtain ⟨c, text, rfl⟩ := List.exists_cons_of_length_eq_add_one hlength
      rw [List.cons_append] at hread ⊢
      rw [readCodePoint]
      · exact hread
      · rintro tail heq
        cases heq
        exact hbrace _ hsplit.symm

theorem readLowSurrogate?_append {cs : List Char} {low : Part Nat}
    (h : readLowSurrogate? cs = some low) (rest' : List Char) :
    readLowSurrogate? (low.text ++ rest') = some ⟨low.value, low.text, rest'⟩ := by
  unfold readLowSurrogate? at h
  split at h
  · split at h
    · next code text rest hread =>
        split at h
        · next hlow =>
            cases h
            simp only [List.cons_append, readLowSurrogate?, readCodePoint_append hread rest']
            rw [if_pos hlow]
        · contradiction
    · contradiction
  · contradiction

theorem ofCodePoint_append {code : Option Nat} {text rest value text' rest' : List Char}
    (h : ofCodePoint code text rest = means value text' rest') (rest'' : List Char) :
    ofCodePoint code text rest'' = means value text' rest'' := by
  unfold ofCodePoint at h ⊢
  split at h
  · split at h
    · next hvalid =>
        cases h
        rw [if_pos hvalid]
    · contradiction
  · contradiction

/-- An escape for a code point or a pair means the same in front of any text, provided that it means
something. -/
theorem readUnicode_append {cs value text rest : List Char}
    (h : readUnicode cs = means value text rest) (rest' : List Char) :
    ∃ tail, text = 'u' :: tail ∧ readUnicode (tail ++ rest') = means value text rest' := by
  unfold readUnicode at h
  split at h
  · next high text₁ rest₁ hread =>
      split at h
      · next hhigh =>
          split at h
          · next low hlow =>
              obtain ⟨rfl, rfl⟩ := eq_of_ofCodePoint h
              refine ⟨text₁ ++ low.text, rfl, ?_⟩
              rw [readUnicode, List.append_assoc, readCodePoint_append hread]
              simp only [readLowSurrogate?_append hlow rest', if_pos hhigh]
              exact ofCodePoint_append h rest'
          · contradiction
      · next hhigh =>
          obtain ⟨rfl, rfl⟩ := eq_of_ofCodePoint h
          refine ⟨text₁, rfl, ?_⟩
          rw [readUnicode, readCodePoint_append hread]
          simp only [if_neg hhigh]
          exact ofCodePoint_append h rest'
  · contradiction

/-- An escape may depend on the one character behind it. -/
theorem read_append {cs value text rest : List Char} (h : read cs = means value text rest)
    {rest' : List Char} (hrest : rest'.head? = rest.head?) :
    read (text ++ rest') = means value text rest' := by
  unfold read at h
  split at h
  case h_8 cs =>
    dsimp only at h
    obtain ⟨rfl, rfl⟩ := eq_of_ofCodePoint h
    have hcode : ∃ code, (readHex 2 cs).value = some code := by
      cases hvalue : (readHex 2 cs).value with
      | some code => exact ⟨code, rfl⟩
      | none => simp [hvalue, ofCodePoint] at h
    obtain ⟨code, hcode⟩ := hcode
    have hread : readHex 2 cs = ⟨some code, (readHex 2 cs).text, (readHex 2 cs).rest⟩ := by
      rw [← hcode]
    have hread' := (readHex_append hread rest').2
    rw [List.cons_append, read, hread']
    rw [hcode] at h
    exact ofCodePoint_append h rest'
  case h_9 cs =>
    obtain ⟨tail, rfl, hread⟩ := readUnicode_append h rest'
    exact hread
  case h_11 c cs hn ht hr hb hf hv hx hu hcrlf =>
    have htext : text = [c] ∧ rest = cs := by
      split at h
      · next hzero =>
          simp only [Bool.and_eq_true, decide_eq_true_eq] at hzero
          cases h
          exact ⟨by rw [hzero.1], rfl⟩
      · split at h
        · contradiction
        · split at h <;> cases h <;> exact ⟨rfl, rfl⟩
    obtain ⟨rfl, rfl⟩ := htext
    rw [List.singleton_append, read]
    · rw [hrest]
      split at h
      · next hzero =>
          cases h
          rw [if_pos hzero]
      · next hzero =>
          rw [if_neg hzero]
          split at h
          · contradiction
          · next hoctal =>
              rw [if_neg hoctal]
              split at h <;> cases h <;> simp_all
    any_goals assumption
    rintro tail hcr rfl
    cases rest with
    | nil => simp at hrest
    | cons d rest =>
        simp only [List.head?_cons, Option.some.injEq] at hrest
        exact hcrlf rest hcr (by rw [hrest])
  all_goals first | contradiction | (cases h; rfl)

end Escape

/-! ## Strings -/

section

variable {quote : Char} {taken value cs text rest : List Char}

theorem readStringFrom_of_plain {c : Char} (hquote : c ≠ quote) (hescape : c ≠ '\\') :
    readStringFrom quote taken value (c :: cs) =
      readStringFrom quote (c :: taken) (c :: value) cs := by
  rw [readStringFrom, if_neg hquote, if_neg hescape]

theorem readStringFrom_of_means {meaning : List Char} (hquote : '\\' ≠ quote)
    (h : Escape.read cs = .means meaning text rest) :
    readStringFrom quote taken value ('\\' :: cs) =
      readStringFrom quote (text.reverse ++ '\\' :: taken) (meaning.reverse ++ value) rest := by
  rw [readStringFrom, if_neg hquote, if_pos rfl]
  split <;> simp_all

theorem readStringFrom_of_malformed (hquote : '\\' ≠ quote)
    (h : Escape.read cs = .malformed text rest) :
    readStringFrom quote taken value ('\\' :: cs) =
      .error ⟨.invalidEscape (String.ofList ('\\' :: text)), taken.reverse, '\\' :: text,
        rest⟩ := by
  rw [readStringFrom, if_neg hquote, if_pos rfl]
  split <;> simp_all

theorem readStringFrom_of_unfinished (hquote : '\\' ≠ quote)
    (h : Escape.read cs = .unfinished) :
    readStringFrom quote taken value ('\\' :: cs) =
      .error ⟨.unfinishedEscape, [], ('\\' :: taken).reverse, []⟩ := by
  rw [readStringFrom, if_neg hquote, if_pos rfl]
  split <;> simp_all

end

/-- A string ends at its closing quote, whatever comes behind that. -/
theorem readStringFrom_append {quote : Char} {taken value cs rest : List Char} {lexeme : Lexeme}
    (h : readStringFrom quote taken value cs = .ok (lexeme, rest)) :
    ∃ text, text ≠ [] ∧ cs = text ++ rest ∧ lexeme.text = taken.reverse ++ text ∧
      ∀ rest', readStringFrom quote taken value (text ++ rest') = .ok (lexeme, rest') := by
  fun_induction readStringFrom quote taken value cs with
  | case1 => contradiction
  | case2 taken value cs =>
      cases h
      refine ⟨[quote], by simp, rfl, by simp, fun rest' => ?_⟩
      rw [List.singleton_append, readStringFrom, if_pos rfl]
  | case3 taken value cs meaning escape rest₁ hread hquote ih =>
      obtain ⟨text, htext, rfl, hlexeme, hrest⟩ := ih h
      have happend := Escape.append_read hread
      refine ⟨'\\' :: (escape ++ text), by simp, by simp [← happend], by simp [hlexeme], ?_⟩
      intro rest'
      have hhead : (text ++ rest').head? = (text ++ rest).head? := by
        obtain ⟨c, text, rfl⟩ := List.exists_cons_of_ne_nil htext
        rfl
      have hescape := Escape.read_append hread hhead
      rw [List.cons_append, List.append_assoc, readStringFrom_of_means hquote hescape]
      exact hrest rest'
  | case4 => contradiction
  | case5 => contradiction
  | case6 taken value c cs hquote hescape ih =>
      obtain ⟨text, htext, rfl, hlexeme, hrest⟩ := ih h
      refine ⟨c :: text, by simp, rfl, by simp [hlexeme], fun rest' => ?_⟩
      rw [List.cons_append, readStringFrom_of_plain hquote hescape]
      exact hrest rest'

theorem kind_of_readStringFrom {quote : Char} {taken value cs rest : List Char} {lexeme : Lexeme}
    (h : readStringFrom quote taken value cs = .ok (lexeme, rest)) :
    ∃ value, lexeme.kind = .string value := by
  fun_induction readStringFrom quote taken value cs with
  | case1 => contradiction
  | case2 =>
      cases h
      exact ⟨_, rfl⟩
  | case3 _ _ _ _ _ _ _ _ ih => exact ih h
  | case4 => contradiction
  | case5 => contradiction
  | case6 _ _ _ _ _ _ ih => exact ih h

/-! ## Numbers -/

/-- A number ends in front of a character that is none of names, and it must denote a value to be
read at all. -/
theorem endNumber_eq_ok {text rest : List Char} {value : Option Binary64}
    {r : Lexeme × List Char} :
    endNumber text value rest = .ok r ↔
      ∃ x, value = some x ∧ (∀ c ∈ rest.head?, ¬isNameChar c) ∧ r = (⟨.number x, text⟩, rest) := by
  cases value with
  | none => simp [endNumber]
  | some x => cases rest <;> grind [endNumber]

theorem readSign_append {cs rest' : List Char} (hrest : rest'.head?.any Char.isDigit) :
    readSign ((readSign cs).text ++ rest') = ⟨(readSign cs).value, (readSign cs).text, rest'⟩ := by
  have hnone : readSign rest' = ⟨1, [], rest'⟩ := by
    unfold readSign
    split
    · simp at hrest
    · simp at hrest
    · rfl
  rw [readSign.eq_def cs]
  split
  · rfl
  · rfl
  · exact hnone

theorem head_of_readExponent {cs : List Char} {c : Char}
    (h : c ∈ (readExponent cs).text.head?) : c = 'e' ∨ c = 'E' := by
  unfold readExponent at h
  split at h
  · simp at h
  · next e cs =>
      dsimp only at h
      split at h
      · next hletter =>
          simp only [Bool.and_eq_true, Bool.or_eq_true, decide_eq_true_eq] at hletter
          cases h
          exact hletter.1
      · simp at h

/-- An exponent is read again in front of what is neither a digit nor a name. Without one, nothing
is taken for one. -/
theorem readExponent_append {cs rest' : List Char} (hrest : ∀ c ∈ rest'.head?, ¬isNameChar c) :
    readExponent ((readExponent cs).text ++ rest') =
      ⟨(readExponent cs).value, (readExponent cs).text, rest'⟩ := by
  have hnone : readExponent rest' = ⟨0, [], rest'⟩ := by
    cases rest' with
    | nil => rfl
    | cons c rest' =>
        have hletter : ¬(c = 'e' ∨ c = 'E') := by
          rintro (rfl | rfl)
          · exact hrest 'e' rfl (by decide)
          · exact hrest 'E' rfl (by decide)
        simp only [not_or] at hletter
        simp [readExponent, hletter]
  rw [readExponent.eq_def cs]
  split
  · exact hnone
  · next e cs =>
      dsimp only
      split
      · next hletter =>
          simp only [Bool.and_eq_true] at hletter
          obtain ⟨hletter, hdigit⟩ := hletter
          have hstop : ∀ c ∈ rest'.head?, ¬c.isDigit :=
            fun c hc hdigit => hrest c hc (isNameChar_of_isDigit hdigit)
          have hrun := Part.run_append (readSign cs).rest hstop
          have hhead : ((Part.run Char.isDigit (readSign cs).rest).text ++ rest').head?.any
              Char.isDigit := by
            cases hsign : (readSign cs).rest with
            | nil => simp [hsign] at hdigit
            | cons d ds =>
                have hd : d.isDigit := by simpa [hsign] using hdigit
                simp [Part.run, hd]
          simp only [List.cons_append, List.append_assoc]
          rw [readExponent]
          simp only [readSign_append hhead, hrun, hhead, hletter, Bool.and_self, if_true]
          rfl
      · exact hnone

/-- A fraction is read again in front of what is no digit. If there is none, the next character must
not be a point. -/
theorem readFraction_append {cs rest' : List Char} (hdigit : ∀ c ∈ rest'.head?, ¬c.isDigit)
    (hpoint : (readFraction cs).text = [] → ∀ c ∈ rest'.head?, c ≠ '.') :
    readFraction ((readFraction cs).text ++ rest') =
      ⟨(readFraction cs).value, (readFraction cs).text, rest'⟩ := by
  revert hpoint
  rw [readFraction.eq_def cs]
  split <;> intro hpoint
  · next cs =>
      have hrun := Part.run_append cs hdigit
      simp only [List.cons_append, readFraction, hrun]
  · cases rest' with
    | nil => rfl
    | cons c rest' =>
        have hc : c ≠ '.' := hpoint rfl c rfl
        simp [readFraction, hc]

theorem head_of_readFraction {cs : List Char} {c : Char}
    (h : c ∈ (readFraction cs).text.head?) : c = '.' := by
  unfold readFraction at h
  split at h
  · cases h
    rfl
  · simp at h

/-- The text of a decimal falls into its parts again, unless what follows makes it any longer. -/
theorem decimal_append {cs rest' : List Char} {whole fraction : Part (List Char)}
    {exponent : Part Int} (hwhole : Part.run Char.isDigit cs = whole)
    (hfraction : readFraction whole.rest = fraction)
    (hexponent : readExponent fraction.rest = exponent)
    (hname : ∀ c ∈ rest'.head?, ¬isNameChar c)
    (hpoint : fraction.text ++ exponent.text = [] → ∀ c ∈ rest'.head?, c ≠ '.') :
    Part.run Char.isDigit (whole.text ++ (fraction.text ++ (exponent.text ++ rest'))) =
        ⟨whole.value, whole.text, fraction.text ++ (exponent.text ++ rest')⟩ ∧
      readFraction (fraction.text ++ (exponent.text ++ rest')) =
        ⟨fraction.value, fraction.text, exponent.text ++ rest'⟩ ∧
      readExponent (exponent.text ++ rest') = ⟨exponent.value, exponent.text, rest'⟩ := by
  have hEhead : ∀ c ∈ (exponent.text ++ rest').head?, ¬c.isDigit ∧
      (fraction.text = [] → c ≠ '.') := by
    intro c hc
    cases htext : exponent.text with
    | nil =>
        rw [htext, List.nil_append] at hc
        refine ⟨fun hdigit => hname c hc (isNameChar_of_isDigit hdigit), fun hempty => ?_⟩
        exact hpoint (by rw [htext, hempty, List.append_nil]) c hc
    | cons e es =>
        rw [htext] at hc
        have he : e ∈ (readExponent fraction.rest).text.head? := by
          rw [hexponent, htext]
          rfl
        cases hc
        rcases head_of_readExponent he with rfl | rfl <;> exact ⟨by decide, fun _ => by decide⟩
  have hFhead : ∀ c ∈ (fraction.text ++ (exponent.text ++ rest')).head?, ¬c.isDigit := by
    intro c hc
    cases htext : fraction.text with
    | nil =>
        rw [htext] at hc
        exact (hEhead c hc).1
    | cons d ds =>
        rw [htext] at hc
        have hd : d ∈ (readFraction whole.rest).text.head? := by
          rw [hfraction, htext]
          rfl
        cases hc
        rw [head_of_readFraction hd]
        decide
  refine ⟨?_, ?_, ?_⟩
  · rw [← hwhole]
    exact Part.run_append cs hFhead
  · rw [← hfraction] at hEhead ⊢
    apply readFraction_append (fun c hc => (hEhead c hc).1)
    exact fun hempty c hc => (hEhead c hc).2 hempty
  · rw [← hexponent]
    exact readExponent_append hname

/-- What a lexeme may be followed by: none of these characters makes it any longer. -/
def Lexeme.EndsAt (lexeme : Lexeme) (c : Char) : Prop :=
  match lexeme.kind with
  | .identifier => ¬isNameChar c
  | .number _ => ¬isNameChar c ∧ (c = '.' → ¬lexeme.text.all Char.isDigit)
  | .string _ => True
  | .punctuation => lexeme.text = ['.'] → ¬c.isDigit
  | .operator => ∀ operator ∈ operators, ¬lexeme.text ++ [c] <+: operator

theorem Lexeme.endsAt_identifier {lexeme : Lexeme} (h : lexeme.kind = .identifier) {c : Char} :
    lexeme.EndsAt c ↔ ¬isNameChar c := by
  rw [Lexeme.EndsAt, h]

/-- A decimal number is read again in front of every character that ends it, with the same text and
the same value. -/
theorem readDecimal_append {cs rest rest' : List Char} {lexeme : Lexeme}
    (h : readDecimal cs = .ok (lexeme, rest)) (hrest : ∀ c ∈ rest'.head?, lexeme.EndsAt c) :
    readDecimal (lexeme.text ++ rest') = .ok (lexeme, rest') := by
  unfold readDecimal at h
  dsimp only at h
  generalize hwhole : Part.run Char.isDigit cs = whole at h
  generalize hfraction : readFraction whole.rest = fraction at h
  generalize hexponent : readExponent fraction.rest = exponent at h
  obtain ⟨x, hx, -, hr⟩ := endNumber_eq_ok.mp h
  cases hr
  have hname : ∀ c ∈ rest'.head?, ¬isNameChar c := fun c hc => (hrest c hc).1
  have hpoint : fraction.text ++ exponent.text = [] → ∀ c ∈ rest'.head?, c ≠ '.' := by
    rintro hempty c hc rfl
    refine (hrest '.' hc).2 rfl ?_
    rw [List.append_assoc, hempty, List.append_nil, ← hwhole]
    exact List.all_takeWhile
  obtain ⟨hW, hF, hE⟩ := decimal_append hwhole hfraction hexponent hname hpoint
  unfold readDecimal
  simp only [List.append_assoc, hW, hF, hE]
  exact endNumber_eq_ok.mpr ⟨x, hx, hname, rfl⟩

/-- An integer behind a prefix is read again in front of every character that ends it. A further
digit of the radix would be a part of it. -/
theorem readRadix_append {radix : Nat} {mark cs rest rest' : List Char} {lexeme : Lexeme}
    (h : readRadix radix mark cs = .ok (lexeme, rest))
    (hrest : ∀ c ∈ rest'.head?, lexeme.EndsAt c) :
    ∃ digits, lexeme.text = mark ++ digits ∧
      readRadix radix mark (digits ++ rest') = .ok (lexeme, rest') := by
  obtain ⟨x, hx, -, hr⟩ := endNumber_eq_ok.mp h
  cases hr
  have hname : ∀ c ∈ rest'.head?, ¬isNameChar c := fun c hc => (hrest c hc).1
  have hstop : ∀ c ∈ rest'.head?, ¬isDigitOf radix c := by
    intro c hc hdigit
    rw [isDigitOf, Bool.and_eq_true] at hdigit
    exact hname c hc (isNameChar_of_isHexDigit hdigit.1)
  refine ⟨_, rfl, ?_⟩
  rw [readRadix, Part.run_append cs hstop]
  exact endNumber_eq_ok.mpr ⟨x, hx, hname, rfl⟩

theorem readNumber_of_decimal {cs : List Char}
    (h : ∀ letter tail, cs = '0' :: letter :: tail → radixOf? letter = none) :
    readNumber cs = readDecimal cs := by
  unfold readNumber
  split
  · next letter tail => rw [h letter tail rfl]
  · rfl

theorem mem_of_radixOf? {c : Char} {radix : Nat} (h : radixOf? c = some radix) :
    c ∈ ['b', 'B', 'o', 'O', 'x', 'X'] := by
  unfold radixOf? at h
  grind

theorem isNameChar_of_radixOf? {c : Char} {radix : Nat} (h : radixOf? c = some radix) :
    isNameChar c := by
  have hall : ∀ c ∈ ['b', 'B', 'o', 'O', 'x', 'X'], isNameChar c :=
    forall_mem_of_all (by decide)
  exact hall c (mem_of_radixOf? h)

theorem not_isDigit_of_radixOf? {c : Char} {radix : Nat} (h : radixOf? c = some radix) :
    ¬c.isDigit := by
  have hall : ∀ c ∈ ['b', 'B', 'o', 'O', 'x', 'X'], ¬c.isDigit :=
    forall_mem_of_all (by decide)
  exact hall c (mem_of_radixOf? h)

theorem kind_of_readNumber {cs rest : List Char} {lexeme : Lexeme}
    (h : readNumber cs = .ok (lexeme, rest)) : ∃ x, lexeme.kind = .number x := by
  have hend : ∃ text value rest', endNumber text value rest' = .ok (lexeme, rest) := by
    unfold readNumber at h
    split at h
    · split at h
      · exact ⟨_, _, _, h⟩
      · rw [readDecimal] at h
        exact ⟨_, _, _, h⟩
    · rw [readDecimal] at h
      exact ⟨_, _, _, h⟩
  obtain ⟨text, value, rest', hend⟩ := hend
  obtain ⟨x, -, -, hr⟩ := endNumber_eq_ok.mp hend
  cases hr
  exact ⟨x, rfl⟩

/-- Numbers are read locally: the text of a number and one character behind it determine the
number. -/
theorem readNumber_append {cs rest rest' : List Char} {lexeme : Lexeme}
    (h : readNumber cs = .ok (lexeme, rest)) (htext : lexeme.text ≠ [])
    (hrest : ∀ c ∈ rest'.head?, lexeme.EndsAt c) :
    readNumber (lexeme.text ++ rest') = .ok (lexeme, rest') := by
  have happend := append_readNumber h
  have hname : ∀ c ∈ rest'.head?, ¬isNameChar c := by
    intro c hc
    obtain ⟨x, hkind⟩ := kind_of_readNumber h
    have hends := hrest c hc
    rw [Lexeme.EndsAt, hkind] at hends
    exact hends.1
  by_cases hradix : ∃ letter tail radix, cs = '0' :: letter :: tail ∧ radixOf? letter = some radix
  · obtain ⟨letter, tail, radix, rfl, hradix⟩ := hradix
    rw [readNumber, hradix] at h
    obtain ⟨digits, hlexeme, hread⟩ := readRadix_append h hrest
    rw [hlexeme, List.append_assoc, List.cons_append, List.cons_append, List.nil_append, readNumber,
      hradix]
    exact hread
  · have hdecimal : ∀ letter tail, cs = '0' :: letter :: tail → radixOf? letter = none := by
      intro letter tail hcs
      cases hletter : radixOf? letter with
      | none => rfl
      | some radix => exact absurd ⟨letter, tail, radix, hcs, hletter⟩ hradix
    rw [readNumber_of_decimal hdecimal] at h
    rw [readNumber_of_decimal]
    · exact readDecimal_append h hrest
    · intro letter tail hcs
      obtain ⟨c, text, hcons⟩ := List.exists_cons_of_ne_nil htext
      rw [hcons, List.cons_append, List.cons.injEq] at hcs
      rw [hcons, List.cons_append] at happend
      cases text with
      | nil =>
          have hnone : ¬isNameChar letter := hname letter (by rw [show rest' = _ from hcs.2]; rfl)
          cases hletter : radixOf? letter with
          | none => rfl
          | some radix => exact absurd (isNameChar_of_radixOf? hletter) hnone
      | cons d text =>
          obtain ⟨rfl, htail⟩ := hcs
          cases htail
          exact hdecimal letter _ happend.symm

/-- What comes behind a decimal number that has been read is a character at which it ends. Otherwise
it would be longer, or refused. -/
theorem endsAt_of_readDecimal {cs rest : List Char} {lexeme : Lexeme}
    (h : readDecimal cs = .ok (lexeme, rest)) : ∀ c ∈ rest.head?, lexeme.EndsAt c := by
  unfold readDecimal at h
  dsimp only at h
  generalize hwhole : Part.run Char.isDigit cs = whole at h
  generalize hfraction : readFraction whole.rest = fraction at h
  generalize hexponent : readExponent fraction.rest = exponent at h
  obtain ⟨x, hx, hname, hr⟩ := endNumber_eq_ok.mp h
  cases hr
  intro c hc
  refine ⟨hname c hc, ?_⟩
  rintro rfl hall
  rw [List.all_append, List.all_append, Bool.and_eq_true, Bool.and_eq_true] at hall
  obtain ⟨⟨-, hfractionDigits⟩, hexponentDigits⟩ := hall
  -- Neither a fraction nor an exponent consists of digits alone, so there is none of them.
  have hE : exponent.text = [] := by
    cases htext : exponent.text with
    | nil => rfl
    | cons e es =>
        have he : e ∈ (readExponent fraction.rest).text.head? := by
          rw [hexponent, htext]
          rfl
        rw [htext] at hexponentDigits
        rcases head_of_readExponent he with rfl | rfl <;> simp at hexponentDigits
  have hF : fraction.text = [] := by
    cases htext : fraction.text with
    | nil => rfl
    | cons d ds =>
        have hd : d ∈ (readFraction whole.rest).text.head? := by
          rw [hfraction, htext]
          rfl
        rw [htext] at hfractionDigits
        rw [head_of_readFraction hd] at hfractionDigits
        simp at hfractionDigits
  have hsplitE := readExponent_splits fraction.rest
  have hsplitF := readFraction_splits whole.rest
  rw [hexponent, Part.Splits, hE, List.nil_append] at hsplitE
  rw [hfraction, Part.Splits, hF, List.nil_append] at hsplitF
  rw [hsplitE, hsplitF] at hc
  cases hrest : whole.rest with
  | nil => simp [hrest] at hc
  | cons d ds =>
      rw [hrest] at hc
      cases hc
      rw [hrest] at hfraction
      rw [← hfraction] at hF
      simp [readFraction] at hF

/-- What comes behind a number that has been read is a character at which it ends, whichever its
radix. Behind a prefix that is any character but those of names. -/
theorem endsAt_of_readNumber {cs rest : List Char} {lexeme : Lexeme}
    (h : readNumber cs = .ok (lexeme, rest)) : ∀ c ∈ rest.head?, lexeme.EndsAt c := by
  unfold readNumber at h
  split at h
  · next letter tail =>
      split at h
      · next radix hradix =>
          obtain ⟨x, hx, hname, hr⟩ := endNumber_eq_ok.mp h
          cases hr
          intro c hc
          refine ⟨hname c hc, fun _ hall => ?_⟩
          have hletter : letter.isDigit := by
            simp at hall
            exact hall.1
          exact not_isDigit_of_radixOf? hradix hletter
      · exact endsAt_of_readDecimal h
  · exact endsAt_of_readDecimal h

/-! ## Operators -/

/-- Of two operators one of which begins with the other, the longer one comes first. -/
theorem pairwise_operators : operators.Pairwise fun a b => ¬(a <+: b ∧ a.length < b.length) := by
  decide

/-- What is between an operator and a longer one is an operator, too. -/
theorem take_mem_operators : ∀ a ∈ operators, ∀ b ∈ operators, a <+: b → a.length < b.length →
    b.take (a.length + 1) ∈ operators := by
  decide

/-- The operators that are found first are those that the next character does not make longer. -/
theorem find?_operators_eq_some {operator rest : List Char} :
    operators.find? (·.isPrefixOf (operator ++ rest)) = some operator ↔
      operator ∈ operators ∧
        ∀ c ∈ rest.head?, ∀ longer ∈ operators, ¬operator ++ [c] <+: longer := by
  have hself : operator.isPrefixOf (operator ++ rest) := by simp
  constructor
  · intro h
    refine ⟨List.mem_of_find?_eq_some h, ?_⟩
    rintro c hc longer hlonger hprefix
    obtain ⟨-, before, after, hsplit, hbefore⟩ := List.find?_eq_some_iff_append.mp h
    have hmem : operator ++ [c] ∈ operators := by
      have htake := take_mem_operators operator (List.mem_of_find?_eq_some h) longer hlonger
        ((List.prefix_append _ _).trans hprefix) (by
          have hlength := hprefix.length_le
          rw [List.length_append, List.length_singleton] at hlength
          exact hlength)
      have heq := List.prefix_iff_eq_take.mp hprefix
      rw [List.length_append, List.length_singleton] at heq
      rwa [heq]
    have hmatch : (operator ++ [c]).isPrefixOf (operator ++ rest) := by
      cases rest with
      | nil => simp at hc
      | cons d rest =>
          cases hc
          simp
    rw [hsplit] at hmem
    rcases List.mem_append.mp hmem with hfirst | hlast
    · simpa [hmatch] using hbefore _ hfirst
    · rcases List.mem_cons.mp hlast with heq | hlast
      · simp at heq
      · have hpairwise := pairwise_operators
        rw [hsplit, List.pairwise_append, List.pairwise_cons] at hpairwise
        exact hpairwise.2.1.1 _ hlast ⟨List.prefix_append _ _, by simp⟩
  · rintro ⟨hmem, hnext⟩
    cases hfind : operators.find? (·.isPrefixOf (operator ++ rest)) with
    | none => simpa [hself] using List.find?_eq_none.mp hfind operator hmem
    | some found =>
        obtain ⟨hmatch, before, after, hsplit, hbefore⟩ := List.find?_eq_some_iff_append.mp hfind
        have hprefix : found <+: operator ++ rest := List.isPrefixOf_iff_prefix.mp hmatch
        have hlength : found.length ≤ operator.length := by
          apply Nat.le_of_not_lt
          intro hlonger
          cases rest with
          | nil =>
              rw [List.append_nil] at hprefix
              exact absurd hprefix.length_le (Nat.not_le.mpr hlonger)
          | cons c rest =>
              refine hnext c rfl found (List.mem_of_find?_eq_some hfind) ?_
              refine List.prefix_of_prefix_length_le ?_ hprefix (by
                rw [List.length_append, List.length_singleton]
                exact hlonger)
              simp
        have hshorter : found <+: operator :=
          List.prefix_of_prefix_length_le hprefix (List.prefix_append _ _) hlength
        rw [hsplit] at hmem
        rcases List.mem_append.mp hmem with hfirst | hlast
        · simpa [hself] using hbefore _ hfirst
        · rcases List.mem_cons.mp hlast with rfl | hlast
          · rfl
          · have hpairwise := pairwise_operators
            rw [hsplit, List.pairwise_append, List.pairwise_cons] at hpairwise
            have hlength' : ¬found.length < operator.length :=
              fun hlt => hpairwise.2.1.1 _ hlast ⟨hshorter, hlt⟩
            rw [hshorter.eq_of_length (Nat.le_antisymm hlength (Nat.not_lt.mp hlength'))]

/-! ## Lexemes -/

/-- The ways in which a lexeme is read, in the order in which they are tried. -/
inductive ReadsLexeme (c : Char) (cs : List Char) : Lexeme → List Char → Prop where
  | identifier (hstart : isNameStart c) :
      ReadsLexeme c cs ⟨.identifier, c :: cs.takeWhile isNameChar⟩ (cs.dropWhile isNameChar)
  | string {lexeme : Lexeme} {rest : List Char} (hstart : ¬isNameStart c) (hquote : isQuote c)
      (h : readString c cs = .ok (lexeme, rest)) : ReadsLexeme c cs lexeme rest
  | number {lexeme : Lexeme} {rest : List Char} (hstart : ¬isNameStart c) (hquote : ¬isQuote c)
      (hnumber : startsNumber c cs) (h : readNumber (c :: cs) = .ok (lexeme, rest)) :
      ReadsLexeme c cs lexeme rest
  | punctuation (hstart : ¬isNameStart c) (hquote : ¬isQuote c) (hnumber : ¬startsNumber c cs)
      (hc : punctuation.contains c) : ReadsLexeme c cs ⟨.punctuation, [c]⟩ cs
  | operator {operator rest : List Char} (hstart : ¬isNameStart c) (hquote : ¬isQuote c)
      (hnumber : ¬startsNumber c cs) (hc : ¬punctuation.contains c)
      (hsplit : operator ++ rest = c :: cs)
      (hfind : operators.find? (·.isPrefixOf (operator ++ rest)) = some operator) :
      ReadsLexeme c cs ⟨.operator, operator⟩ rest

/-- The lexeme at a character is one of five kinds, each with the condition under which it is read.
Later proofs go by these cases. -/
theorem readLexeme_iff {c : Char} {cs rest : List Char} {lexeme : Lexeme} :
    readLexeme c cs = .ok (lexeme, rest) ↔ ReadsLexeme c cs lexeme rest := by
  constructor
  · intro h
    have happend := append_readLexeme h
    unfold readLexeme at h
    split at h
    · next hstart =>
        cases h
        exact .identifier hstart
    · next hstart =>
        split at h
        · next hquote => exact .string hstart hquote h
        · next hquote =>
            split at h
            · next hnumber => exact .number hstart hquote hnumber h
            · next hnumber =>
                split at h
                · next hc =>
                    cases h
                    exact .punctuation hstart hquote hnumber hc
                · next hc =>
                    split at h
                    · next operator hfind =>
                        cases h
                        exact .operator hstart hquote hnumber hc happend (by rwa [happend])
                    · contradiction
  · intro h
    cases h with
    | identifier hstart => rw [readLexeme, if_pos hstart]
    | string hstart hquote h => rw [readLexeme, if_neg hstart, if_pos hquote, h]
    | number hstart hquote hnumber h =>
        rw [readLexeme, if_neg hstart, if_neg hquote, if_pos hnumber, h]
    | punctuation hstart hquote hnumber hc =>
        rw [readLexeme, if_neg hstart, if_neg hquote, if_neg hnumber, if_pos hc]
    | operator hstart hquote hnumber hc hsplit hfind =>
        rw [hsplit] at hfind
        rw [readLexeme, if_neg hstart, if_neg hquote, if_neg hnumber, if_neg hc, hfind, ← hsplit]
        simp

/-- A name begins with a character that names begin with, and so it never begins with a digit. -/
theorem isNameStart_of_readLexeme {c : Char} {cs rest : List Char} {lexeme : Lexeme}
    (h : readLexeme c cs = .ok (lexeme, rest)) (hkind : lexeme.kind = .identifier) :
    isNameStart c := by
  cases readLexeme_iff.mp h with
  | identifier hstart => exact hstart
  | string hstart hquote h =>
      obtain ⟨value, hstring⟩ := kind_of_readStringFrom h
      exact absurd (hkind.symm.trans hstring) (by simp)
  | number hstart hquote hnumber h =>
      obtain ⟨x, hx⟩ := kind_of_readNumber h
      exact absurd (hkind.symm.trans hx) (by simp)
  | punctuation => contradiction
  | operator => contradiction

/-- What comes behind a lexeme does not make it any longer. -/
theorem endsAt_of_readLexeme {c : Char} {cs rest : List Char} {lexeme : Lexeme}
    (h : readLexeme c cs = .ok (lexeme, rest)) : ∀ d ∈ rest.head?, lexeme.EndsAt d := by
  intro d hd
  cases readLexeme_iff.mp h with
  | identifier hstart => exact not_of_head_dropWhile hd
  | string hstart hquote h =>
      obtain ⟨value, hkind⟩ := kind_of_readStringFrom h
      rw [Lexeme.EndsAt, hkind]
      trivial
  | number hstart hquote hnumber h => exact endsAt_of_readNumber h d hd
  | punctuation hstart hquote hnumber hc =>
      intro hpoint hdigit
      cases hpoint
      exact hnumber (by simp [startsNumber, Option.mem_def.mp hd, hdigit])
  | operator hstart hquote hnumber hc hsplit hfind =>
      exact (find?_operators_eq_some.mp hfind).2 d hd

/-- A lexeme is read off its own text, whatever comes behind it, as long as it ends there. -/
theorem readLexeme_append {c : Char} {cs rest text : List Char} {lexeme : Lexeme}
    (h : readLexeme c cs = .ok (lexeme, rest)) (htext : lexeme.text = c :: text)
    {rest' : List Char} (hrest : ∀ d ∈ rest'.head?, lexeme.EndsAt d) :
    readLexeme c (text ++ rest') = .ok (lexeme, rest') := by
  rw [readLexeme_iff]
  cases readLexeme_iff.mp h with
  | identifier hstart =>
      cases htext
      have hall : ∀ d ∈ cs.takeWhile isNameChar, isNameChar d := fun d hd => of_mem_takeWhile hd
      have hread : ReadsLexeme c (cs.takeWhile isNameChar ++ rest') _ _ := .identifier hstart
      rwa [takeWhile_append_of_stop hall hrest, dropWhile_append_of_stop hall hrest] at hread
  | string hstart hquote h =>
      obtain ⟨tail, -, -, hlexeme, hread⟩ := readStringFrom_append h
      rw [htext] at hlexeme
      cases hlexeme
      exact .string hstart hquote (hread rest')
  | number hstart hquote hnumber h =>
      have hread := readNumber_append h (readNumber_ne_nil hnumber h) hrest
      rw [htext] at hread
      refine .number hstart hquote ?_ hread
      have happend := append_readNumber h
      rw [htext, List.cons_append, List.cons.injEq] at happend
      cases text with
      | nil =>
          -- The digit behind a point would have been read along with it.
          rw [← happend.2, List.nil_append] at hnumber
          have hends := endsAt_of_readNumber h
          obtain ⟨x, hkind⟩ := kind_of_readNumber h
          simp only [startsNumber, Bool.or_eq_true, Bool.and_eq_true, decide_eq_true_eq]
            at hnumber ⊢
          rcases hnumber with hdigit | ⟨-, hdigit⟩
          · exact .inl hdigit
          · cases rest with
            | nil => simp at hdigit
            | cons d rest =>
                have hd := hends d rfl
                rw [Lexeme.EndsAt, hkind] at hd
                exact absurd (isNameChar_of_isDigit hdigit) hd.1
      | cons d text =>
          rw [← happend.2] at hnumber
          exact hnumber
  | punctuation hstart hquote hnumber hc =>
      cases htext
      refine .punctuation hstart hquote ?_ hc
      intro hstarts
      simp only [startsNumber, Bool.or_eq_true, Bool.and_eq_true, decide_eq_true_eq,
        not_or, not_and] at hstarts hnumber
      rcases hstarts with hdigit | ⟨rfl, hdigit⟩
      · exact hnumber.1 hdigit
      · cases rest' with
        | nil => simp at hdigit
        | cons d rest' => exact hrest d rfl rfl hdigit
  | operator hstart hquote hnumber hc hsplit hfind =>
      refine .operator hstart hquote ?_ hc (congrArg (· ++ rest') htext) ?_
      · intro hstarts
        simp only [startsNumber, Bool.or_eq_true, Bool.and_eq_true, decide_eq_true_eq,
          not_or, not_and] at hstarts hnumber
        rcases hstarts with hdigit | ⟨rfl, hdigit⟩
        · exact hnumber.1 hdigit
        · exact hc (by decide)
      · exact find?_operators_eq_some.mpr ⟨(find?_operators_eq_some.mp hfind).1, hrest⟩

end ReactiveTemplate
