import ReactiveTemplate.Proofs.Token.Locality

/-!
# Texts and their lexemes

`Tokenizes` says which tokens a text is read as, and `Lexes` says which lexemes it consists of,
apart from where they stand in it. Blank characters at the ends of a text do not matter.
-/

namespace ReactiveTemplate

/-- `Lexes cs lexemes` says that a text consists of these lexemes, with blanks around them. -/
inductive Lexes : List Char → List Lexeme → Prop where
  | nil : Lexes [] []
  | blank {c : Char} {cs : List Char} {lexemes : List Lexeme} (hc : Unicode.isBlank c)
      (h : Lexes cs lexemes) : Lexes (c :: cs) lexemes
  | lexeme {c : Char} {cs rest : List Char} {lexeme : Lexeme} {lexemes : List Lexeme}
      (hc : ¬Unicode.isBlank c) (hread : readLexeme c cs = .ok (lexeme, rest))
      (h : Lexes rest lexemes) : Lexes (c :: cs) (lexeme :: lexemes)

/-- A token without its place. -/
def Token.lexeme (token : Token) : Lexeme :=
  ⟨token.kind, token.text.toList⟩

@[simp]
theorem Lexeme.lexeme_token (lexeme : Lexeme) (offset width : Nat) :
    (lexeme.token offset width).lexeme = lexeme := by
  simp [Lexeme.token, Token.lexeme]

/-! ## Tokens of a source -/

/-- `Tokenizes before cs tokens` says that the text `cs` behind `before` is read as these tokens. -/
inductive Tokenizes : List Char → List Char → List Token → Prop where
  | nil {before : List Char} : Tokenizes before [] []
  | blank {before cs : List Char} {c : Char} {tokens : List Token} (hc : Unicode.isBlank c)
      (h : Tokenizes (before ++ [c]) cs tokens) : Tokenizes before (c :: cs) tokens
  | lexeme {before cs rest : List Char} {c : Char} {lexeme : Lexeme} {tokens : List Token}
      (hc : ¬Unicode.isBlank c) (hread : readLexeme c cs = .ok (lexeme, rest))
      (h : Tokenizes (before ++ lexeme.text) rest tokens) :
      Tokenizes before (c :: cs)
        (lexeme.token (byteWidth before) (byteWidth lexeme.text) :: tokens)

namespace Cursor

section

variable {done : List Token} {offset : Nat} {c : Char} {cs : List Char}

theorem tokensFrom_of_blank (hc : Unicode.isBlank c) :
    tokensFrom done offset (c :: cs) = tokensFrom done (offset + c.utf8Size) cs := by
  rw [tokensFrom, if_pos hc]

/-- At any other character one lexeme is read, and the rest of the source is gone on with behind
it. -/
theorem tokensFrom_of_read {rest : List Char} {lexeme : Lexeme} (hc : ¬Unicode.isBlank c)
    (hread : readLexeme c cs = .ok (lexeme, rest)) :
    tokensFrom done offset (c :: cs) =
      tokensFrom (lexeme.token offset (byteWidth lexeme.text) :: done)
        (offset + byteWidth lexeme.text) rest := by
  rw [tokensFrom, if_neg hc]
  split
  · next hread' =>
      rw [hread] at hread'
      cases hread'
      rfl
  · next hread' =>
      rw [hread] at hread'
      contradiction

/-- Where no lexeme can be read, tokenizing stops with an error, and the cursor is left behind the
text in question. -/
theorem tokensFrom_of_halt {halt : Halt} (hc : ¬Unicode.isBlank c)
    (hread : readLexeme c cs = .error halt) :
    tokensFrom done offset (c :: cs) =
      (.error (halt.error offset), ⟨(halt.error offset).span.stop, halt.rest⟩) := by
  rw [tokensFrom, if_neg hc]
  split
  · next hread' =>
      rw [hread] at hread'
      contradiction
  · next hread' =>
      rw [hread] at hread'
      cases hread'
      rfl

end

/-- What the tokenizer gives is related to the source by the rules for tokens. The tokens in front
are kept, newest first. -/
theorem tokenizes_of_tokensFrom {done tokens : List Token} {offset : Nat} {cs : List Char}
    (h : (tokensFrom done offset cs).1 = .ok tokens) {before : List Char}
    (hoffset : offset = byteWidth before) :
    ∃ more, tokens = done.reverse ++ more ∧ Tokenizes before cs more := by
  fun_induction tokensFrom done offset cs generalizing before with
  | case1 done offset =>
      cases h
      exact ⟨[], by simp, .nil⟩
  | case2 done offset c cs hblank ih =>
      have hbehind : offset + c.utf8Size = byteWidth (before ++ [c]) := by simp [hoffset]
      obtain ⟨more, rfl, hmore⟩ := ih h hbehind
      exact ⟨more, rfl, .blank hblank hmore⟩
  | case3 done offset c cs hblank lexeme rest hread width ih =>
      have hbehind : offset + width = byteWidth (before ++ lexeme.text) := by simp [hoffset, width]
      obtain ⟨more, rfl, hmore⟩ := ih h hbehind
      refine ⟨lexeme.token offset width :: more, by simp, ?_⟩
      rw [hoffset]
      exact .lexeme hblank hread hmore
  | case4 => contradiction

/-- Conversely, tokens that are related to a source by the rules are what the tokenizer gives, by
induction on the rules. -/
theorem tokensFrom_of_tokenizes {before cs : List Char} {tokens : List Token}
    (h : Tokenizes before cs tokens) (done : List Token) :
    (tokensFrom done (byteWidth before) cs).1 = .ok (done.reverse ++ tokens) := by
  induction h generalizing done with
  | nil => simp [tokensFrom]
  | @blank before cs c tokens hc h ih =>
      rw [tokensFrom_of_blank hc]
      simpa using ih done
  | @lexeme before cs rest c lexeme tokens hc hread h ih =>
      rw [tokensFrom_of_read hc hread]
      simpa using ih (lexeme.token (byteWidth before) (byteWidth lexeme.text) :: done)

end Cursor

/-- The rules for tokens say exactly what a source is tokenized as. They are easier to reason by
than the loop. -/
theorem tokenize_eq_ok_iff {source : String} {tokens : List Token} :
    tokenize source = .ok tokens ↔ Tokenizes [] source.toList tokens := by
  constructor
  · intro h
    have hstart : 0 = byteWidth [] := rfl
    obtain ⟨more, rfl, hmore⟩ := Cursor.tokenizes_of_tokensFrom h hstart
    exact hmore
  · intro h
    exact Cursor.tokensFrom_of_tokenizes h []

/-! ### Tokens and lexemes -/

/-- Tokens of a source carry its lexemes. Leaving out where they stand leaves a relation that does
not depend on offsets. -/
theorem Tokenizes.lexes {before cs : List Char} {tokens : List Token}
    (h : Tokenizes before cs tokens) : Lexes cs (tokens.map Token.lexeme) := by
  induction h with
  | nil => exact .nil
  | blank hc h ih => exact .blank hc ih
  | lexeme hc hread h ih =>
      rw [List.map_cons, Lexeme.lexeme_token]
      exact .lexeme hc hread ih

/-- Conversely, lexemes of a text become tokens wherever the text stands, and only their spans
depend on the place. -/
theorem Lexes.exists_tokenizes {cs : List Char} {lexemes : List Lexeme} (h : Lexes cs lexemes)
    (before : List Char) :
    ∃ tokens, Tokenizes before cs tokens ∧ tokens.map Token.lexeme = lexemes := by
  induction h generalizing before with
  | nil => exact ⟨[], .nil, rfl⟩
  | @blank c cs lexemes hc h ih =>
      obtain ⟨tokens, htokens, hlexemes⟩ := ih (before ++ [c])
      exact ⟨tokens, .blank hc htokens, hlexemes⟩
  | @lexeme c cs rest lexeme lexemes hc hread h ih =>
      obtain ⟨tokens, htokens, hlexemes⟩ := ih (before ++ lexeme.text)
      refine ⟨_, .lexeme hc hread htokens, ?_⟩
      rw [List.map_cons, Lexeme.lexeme_token, hlexemes]

theorem lexes_of_tokenize {source : String} {tokens : List Token}
    (h : tokenize source = .ok tokens) : Lexes source.toList (tokens.map Token.lexeme) :=
  (tokenize_eq_ok_iff.mp h).lexes

theorem tokenize_of_lexes {source : String} {lexemes : List Lexeme}
    (h : Lexes source.toList lexemes) :
    ∃ tokens, tokenize source = .ok tokens ∧ tokens.map Token.lexeme = lexemes := by
  obtain ⟨tokens, htokens, hlexemes⟩ := h.exists_tokenizes []
  exact ⟨tokens, tokenize_eq_ok_iff.mpr htokens, hlexemes⟩

/-! ## Whole lexemes -/

/-- The text of a lexeme is read as that lexeme. -/
def Lexeme.IsWhole (lexeme : Lexeme) : Prop :=
  ∃ c cs, lexeme.text = c :: cs ∧ ¬Unicode.isBlank c ∧ readLexeme c cs = .ok (lexeme, [])

/-- What is read as a lexeme is a whole one: it would be read alone, if nothing came behind it. -/
theorem isWhole_of_readLexeme {c : Char} {cs rest : List Char} {lexeme : Lexeme}
    (h : readLexeme c cs = .ok (lexeme, rest)) (hc : ¬Unicode.isBlank c) : lexeme.IsWhole := by
  obtain ⟨d, text, htext⟩ := List.exists_cons_of_ne_nil (readLexeme_ne_nil h)
  have happend := append_readLexeme h
  rw [htext, List.cons_append, List.cons.injEq] at happend
  obtain ⟨rfl, -⟩ := happend
  have hwhole : readLexeme d (text ++ []) = .ok (lexeme, []) := readLexeme_append h htext (by simp)
  rw [List.append_nil] at hwhole
  exact ⟨d, text, htext, hc, hwhole⟩

theorem Lexes.isWhole {cs : List Char} {lexemes : List Lexeme} (h : Lexes cs lexemes) :
    ∀ lexeme ∈ lexemes, lexeme.IsWhole := by
  induction h with
  | nil => simp
  | blank hc h ih => exact ih
  | lexeme hc hread h ih => exact List.forall_mem_cons.mpr ⟨isWhole_of_readLexeme hread hc, ih⟩

/-- Each token of a source is whole, and so it can be put into another source. -/
theorem isWhole_of_tokenize {source : String} {tokens : List Token}
    (h : tokenize source = .ok tokens) : ∀ token ∈ tokens, token.lexeme.IsWhole :=
  fun _ htoken => (lexes_of_tokenize h).isWhole _ (List.mem_map_of_mem htoken)

/-- A whole lexeme in front of a text that may follow it. -/
theorem Lexeme.IsWhole.lexes {lexeme : Lexeme} (h : lexeme.IsWhole) {rest : List Char}
    {lexemes : List Lexeme} (hrest : ∀ c ∈ rest.head?, lexeme.EndsAt c)
    (hlexes : Lexes rest lexemes) : Lexes (lexeme.text ++ rest) (lexeme :: lexemes) := by
  obtain ⟨c, cs, htext, hc, hread⟩ := h
  rw [htext]
  exact .lexeme hc (readLexeme_append hread htext hrest) hlexes

/-! ## Characters of lexemes -/

/-- A character of a number. -/
def isNumberChar (c : Char) : Bool :=
  isNameChar c || c = '.' || c = '+' || c = '-'

theorem isNumberChar_of_isDigit {c : Char} (h : c.isDigit) : isNumberChar c := by
  simp [isNumberChar, isNameChar_of_isDigit h]

theorem all_readSign (cs : List Char) : ∀ c ∈ (readSign cs).text, isNumberChar c := by
  unfold readSign
  split <;> simp [isNumberChar]

theorem all_run {p : Char → Bool} (h : ∀ c, p c → isNumberChar c) (cs : List Char) :
    ∀ c ∈ (Part.run p cs).text, isNumberChar c :=
  fun c hc => h c (of_mem_takeWhile hc)

theorem all_readExponent (cs : List Char) : ∀ c ∈ (readExponent cs).text, isNumberChar c := by
  unfold readExponent
  split
  · simp
  · next e cs =>
      dsimp only
      split
      · next hletter =>
          simp only [Bool.and_eq_true, Bool.or_eq_true, decide_eq_true_eq] at hletter
          intro c hc
          rw [List.cons_append, List.mem_cons, List.mem_append] at hc
          rcases hc with rfl | hsign | hdigits
          · rcases hletter.1 with rfl | rfl <;> decide
          · exact all_readSign cs c hsign
          · exact all_run (fun _ => isNumberChar_of_isDigit) _ c hdigits
      · simp

theorem all_readFraction (cs : List Char) : ∀ c ∈ (readFraction cs).text, isNumberChar c := by
  unfold readFraction
  split
  · next cs =>
      intro c hc
      rcases List.mem_cons.mp hc with rfl | hdigits
      · decide
      · exact all_run (fun _ => isNumberChar_of_isDigit) _ c hdigits
  · simp

/-- A number is ended behind a text of such characters. -/
theorem exists_endNumber (cs : List Char) : ∃ text value rest,
    readNumber cs = endNumber text value rest ∧ ∀ c ∈ text, isNumberChar c := by
  have hdecimal : ∃ text value rest,
      readDecimal cs = endNumber text value rest ∧ ∀ c ∈ text, isNumberChar c := by
    unfold readDecimal
    refine ⟨_, _, _, rfl, fun c hc => ?_⟩
    rw [List.mem_append, List.mem_append] at hc
    rcases hc with (hwhole | hfraction) | hexponent
    · exact all_run (fun _ => isNumberChar_of_isDigit) _ c hwhole
    · exact all_readFraction _ c hfraction
    · exact all_readExponent _ c hexponent
  unfold readNumber
  split
  · next letter tail =>
      split
      · next radix hradix =>
          refine ⟨_, _, _, rfl, fun c hc => ?_⟩
          rw [List.mem_append] at hc
          rcases hc with hmark | hdigits
          · simp only [List.mem_cons, List.not_mem_nil, or_false] at hmark
            rcases hmark with rfl | rfl
            · decide
            · simp [isNumberChar, isNameChar_of_radixOf? hradix]
          · refine all_run (fun c hc => ?_) _ c hdigits
            rw [isDigitOf, Bool.and_eq_true] at hc
            simp [isNumberChar, isNameChar_of_isHexDigit hc.1]
      · exact hdecimal
  · exact hdecimal

/-- The text of a number consists of digits, letters, points and signs. No blank is among these. -/
theorem all_readNumber {cs rest : List Char} {lexeme : Lexeme}
    (h : readNumber cs = .ok (lexeme, rest)) : ∀ c ∈ lexeme.text, isNumberChar c := by
  obtain ⟨text, value, rest', hend, hall⟩ := exists_endNumber cs
  rw [hend] at h
  rwa [(eq_of_endNumber h).1]

theorem getLast?_of_readStringFrom {quote : Char} {taken value cs rest : List Char}
    {lexeme : Lexeme} (h : readStringFrom quote taken value cs = .ok (lexeme, rest)) :
    lexeme.text.getLast? = some quote := by
  fun_induction readStringFrom quote taken value cs with
  | case1 => contradiction
  | case2 =>
      cases h
      simp
  | case3 _ _ _ _ _ _ _ _ ih => exact ih h
  | case4 => contradiction
  | case5 => contradiction
  | case6 _ _ _ _ _ _ ih => exact ih h

/-! ## Blanks at the ends -/

theorem not_isNumberChar_of_isBlank {c : Char} (h : Unicode.isBlank c) : ¬isNumberChar c := by
  have hname := not_isNameChar_of_isBlank h
  simp only [isNumberChar, hname, Bool.or_eq_true, decide_eq_true_eq]
  rintro (((hfalse | rfl) | rfl) | rfl)
  · simp at hfalse
  all_goals exact absurd h (by decide)

/-- No operator has a blank in it. -/
theorem not_isBlank_of_mem_operators : ∀ c ∈ operators.flatten, ¬Unicode.isBlank c :=
  forall_mem_of_all (by decide)

/-- A blank may follow any lexeme. -/
theorem Lexeme.endsAt_of_isBlank (lexeme : Lexeme) {c : Char} (h : Unicode.isBlank c) :
    lexeme.EndsAt c := by
  have hname := not_isNameChar_of_isBlank h
  obtain ⟨kind, text⟩ := lexeme
  cases kind with
  | identifier => exact hname
  | number x =>
      refine ⟨hname, ?_⟩
      rintro rfl
      exact absurd h (by decide)
  | string s => trivial
  | punctuation => exact fun _ hdigit => hname (isNameChar_of_isDigit hdigit)
  | operator =>
      intro operator hoperator hlonger
      have hmem : c ∈ operator := hlonger.mem (by simp)
      exact not_isBlank_of_mem_operators c (List.mem_flatten_of_mem hoperator hmem) h

/-- No lexeme ends in a blank. -/
theorem not_isBlank_of_getLast? {c : Char} {cs rest : List Char} {lexeme : Lexeme}
    (h : readLexeme c cs = .ok (lexeme, rest)) (hc : ¬Unicode.isBlank c) {d : Char}
    (hd : d ∈ lexeme.text.getLast?) : ¬Unicode.isBlank d := by
  have hmem := List.mem_of_getLast? hd
  intro hblank
  cases readLexeme_iff.mp h with
  | identifier hstart =>
      rcases List.mem_cons.mp hmem with rfl | hmem
      · exact hc hblank
      · exact not_isNameChar_of_isBlank hblank (of_mem_takeWhile hmem)
  | string hstart hquote h =>
      rw [getLast?_of_readStringFrom h] at hd
      cases hd
      exact hc hblank
  | number hstart hquote hnumber h =>
      exact not_isNumberChar_of_isBlank hblank (all_readNumber h d hmem)
  | punctuation hstart hquote hnumber hpunct =>
      rw [List.mem_singleton.mp hmem] at hblank
      exact hc hblank
  | operator hstart hquote hnumber hpunct hsplit hfind =>
      have hd := List.mem_flatten_of_mem (List.mem_of_find?_eq_some hfind) hmem
      exact not_isBlank_of_mem_operators d hd hblank

namespace Lexes

theorem dropWhile {cs : List Char} {lexemes : List Lexeme} (h : Lexes cs lexemes) :
    Lexes (cs.dropWhile Unicode.isBlank) lexemes := by
  induction h with
  | nil => exact .nil
  | blank hc h ih =>
      rw [List.dropWhile_cons, if_pos hc]
      exact ih
  | lexeme hc hread h ih =>
      rw [List.dropWhile_cons, if_neg hc]
      exact .lexeme hc hread h

/-- Blanks behind a text do not belong to its last lexeme. -/
theorem of_append_blanks {cs blanks : List Char} {lexemes : List Lexeme}
    (h : Lexes (cs ++ blanks) lexemes) (hblanks : ∀ c ∈ blanks, Unicode.isBlank c) :
    Lexes cs lexemes := by
  generalize htext : cs ++ blanks = text at h
  induction h generalizing cs blanks with
  | nil =>
      rw [(List.append_eq_nil_iff.mp htext).1]
      exact .nil
  | @blank c rest lexemes hc h ih =>
      cases cs with
      | nil =>
          rw [List.nil_append] at htext
          subst htext
          exact @ih [] rest (fun d hd => hblanks d (List.mem_cons_of_mem _ hd)) rfl
      | cons c' cs =>
          rw [List.cons_append, List.cons.injEq] at htext
          obtain ⟨rfl, rfl⟩ := htext
          exact .blank hc (ih hblanks rfl)
  | @lexeme c more rest lexeme lexemes hc hread h ih =>
      cases cs with
      | nil =>
          rw [List.nil_append] at htext
          subst htext
          exact absurd (hblanks c List.mem_cons_self) hc
      | cons c' cs =>
          rw [List.cons_append, List.cons.injEq] at htext
          obtain ⟨rfl, rfl⟩ := htext
          obtain ⟨more, hcs, rfl⟩ : ∃ more, c' :: cs = lexeme.text ++ more ∧
              rest = more ++ blanks := by
            have happend := append_readLexeme hread
            rw [← List.cons_append, List.append_eq_append_iff] at happend
            rcases happend with hinside | ⟨excess, htext, hexcess⟩
            · exact hinside
            · -- A lexeme that reached into the blanks would end in one.
              cases hlast : excess.getLast? with
              | none =>
                  rw [List.getLast?_eq_none_iff] at hlast
                  subst hlast
                  exact ⟨[], by simpa using htext.symm, by simpa using hexcess.symm⟩
              | some d =>
                  have hd : d ∈ blanks := by
                    rw [hexcess]
                    exact List.mem_append_left _ (List.mem_of_getLast? hlast)
                  refine absurd (hblanks d hd) (not_isBlank_of_getLast? hread hc ?_)
                  rw [htext, List.getLast?_append, hlast]
                  rfl
          have hends : ∀ d ∈ more.head?, lexeme.EndsAt d := by
            intro d hd
            refine endsAt_of_readLexeme hread d ?_
            rw [List.head?_append, Option.mem_def.mp hd]
            rfl
          obtain ⟨first, text, hlexeme⟩ := List.exists_cons_of_ne_nil (readLexeme_ne_nil hread)
          rw [hlexeme, List.cons_append, List.cons.injEq] at hcs
          obtain ⟨rfl, rfl⟩ := hcs
          exact .lexeme hc (readLexeme_append hread hlexeme hends) (ih hblanks rfl)

/-- A text has the same lexemes without the blanks at its ends. -/
theorem trim {cs : List Char} {lexemes : List Lexeme} (h : Lexes cs lexemes) :
    Lexes (Unicode.trim cs) lexemes := by
  have hdrop := h.dropWhile
  rw [Unicode.trim]
  generalize cs.dropWhile Unicode.isBlank = text at hdrop ⊢
  have hsplit := List.takeWhile_append_dropWhile (p := Unicode.isBlank) (l := text.reverse)
  have htext : (text.reverse.dropWhile Unicode.isBlank).reverse ++
      (text.reverse.takeWhile Unicode.isBlank).reverse = text := by
    rw [← List.reverse_append, hsplit, List.reverse_reverse]
  rw [← htext] at hdrop
  apply hdrop.of_append_blanks
  intro c hc
  exact of_mem_takeWhile (List.mem_reverse.mp hc)

end Lexes

end ReactiveTemplate
