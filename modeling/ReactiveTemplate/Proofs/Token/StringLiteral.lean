import ReactiveTemplate.Proofs.Text.Extent
import ReactiveTemplate.Proofs.Token.EscapeForms
import ReactiveTemplate.Proofs.Token.Lexing

/-!
# String literals

A string literal is a quote, a body of characters and escapes, and the same quote. Where a literal
cannot be completed, the first escape that goes wrong is to blame; without one it is the source that
ends too early.
-/

namespace ReactiveTemplate

/-! ## Bodies of strings -/

/-- One character or escape between quotes, when `rest` comes behind it. -/
inductive StringElement (quote : Char) (rest : List Char) : List Char → List Char → Prop where
  | plain {c : Char} (hquote : c ≠ quote) (hescape : c ≠ '\\') : StringElement quote rest [c] [c]
  | escape {text value : List Char} (h : EscapeForm rest text value) :
      StringElement quote rest ('\\' :: text) value

/-- `StringBody quote rest text value` says that `text` in front of `rest` is a sequence of elements
that stand for `value`, one behind the other. -/
inductive StringBody (quote : Char) (rest : List Char) : List Char → List Char → Prop where
  | nil : StringBody quote rest [] []
  | cons {text more value values : List Char} (h : StringElement quote (more ++ rest) text value)
      (hs : StringBody quote rest more values) :
      StringBody quote rest (text ++ more) (value ++ values)

/-- `BodyEnds quote rest` says that a body goes no further than up to `rest`: it is closed there, or
an escape goes wrong there, or the source ends. -/
inductive BodyEnds (quote : Char) : List Char → Prop where
  | closed (rest : List Char) : BodyEnds quote (quote :: rest)
  | broken {text rest : List Char} (h : BrokenEscape rest text) :
      BodyEnds quote ('\\' :: (text ++ rest))
  | unclosed : BodyEnds quote []
  | unfinished : BodyEnds quote ['\\']

/-- Every text starts with a body that goes no further. -/
theorem exists_body (quote : Char) (cs : List Char) :
    ∃ text value rest, cs = text ++ rest ∧ StringBody quote rest text value ∧
      BodyEnds quote rest := by
  induction hn : cs.length using Nat.strongRecOn generalizing cs with
  | ind n ih =>
      subst hn
      -- An element in front of a shorter text that has been split up.
      have hstep {text value rest : List Char} (hcs : cs = text ++ rest)
          (hlength : rest.length < cs.length) (h : StringElement quote rest text value) :
          ∃ text value rest, cs = text ++ rest ∧ StringBody quote rest text value ∧
            BodyEnds quote rest := by
        obtain ⟨more, values, rest', rfl, hbody, hends⟩ := ih _ hlength rest rfl
        exact ⟨text ++ more, value ++ values, rest', by simp [hcs], .cons h hbody, hends⟩
      cases cs with
      | nil => exact ⟨[], [], [], rfl, .nil, .unclosed⟩
      | cons c cs =>
          by_cases hquote : c = quote
          · subst hquote
            exact ⟨[], [], c :: cs, rfl, .nil, .closed cs⟩
          · by_cases hescape : c = '\\'
            · subst hescape
              obtain ⟨e, he⟩ := Escape.exists_denotes cs
              cases he with
              | means h =>
                  refine hstep rfl ?_ (.escape h)
                  simp only [List.length_cons, List.length_append]
                  omega
              | malformed h => exact ⟨[], [], _, rfl, .nil, .broken h⟩
              | unfinished => exact ⟨[], [], _, rfl, .nil, .unfinished⟩
            · exact hstep rfl (by simp) (.plain hquote hescape)

/-! ## Reading bodies -/

section

variable {quote : Char} {taken value cs text rest : List Char}

/-- Reading goes on behind a body, with the values of its elements. -/
theorem readStringFrom_of_body {values : List Char} (hquote : '\\' ≠ quote)
    (h : StringBody quote rest text values) :
    readStringFrom quote taken value (text ++ rest) =
      readStringFrom quote (text.reverse ++ taken) (values.reverse ++ value) rest := by
  induction h generalizing taken value with
  | nil => rfl
  | cons h hs ih =>
      cases h with
      | plain hplain hescape =>
          rw [List.append_assoc, List.singleton_append, readStringFrom_of_plain hplain hescape, ih]
          simp
      | escape hform =>
          rw [List.append_assoc, List.cons_append,
            readStringFrom_of_means hquote (Escape.read_of_form hform), ih]
          simp

end

/-! ## Literals -/

/-- The token at the head of the text `c :: cs` behind `before`, and the text after the token. -/
def readToken (before : List Char) (c : Char) (cs : List Char) :
    Except SyntaxError (Token × List Char) :=
  match readLexeme c cs with
  | .ok (lexeme, rest) => .ok (lexeme.token (byteWidth before) (byteWidth lexeme.text), rest)
  | .error halt => .error (halt.error (byteWidth before))

theorem readToken_of_ok {before cs rest : List Char} {c : Char} {lexeme : Lexeme}
    (h : readLexeme c cs = .ok (lexeme, rest)) :
    readToken before c cs = .ok (⟨lexeme.kind, String.ofList lexeme.text,
      .behind before lexeme.text⟩, rest) := by
  rw [readToken, h]
  simp [Lexeme.token, Span.behind]

/-- Where no token can be read, the error covers the text in question, with its offset behind what
was read in front. -/
theorem readToken_of_error {before cs : List Char} {c : Char} {halt : Halt}
    (h : readLexeme c cs = .error halt) :
    readToken before c cs = .error ⟨halt.fault, .behind (before ++ halt.before) halt.text⟩ := by
  rw [readToken, h]
  simp [Halt.error, Span.behind, Nat.add_assoc]

/-- Tokens are read one at a time, up to the first error. -/
theorem Cursor.tokensFrom_eq_readToken {c : Char} (hc : ¬Unicode.isBlank c) (done : List Token)
    (before cs : List Char) :
    (tokensFrom done (byteWidth before) (c :: cs)).1 =
      match readToken before c cs with
      | .ok (token, rest) => (tokensFrom (token :: done) token.span.stop rest).1
      | .error e => .error e := by
  cases hread : readLexeme c cs with
  | ok r =>
      rw [tokensFrom_of_read hc hread, readToken, hread]
      rfl
  | error halt => rw [tokensFrom_of_halt hc hread, readToken, hread]

/-- `StringAt before quote cs r` says that a quote between `before` and `cs` makes reading give
`r`. -/
inductive StringAt (before : List Char) (quote : Char) (cs : List Char) :
    Except SyntaxError (Token × List Char) → Prop where
  /-- A body and the closing quote behind it. -/
  | literal {text value rest : List Char} (hcs : cs = text ++ quote :: rest)
      (h : StringBody quote (quote :: rest) text value) :
      StringAt before quote cs
        (.ok (⟨.string (String.ofList value), String.ofList (quote :: (text ++ [quote])),
          .behind before (quote :: (text ++ [quote]))⟩, rest))
  /-- A body, and an escape behind it that goes wrong. -/
  | broken {text value escape rest : List Char} (hcs : cs = text ++ '\\' :: (escape ++ rest))
      (h : StringBody quote ('\\' :: (escape ++ rest)) text value)
      (hescape : BrokenEscape rest escape) :
      StringAt before quote cs
        (.error ⟨.invalidEscape (String.ofList ('\\' :: escape)),
          .behind (before ++ quote :: text) ('\\' :: escape)⟩)
  /-- A body up to the end of the source. -/
  | unclosed {value : List Char} (h : StringBody quote [] cs value) :
      StringAt before quote cs (.error ⟨.unterminatedString quote, .behind before (quote :: cs)⟩)
  /-- A body and a backslash up to the end of the source. -/
  | unfinished {text value : List Char} (hcs : cs = text ++ ['\\'])
      (h : StringBody quote ['\\'] text value) :
      StringAt before quote cs (.error ⟨.unfinishedEscape, .behind before (quote :: cs)⟩)

/-- Every text behind a quote is read by one of the rules for literals: it is closed, or broken at
its first wrong escape, or not closed. -/
theorem exists_stringAt (before : List Char) (quote : Char) (cs : List Char) :
    ∃ r, StringAt before quote cs r := by
  obtain ⟨text, value, rest, hcs, hbody, hends⟩ := exists_body quote cs
  cases hends with
  | closed rest => exact ⟨_, .literal hcs hbody⟩
  | broken hescape => exact ⟨_, .broken hcs hbody hescape⟩
  | unclosed =>
      rw [List.append_nil] at hcs
      exact ⟨_, .unclosed (hcs ▸ hbody)⟩
  | unfinished => exact ⟨_, .unfinished hcs hbody⟩

theorem readLexeme_of_isQuote {quote : Char} (h : isQuote quote) (cs : List Char) :
    readLexeme quote cs = readStringFrom quote [quote] [] cs := by
  have hstart : ¬isNameStart quote := by
    simp only [isQuote, Bool.or_eq_true, decide_eq_true_eq] at h
    rcases h with rfl | rfl <;> decide
  rw [readLexeme, if_neg hstart, if_pos h, readString]

/-- What the rules for literals say of a quote is what the tokenizer reads there. The induction is
on the body of the literal. -/
theorem readToken_of_stringAt {before cs : List Char} {quote : Char} (hquote : isQuote quote)
    {r : Except SyntaxError (Token × List Char)} (h : StringAt before quote cs r) :
    readToken before quote cs = r := by
  have hbackslash : '\\' ≠ quote := by
    rintro rfl
    exact absurd hquote (by decide)
  have hread := readLexeme_of_isQuote hquote cs
  cases h with
  | literal hcs hbody =>
      subst hcs
      rw [readStringFrom_of_body hbackslash hbody, readStringFrom, if_pos rfl] at hread
      rw [readToken_of_ok hread]
      simp
  | broken hcs hbody hescape =>
      subst hcs
      rw [readStringFrom_of_body hbackslash hbody,
        readStringFrom_of_malformed hbackslash (Escape.read_of_broken hescape)] at hread
      rw [readToken_of_error hread]
      simp
  | unclosed hbody =>
      have hend : readStringFrom quote [quote] [] (cs ++ []) = _ :=
        readStringFrom_of_body hbackslash hbody
      rw [List.append_nil, readStringFrom] at hend
      rw [hend] at hread
      rw [readToken_of_error hread]
      simp
  | unfinished hcs hbody =>
      subst hcs
      rw [readStringFrom_of_body hbackslash hbody,
        readStringFrom_of_unfinished hbackslash rfl] at hread
      rw [readToken_of_error hread]
      simp

/-- What is read at a quote is settled by the grammar of string literals: the token of a literal
with the values of its elements, or the error of the first escape that goes wrong, or else that of
a literal that nothing closes. -/
theorem readToken_string_iff {quote : Char} (hquote : isQuote quote) (before cs : List Char) :
    (∀ r, readToken before quote cs = r ↔ StringAt before quote cs r) ∧
    ∀ done, (Cursor.tokensFrom done (byteWidth before) (quote :: cs)).1 =
      match readToken before quote cs with
      | .ok (token, rest) => (Cursor.tokensFrom (token :: done) token.span.stop rest).1
      | .error e => .error e := by
  constructor
  · intro r
    constructor
    · rintro rfl
      obtain ⟨r, hr⟩ := exists_stringAt before quote cs
      rwa [readToken_of_stringAt hquote hr]
    · exact readToken_of_stringAt hquote
  · intro done
    have hblank : ¬Unicode.isBlank quote := by
      simp only [isQuote, Bool.or_eq_true, decide_eq_true_eq] at hquote
      rcases hquote with rfl | rfl <;> decide
    exact Cursor.tokensFrom_eq_readToken hblank done before cs

/-- A literal with a pair in two forms, a null character and a line break of two; and one in which
the second half of a pair is missing. -/
theorem readToken_string_iff_pair :
    isQuote '"' ∧
    StringAt ['é'] '"' "\\uD83D\\u{de00}\\0\\\r\n\\q\" 8".toList
      (.ok (⟨.string "😀\x00q", "\"\\uD83D\\u{de00}\\0\\\r\n\\q\"", ⟨2, 25⟩⟩, [' ', '8'])) ∧
    StringAt ['é'] '"' "a\\uD83Dx\\8\"".toList
      (.error ⟨.invalidEscape "\\uD83D", ⟨4, 10⟩⟩) := by
  refine ⟨rfl, ?_, ?_⟩
  · obtain ⟨r, hread, rfl⟩ :
        ∃ r, readToken ['é'] '"' "\\uD83D\\u{de00}\\0\\\r\n\\q\" 8".toList = .ok r ∧
          r = (⟨.string "😀\x00q", "\"\\uD83D\\u{de00}\\0\\\r\n\\q\"", ⟨2, 25⟩⟩,
            [' ', '8']) :=
      exists_eq_ok_of_toOption (by decide +kernel)
    exact ((readToken_string_iff rfl _ _).1 _).mp hread
  · obtain ⟨e, hread, rfl⟩ :
        ∃ e, readToken ['é'] '"' "a\\uD83Dx\\8\"".toList = .error e ∧
          e = ⟨.invalidEscape "\\uD83D", ⟨4, 10⟩⟩ :=
      exists_eq_error_of_failure? (by decide +kernel)
    exact ((readToken_string_iff rfl _ _).1 _).mp hread

end ReactiveTemplate
