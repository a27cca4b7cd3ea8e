import ReactiveTemplate.Proofs.Report.Underline
import ReactiveTemplate.Proofs.Session.Composition
import ReactiveTemplate.Proofs.Template.Standalone
import ReactiveTemplate.Proofs.Token.StringLiteral

/-!
# Reports of errors

No error starts or stops inside of a line ending: what it is about does not start with a line feed,
and ends with no carriage return unless the source ends there. So the report of every error
underlines what the error is about.
-/

namespace ReactiveTemplate

/-! ## Borders without white space -/

/-- A character that is no blank ends no line, which is why spans of such characters stay in one. -/
theorem ne_of_not_isBlank {c : Char} (h : ¬Unicode.isBlank c) : c ≠ '\n' ∧ c ≠ '\r' := by
  constructor
  all_goals
    rintro rfl
    exact h (by decide)

namespace Unbroken

variable {before after : List Char}

/-- A text is not broken between a carriage return and a line feed in front of a character that is
no blank. -/
theorem of_head (h : ∀ c ∈ after.head?, ¬Unicode.isBlank c) : Unbroken before after :=
  fun _ hhead => (ne_of_not_isBlank (h _ hhead)).1 rfl

theorem of_last (h : ∀ c ∈ before.getLast?, ¬Unicode.isBlank c) : Unbroken before after :=
  fun hlast => absurd rfl (ne_of_not_isBlank (h _ hlast)).2

/-- A place in a trimmed text is no less a place in a larger text. -/
theorem within (h : Unbroken before after) (htrimmed : Trimmed (before ++ after))
    (hne : before ++ after ≠ []) (front back : List Char) :
    Unbroken (front ++ before) (after ++ back) := by
  cases before with
  | nil =>
      refine of_head fun c hc => htrimmed.head c ?_
      obtain ⟨d, rest, rfl⟩ := List.exists_cons_of_ne_nil (show after ≠ [] from hne)
      exact hc
  | cons b before =>
      cases after with
      | nil =>
          refine of_last fun c hc => htrimmed.last c ?_
          simpa using hc
      | cons a after =>
          intro hlast
          refine h ?_
          simpa using hlast

end Unbroken

namespace Span.Clear

variable {span : Span} {cs : List Char}

/-- A clear span of a trimmed part is a clear span of the whole. -/
theorem within {outer : Span} {part : List Char} (h : span.Clear part)
    (houter : outer.Covers cs part) (htrimmed : Trimmed part) (hne : part ≠ []) :
    (span.shift outer.start).Clear cs := by
  obtain ⟨front, back, rfl, rfl⟩ := houter
  obtain ⟨before, text, after, rfl, rfl, hstart, hstop⟩ := h
  refine ⟨front ++ before, text, after ++ back, by simp, ?_, ?_, ?_⟩
  · simp only [shift, behind, byteWidth_append, Span.mk.injEq]
    omega
  · rw [List.append_assoc] at htrimmed hne
    simpa using hstart.within htrimmed hne front back
  · simpa using hstop.within htrimmed hne front back

end Span.Clear

/-! ## Tokens that cannot be read -/

theorem not_isBlank_of_isHex {digits : List Char} (h : IsHex digits) :
    ∀ c ∈ digits, ¬Unicode.isBlank c :=
  fun c hc hblank => not_isNameChar_of_isBlank hblank (isNameChar_of_isHexDigit (h c hc))

/-- The forms of code points have no blank in them. Hence an error for one of them begins and ends
visibly. -/
theorem CodePointForm.not_isBlank {text : List Char} {code : Nat} (h : CodePointForm text code) :
    ∀ c ∈ text, ¬Unicode.isBlank c := by
  cases h with
  | plain hdigits => exact not_isBlank_of_isHex hdigits
  | braced hdigits =>
      refine List.forall_mem_cons.mpr ⟨by decide, List.forall_mem_append.mpr ⟨?_, ?_⟩⟩
      · exact not_isBlank_of_isHex hdigits
      · simpa using (by decide : ¬Unicode.isBlank '}')

/-- An escape goes wrong before any white space. -/
theorem BrokenEscape.not_isBlank {rest text : List Char} (h : BrokenEscape rest text) :
    ∀ c ∈ text, ¬Unicode.isBlank c := by
  have hdigit {c : Char} (hc : c.isDigit) : ¬Unicode.isBlank c :=
    fun hblank => not_isNameChar_of_isBlank hblank (isNameChar_of_isDigit hc)
  cases h with
  | octal hc hdigits =>
      refine List.forall_mem_cons.mpr ⟨hdigit ?_, fun c hmem => hdigit (hdigits c hmem)⟩
      obtain ⟨hlow, hhigh⟩ := hc
      simp only [Char.isDigit, Bool.and_eq_true, decide_eq_true_eq]
      exact ⟨hlow, Char.le_trans hhigh (by decide)⟩
  | byte hdigits => exact List.forall_mem_cons.mpr ⟨by decide, not_isBlank_of_isHex hdigits⟩
  | codePoint h =>
      refine List.forall_mem_cons.mpr ⟨by decide, ?_⟩
      cases h with
      | plain hdigits => exact not_isBlank_of_isHex hdigits
      | braced hdigits => exact List.forall_mem_cons.mpr ⟨by decide, not_isBlank_of_isHex hdigits⟩
  | noCharacter h => exact List.forall_mem_cons.mpr ⟨by decide, h.not_isBlank⟩

/-- A string goes wrong as a whole, up to the end of the source, or at an escape. -/
theorem halt_of_readStringFrom {quote : Char} {taken value cs : List Char} {halt : Halt}
    (h : readStringFrom quote taken value cs = .error halt) :
    halt.before = [] ∧ halt.rest = [] ∨
      ∃ text, halt.text = '\\' :: text ∧ BrokenEscape halt.rest text := by
  fun_induction readStringFrom quote taken value cs with
  | case1 =>
      cases h
      exact .inl ⟨rfl, rfl⟩
  | case2 => contradiction
  | case3 _ _ _ _ _ _ _ _ ih => exact ih h
  | case4 _ _ _ text _ hread =>
      cases h
      cases Escape.read_eq_iff.mp hread with
      | malformed hbroken => exact .inr ⟨text, rfl, hbroken⟩
  | case5 =>
      cases h
      exact .inl ⟨rfl, rfl⟩
  | case6 _ _ _ _ _ _ ih => exact ih h

theorem halt_of_endNumber {text rest : List Char} {value : Option Binary64} {halt : Halt}
    (h : endNumber text value rest = .error halt) :
    halt.before = [] ∧ halt.text = text ++ rest.takeWhile isNameChar := by
  unfold endNumber at h
  dsimp only at h
  split at h
  · split at h
    · cases h
      exact ⟨rfl, rfl⟩
    · contradiction
  · cases h
    exact ⟨rfl, rfl⟩

/-- The text of a halt has no white space at its start, and none at its end unless the source ends
there. -/
structure Halt.Edged (halt : Halt) : Prop where
  nonempty : halt.text ≠ []
  start : ∀ c ∈ halt.text.head?, ¬Unicode.isBlank c
  stop : halt.rest = [] ∨ ∀ c ∈ halt.text.getLast?, ¬Unicode.isBlank c

/-- The span of a text that begins and ends with characters that are no blanks does not cut the end
of a line in two. -/
theorem Halt.Edged.clear {halt : Halt} {before cs : List Char} (h : halt.Edged)
    (hwhole : halt.before ++ halt.text ++ halt.rest = cs) :
    (halt.error (byteWidth before)).span.Clear (before ++ cs) := by
  refine ⟨before ++ halt.before, halt.text, halt.rest, by simp [← hwhole], ?_, .of_head ?_, ?_⟩
  · simp [Halt.error, Span.behind, Nat.add_assoc]
  · rw [List.head?_append_of_ne_nil _ h.nonempty]
    exact h.start
  · rcases h.stop with hrest | hlast
    · rw [hrest]
      exact .of_head (by simp)
    · refine .of_last ?_
      rwa [List.getLast?_append_of_ne_nil _ h.nonempty]

theorem head?_of_append_halt {c : Char} {cs : List Char} {halt : Halt}
    (hwhole : halt.before ++ halt.text ++ halt.rest = c :: cs) (hbefore : halt.before = [])
    (hne : halt.text ≠ []) : halt.text.head? = some c := by
  rw [hbefore, List.nil_append] at hwhole
  have hfirst := congrArg List.head? hwhole
  rwa [List.head?_append_of_ne_nil _ hne] at hfirst

/-- What stops the tokenizer begins with a character that is no blank and ends with one, or at the
end of the source. -/
theorem edged_of_readLexeme {c : Char} {cs : List Char} {halt : Halt}
    (h : readLexeme c cs = .error halt) (hc : ¬Unicode.isBlank c) : halt.Edged := by
  have hne := (stands_of_readLexeme h).nonempty
  have hstart (hbefore : halt.before = []) : ∀ d ∈ halt.text.head?, ¬Unicode.isBlank d := by
    rw [head?_of_append_halt (append_halt h) hbefore hne]
    simpa using hc
  unfold readLexeme at h
  split at h
  · contradiction
  · split at h
    · -- A string that is not closed may end in white space, but then the source ends as well.
      rcases halt_of_readStringFrom h with ⟨hbefore, hrest⟩ | ⟨text, htext, hbroken⟩
      · exact ⟨hne, hstart hbefore, .inl hrest⟩
      · have hall : ∀ d ∈ halt.text, ¬Unicode.isBlank d := by
          rw [htext]
          exact List.forall_mem_cons.mpr ⟨by decide, hbroken.not_isBlank⟩
        exact ⟨hne, fun d hd => hall d (List.mem_of_head? hd),
          .inr fun d hd => hall d (List.mem_of_getLast? hd)⟩
    · split at h
      · obtain ⟨text, value, rest, hend, hall⟩ := exists_endNumber (c :: cs)
        rw [hend] at h
        obtain ⟨hbefore, htext⟩ := halt_of_endNumber h
        refine ⟨hne, hstart hbefore, .inr fun d hd hblank => ?_⟩
        have hmem := List.mem_of_getLast? hd
        rw [htext, List.mem_append] at hmem
        rcases hmem with hmem | hmem
        · exact not_isNumberChar_of_isBlank hblank (hall d hmem)
        · exact not_isNameChar_of_isBlank hblank (of_mem_takeWhile hmem)
      · split at h
        · contradiction
        · split at h
          · contradiction
          · cases h
            exact ⟨hne, hstart rfl, .inr (by simpa using hc)⟩

/-- An error of the tokenizer has a span that cuts no line end in two, neither where it begins nor
where it ends. -/
theorem clear_of_tokenize_eq_error {source : String} {e : SyntaxError}
    (h : tokenize source = .error e) : e.span.Clear source.toList := by
  obtain ⟨front, c, rest, halt, hsource, hc, hread, rfl, -⟩ := Cursor.exists_halt h
  rw [show source.toList = front ++ c :: rest from hsource, Cursor.ofSource, Nat.zero_add]
  exact (edged_of_readLexeme hread hc).clear (append_halt hread)

/-! ## Tokens in a wrong place -/

theorem Lexeme.IsWhole.trimmed {lexeme : Lexeme} (h : lexeme.IsWhole) : Trimmed lexeme.text := by
  obtain ⟨c, cs, htext, hc, hread⟩ := h
  refine ⟨fun d hd => ?_, fun d hd => not_isBlank_of_getLast? hread hc hd⟩
  rw [htext] at hd
  cases hd
  exact hc

theorem Lexeme.IsWhole.ne_nil {lexeme : Lexeme} (h : lexeme.IsWhole) : lexeme.text ≠ [] := by
  obtain ⟨c, cs, htext, -⟩ := h
  rw [htext]
  exact List.cons_ne_nil c cs

/-- Neither border of a token is next to white space inside of the token. -/
theorem Span.Bordered.clear {tokens : List Token} {cs : List Char} {span : Span}
    (h : span.Bordered tokens) (htokens : Tokenizes [] cs tokens) (hle : span.start ≤ span.stop) :
    span.Clear cs := by
  obtain ⟨text, before, after, hcs, hspan⟩ := h.covers htokens hle
  have hbefore : before <+: cs := ⟨text ++ after, by simp [hcs]⟩
  have hwhole : before ++ text <+: cs := ⟨after, hcs.symm⟩
  refine ⟨before, text, after, hcs, hspan, .of_head ?_, .of_last ?_⟩
  · obtain ⟨first, hfirst, hstart⟩ := h.first
    obtain ⟨front, back, hfront, hwritten⟩ := htokens.written first hfirst
    rw [hwritten.span, hspan] at hstart
    obtain rfl : front = before := by
      refine eq_of_byteWidth_eq ⟨first.text.toList ++ back, ?_⟩ hbefore hstart
      rw [hfront, List.append_assoc]
    obtain heq : text ++ after = first.text.toList ++ back := by
      rw [hcs] at hfront
      simpa using hfront
    have hne : first.text.toList ≠ [] := hwritten.whole.ne_nil
    rw [heq, List.head?_append_of_ne_nil _ hne]
    exact hwritten.whole.trimmed.head
  · obtain ⟨last, hlast, hstop⟩ := h.last
    obtain ⟨front, back, hfront, hwritten⟩ := htokens.written last hlast
    rw [hwritten.span, hspan] at hstop
    have heq : front ++ last.text.toList = before ++ text :=
      eq_of_byteWidth_eq ⟨back, hfront.symm⟩ hwhole hstop
    have hne : last.text.toList ≠ [] := hwritten.whole.ne_nil
    rw [← heq, List.getLast?_append_of_ne_nil _ hne]
    exact hwritten.whole.trimmed.last

theorem Span.Clear.point_end (cs : List Char) : (point (byteWidth cs)).Clear cs :=
  ⟨cs, [], [], by simp, by simp [behind, point], .of_head (by simp), .of_head (by simp)⟩

/-- An error of an expression has such a span, too: it begins and ends with tokens, or stands at the
end of the source. -/
theorem clear_of_parse_eq_error {source : String} {e : SyntaxError} (h : parse source = .error e) :
    e.span.Clear source.toList := by
  rcases place_of_parse_eq_error h with htokens | hend | ⟨tokens, htokens, hbordered, hle⟩
  · exact clear_of_tokenize_eq_error htokens
  · rw [hend]
    exact .point_end _
  · exact hbordered.clear (tokenize_eq_ok_iff.mp htokens) hle

/-! ## Templates -/

/-- Scanning fails at the first piece that cannot be read. -/
theorem Template.exists_halt_of_scanFrom {done : List Segment} {shown cs : List Char} {offset : Nat}
    {e : SyntaxError} (h : scanFrom done shown offset cs = .error e) :
    ∃ front c rest halt, cs = front ++ c :: rest ∧ readPiece c rest = .error halt ∧
      e = halt.error (offset + byteWidth front) := by
  fun_induction scanFrom done shown offset cs with
  | case1 => contradiction
  | case2 done shown offset c cs halt hread =>
      cases h
      exact ⟨[], c, cs, halt, rfl, hread, rfl⟩
  | case3 done shown offset c cs more raw rest hread ih =>
      obtain ⟨front, d, rest', halt, rfl, hhalt, rfl⟩ := ih h
      refine ⟨raw ++ front, d, rest', halt, ?_, hhalt, ?_⟩
      · rw [List.append_assoc]
        exact (readPiece_cases hread).1.symm
      · rw [byteWidth_append, Nat.add_assoc]
  | case4 done shown offset c cs opening body closer rest hread decorator ih =>
      obtain ⟨front, d, rest', halt, rfl, hhalt, rfl⟩ := ih h
      refine ⟨(Piece.decorator opening body closer).raw ++ front, d, rest', halt, ?_, hhalt, ?_⟩
      · rw [List.append_assoc]
        exact (readPiece_cases hread).1.symm
      · rw [byteWidth_append, ← Nat.add_assoc]
        simp [decorator, decoratorAt, Piece.raw, Nat.add_assoc]

theorem not_isBlank_of_isCloser {c : Char} (h : Body.isCloser c) : ¬Unicode.isBlank c := by
  simp only [Body.isCloser, Bool.or_eq_true, decide_eq_true_eq] at h
  rcases h with (rfl | rfl) | rfl <;> decide

/-- What cannot be read of a template is a closing bracket, or a decorator up to the end. -/
theorem Template.edged_of_readPiece {c : Char} {cs : List Char} {halt : Halt}
    (h : readPiece c cs = .error halt) :
    halt.Edged ∧ halt.before ++ halt.text ++ halt.rest = c :: cs := by
  unfold readPiece at h
  split at h
  · contradiction
  · split at h
    · split at h <;> contradiction
    · split at h
      · next opening hopening =>
          unfold readDecorator at h
          dsimp only at h
          split at h
          · contradiction
          · next before found expected rest hbody =>
              cases h
              have hbreaks := Body.read_eq_mismatched_iff.mp hbody
              have hfound : ¬Unicode.isBlank found := not_isBlank_of_isCloser hbreaks.closing
              refine ⟨⟨by simp, by simpa using hfound, .inr (by simpa using hfound)⟩, ?_⟩
              rw [← Opening.read?_splits hopening, hbreaks.text]
              simp
          · cases h
            have hc : ¬Unicode.isBlank c := by
              rcases Opening.head_eq hopening with rfl | rfl <;> decide
            exact ⟨⟨by simp, by simpa using hc, .inl rfl⟩, by simp⟩
      · contradiction

/-- An error of a template has such a span as well, since it begins with an opening or a closing
bracket. -/
theorem clear_of_scan_eq_error {source : String} {e : SyntaxError} (h : scan source = .error e) :
    e.span.Clear source.toList := by
  obtain ⟨front, c, rest, halt, hsource, hread, rfl⟩ := Template.exists_halt_of_scanFrom h
  obtain ⟨hedged, hwhole⟩ := Template.edged_of_readPiece hread
  rw [hsource, Nat.zero_add]
  exact hedged.clear hwhole

/-- Nothing is wrong with an empty expression. -/
theorem ne_nil_of_parse_eq_error {source : String} {e : SyntaxError}
    (h : parse source = .error e) : source.toList ≠ [] := by
  intro hnil
  obtain ⟨es, hempty, -⟩ : ∃ es, parse "" = .ok es ∧ es.length = 0 :=
    exists_eq_ok_of_toOption (by decide +kernel)
  rw [String.toList_eq_nil_iff.mp hnil, hempty] at h
  contradiction

/-- An error in an expression is no less clear in the template around it. -/
theorem clear_of_compileTemplate_eq_error {source : String} {e : SyntaxError}
    (h : compileTemplate source = .error e) : e.span.Clear source.toList := by
  cases fails_of_compileTemplate h with
  | scan h => exact clear_of_scan_eq_error h
  | @expression front back d e text hdecorators _ _ hparse =>
      cases hscan : scan source with
      | error e' =>
          rw [decorators, hscan] at hdecorators
          contradiction
      | ok segments =>
          rw [decorators, hscan] at hdecorators
          have hlist : segments.filterMap Segment.decorator? = front ++ d :: back :=
            Except.ok.inj hdecorators
          obtain ⟨before, raw, after, hsource, hwritten⟩ :=
            written_of_scan hscan (show d ∈ _ by simp [hlist])
          have hcovers := hwritten.covers_expression hsource
          exact (clear_of_parse_eq_error hparse).within hcovers hwritten.trimmed
            (ne_nil_of_parse_eq_error hparse)

/-! ## Reports -/

/-- The report of every error shows the line where the error starts, with its number, and puts the
carets under the characters of this line that the error is about, behind as many spaces as there are
characters in front of them. Where the error is about none, there is one caret. -/
theorem render_of_error {source : String} {e : SyntaxError}
    (h : tokenize source = .error e ∨ parse source = .error e ∨ scan source = .error e ∨
      compileTemplate source = .error e) (filename : String) :
    (∃ earlier head tail text, e.span.Starts source.toList earlier head tail text) ∧
    ∀ earlier head tail text, e.span.Starts source.toList earlier head tail text →
      e.diagnostic.render .plain source filename =
        Report.underlined filename e.fault.message (earlier.count '\n' + 1)
          (String.ofList (head ++ tail)) head.length (max (min text.length tail.length) 1) ++
        e.fault.help.elim "" (Report.helpRows .plain) ++ "\n" := by
  have hclear : e.span.Clear source.toList := by
    rcases h with h | h | h | h
    · exact clear_of_tokenize_eq_error h
    · exact clear_of_parse_eq_error h
    · exact clear_of_scan_eq_error h
    · exact clear_of_compileTemplate_eq_error h
  exact ⟨hclear.exists_starts, fun _ _ _ _ hstarts =>
    Diagnostic.render_eq_underlined (d := e.diagnostic) hclear hstarts filename⟩

/-- A decorator that is not closed goes on to the next line, and is underlined on its first one. -/
theorem render_of_error_unclosed :
    ∃ e, compileTemplate "é\r\nü [if b\r\nc" = .error e ∧
      e.diagnostic.render .plain "é\r\nü [if b\r\nc" "x.html" =
        Report.underlined "x.html" e.fault.message 2 "ü [if b" 2 5 ++
        e.fault.help.elim "" (Report.helpRows .plain) ++ "\n" := by
  obtain ⟨e, herror, hspan⟩ :
      ∃ e, compileTemplate "é\r\nü [if b\r\nc" = .error e ∧ e.span = ⟨7, 15⟩ :=
    exists_eq_error_of_failure? (by decide +kernel)
  have hstarts : e.span.Starts "é\r\nü [if b\r\nc".toList "é\r\n".toList "ü ".toList
      "[if b".toList "[if b\r\nc".toList := by
    rw [hspan]
    refine ⟨⟨['\r', '\n'], ['c'], by decide, by simp, by decide, .returnFeed⟩, by decide, ?_⟩
    exact ⟨"é\r\nü ".toList, [], by decide, by decide⟩
  have hrender := (render_of_error (.inr (.inr (.inr herror))) "x.html").2 _ _ _ _ hstarts
  have hnumber : "é\r\n".toList.count '\n' + 1 = 2 := by decide
  have hline : String.ofList ("ü ".toList ++ "[if b".toList) = "ü [if b" := by decide
  have hindent : "ü ".toList.length = 2 := by decide
  have hcarets : max (min "[if b\r\nc".toList.length "[if b".toList.length) 1 = 5 := by decide
  rw [hnumber, hline, hindent, hcarets] at hrender
  exact ⟨e, herror, hrender⟩

end ReactiveTemplate
