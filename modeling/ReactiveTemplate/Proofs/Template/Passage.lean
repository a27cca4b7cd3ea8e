import ReactiveTemplate.Proofs.Token.Lexing
import ReactiveTemplate.Template.Body

/-!
# Lexemes in the body of a decorator

The reader of bodies knows brackets, quotes and backslashes only. It still skips a string to exactly
the quote at which the string ends, and sees no bracket in any lexeme but the brackets themselves.
-/

namespace ReactiveTemplate

namespace Body

/-- Where the reader of a body is: the brackets that are open and the kind of text. -/
structure Place where
  closers : Closers
  region : Region

/-- Behind `text` a reader at the place `before` goes on at the place `after`. -/
def Passes (before : Place) (text : List Char) (after : Place) : Prop :=
  ∀ taken rest, readFrom before.closers before.region taken (text ++ rest) =
    readFrom after.closers after.region (text.reverse ++ taken) rest

/-- Passing over two texts in a row is passing over both. All longer passages are put together in
this way. -/
theorem Passes.append {before between after : Place} {text text' : List Char}
    (h : Passes before text between) (h' : Passes between text' after) :
    Passes before (text ++ text') after := by
  intro taken rest
  rw [List.append_assoc, h, h', List.reverse_append, List.append_assoc]

theorem Passes.cons {before between after : Place} {c : Char} {text : List Char}
    (h : Passes before [c] between) (h' : Passes between text after) :
    Passes before (c :: text) after :=
  h.append h'

theorem passes_nil (place : Place) : Passes place [] place :=
  fun _ _ => rfl

theorem passes_all {place : Place} {text : List Char} (h : ∀ c ∈ text, Passes place [c] place) :
    Passes place text place := by
  induction text with
  | nil => exact passes_nil place
  | cons c text ih =>
      rw [List.forall_mem_cons] at h
      exact h.1.cons (ih h.2)

variable {closers : Closers} {quote c : Char}

/-- A body is closed by the first bracket that stands where the body started. -/
theorem read_of_passes (hc : isCloser c) {text : List Char}
    (h : Passes ⟨⟨c, []⟩, .plain⟩ text ⟨⟨c, []⟩, .plain⟩) (rest : List Char) :
    read c (text ++ c :: rest) = .closed text rest := by
  rw [read, h]
  simp only [isCloser, Bool.or_eq_true, decide_eq_true_eq] at hc
  rcases hc with (rfl | rfl) | rfl <;> simp [readFrom, isQuote, closerOf?, isCloser]

/-! ## Plain text -/

/-- The characters that are more than text outside of strings. -/
def marks : List Char :=
  ['"', '\'', '`', '(', ')', '[', ']', '{', '}']

theorem passes_text (h : c ∉ marks) : Passes ⟨closers, .plain⟩ [c] ⟨closers, .plain⟩ := by
  intro taken rest
  simp only [marks, List.mem_cons, List.not_mem_nil, or_false, not_or] at h
  simp [readFrom, isQuote, closerOf?, isCloser, h]

theorem passes_quote (h : isQuote c) : Passes ⟨closers, .plain⟩ [c] ⟨closers, .quoted c⟩ := by
  intro taken rest
  simp [readFrom, h]

theorem passes_opener {closer : Char} (h : closerOf? c = some closer) :
    Passes ⟨closers, .plain⟩ [c] ⟨⟨closer, closers.next :: closers.outer⟩, .plain⟩ := by
  have hquote : ¬isQuote c := by
    have hall : ∀ c ∈ ['(', '[', '{'], ¬isQuote c := forall_mem_of_all (by decide)
    refine hall c ?_
    simp only [closerOf?] at h
    grind
  intro taken rest
  simp [readFrom, hquote, h]

theorem passes_closer (h : isCloser c) (outer : List Char) (next : Char) :
    Passes ⟨⟨c, next :: outer⟩, .plain⟩ [c] ⟨⟨next, outer⟩, .plain⟩ := by
  simp only [isCloser, Bool.or_eq_true, decide_eq_true_eq] at h
  intro taken rest
  rcases h with (rfl | rfl) | rfl <;> rfl

/-! ## Strings -/

theorem passes_backslash : Passes ⟨closers, .quoted quote⟩ ['\\'] ⟨closers, .hidden quote⟩ :=
  fun _ _ => rfl

theorem passes_hidden : Passes ⟨closers, .hidden quote⟩ [c] ⟨closers, .quoted quote⟩ :=
  fun _ _ => rfl

theorem passes_quoted (hescape : c ≠ '\\') (hquote : c ≠ quote) :
    Passes ⟨closers, .quoted quote⟩ [c] ⟨closers, .quoted quote⟩ := by
  intro taken rest
  simp [readFrom, hescape, hquote]

theorem passes_unquote (h : quote ≠ '\\') :
    Passes ⟨closers, .quoted quote⟩ [quote] ⟨closers, .plain⟩ := by
  intro taken rest
  simp [readFrom, h]

/-- The characters of a code point in an escape. -/
def isCodeChar (c : Char) : Bool :=
  isHexDigit c || c = '{' || c = '}'

/-- The characters of a code point are passed over inside quotes, since they are neither quotes nor
backslashes. -/
theorem passes_code (hquote : ReactiveTemplate.isQuote quote) {text : List Char}
    (h : ∀ c ∈ text, isCodeChar c) :
    Passes ⟨closers, .quoted quote⟩ text ⟨closers, .quoted quote⟩ := by
  refine passes_all fun c hc => passes_quoted ?_ ?_
  · rintro rfl
    exact absurd (h '\\' hc) (by decide)
  · rintro rfl
    simp only [ReactiveTemplate.isQuote, Bool.or_eq_true, decide_eq_true_eq] at hquote
    rcases hquote with rfl | rfl
    · exact absurd (h '"' hc) (by decide)
    · exact absurd (h '\'' hc) (by decide)

theorem isCodeChar_of_readHex (count : Nat) (cs : List Char) :
    ∀ c ∈ (Escape.readHex count cs).text, isCodeChar c := by
  intro c hc
  simp [isCodeChar, of_mem_takeWhile hc]

theorem isCodeChar_of_readCodePoint (cs : List Char) :
    ∀ c ∈ (Escape.readCodePoint cs).text, isCodeChar c := by
  unfold Escape.readCodePoint
  split
  · next cs =>
      have hdigits : ∀ c ∈ '{' :: cs.takeWhile isHexDigit, isCodeChar c := by
        refine List.forall_mem_cons.mpr ⟨by decide, fun c hc => ?_⟩
        simp [isCodeChar, of_mem_takeWhile hc]
      split
      · dsimp only
        split
        · exact hdigits
        · exact List.forall_mem_append.mpr ⟨hdigits, forall_mem_of_all (by decide)⟩
      · exact hdigits
  · exact isCodeChar_of_readHex 4 _

/-- The second half of a surrogate pair is an escape of its own to the reader of bodies. -/
theorem passes_lowSurrogate (hquote : ReactiveTemplate.isQuote quote) {cs : List Char}
    {low : Part Nat} (h : Escape.readLowSurrogate? cs = some low) :
    Passes ⟨closers, .quoted quote⟩ low.text ⟨closers, .quoted quote⟩ := by
  unfold Escape.readLowSurrogate? at h
  split at h
  · next cs =>
      have hcode := isCodeChar_of_readCodePoint cs
      split at h
      · next hread =>
          rw [hread] at hcode
          split at h
          · cases h
            exact passes_backslash.cons (passes_hidden.cons (passes_code hquote hcode))
          · contradiction
      · contradiction
  · contradiction

/-- An escape for a code point is passed over, from the character behind its backslash on. The
second half of a pair has a backslash of its own. -/
theorem passes_unicode (hquote : ReactiveTemplate.isQuote quote) {cs value text rest : List Char}
    (h : Escape.readUnicode cs = .means value text rest) :
    Passes ⟨closers, .hidden quote⟩ text ⟨closers, .quoted quote⟩ := by
  have hcode := isCodeChar_of_readCodePoint cs
  unfold Escape.readUnicode at h
  split at h
  · next hread =>
      rw [hread] at hcode
      split at h
      · split at h
        · next hlow =>
            obtain ⟨rfl, -⟩ := Escape.eq_of_ofCodePoint h
            exact passes_hidden.cons
              ((passes_code hquote hcode).append (passes_lowSurrogate hquote hlow))
        · contradiction
      · obtain ⟨rfl, -⟩ := Escape.eq_of_ofCodePoint h
        exact passes_hidden.cons (passes_code hquote hcode)
  · contradiction

/-- An escape does not end a string, nor does any part of it. -/
theorem passes_escape (hquote : ReactiveTemplate.isQuote quote) {cs value text rest : List Char}
    (h : Escape.read cs = .means value text rest) :
    Passes ⟨closers, .hidden quote⟩ text ⟨closers, .quoted quote⟩ := by
  unfold Escape.read at h
  split at h
  case h_8 cs =>
    obtain ⟨rfl, -⟩ := Escape.eq_of_ofCodePoint h
    exact passes_hidden.cons (passes_code hquote (isCodeChar_of_readHex 2 cs))
  case h_9 cs => exact passes_unicode hquote h
  case h_10 cs =>
    cases h
    refine passes_hidden.cons (passes_quoted (by decide) ?_)
    rintro rfl
    exact absurd hquote (by decide)
  case h_11 c cs _ _ _ _ _ _ _ _ _ =>
    split at h
    · cases h
      exact passes_hidden
    · split at h
      · contradiction
      · split at h <;> cases h <;> exact passes_hidden
  all_goals first | contradiction | (cases h; exact passes_hidden)

/-- A string ends where the reader of bodies takes it to end. -/
theorem passes_string (hquote : ReactiveTemplate.isQuote quote) {taken value cs rest : List Char}
    {lexeme : Lexeme} (h : readStringFrom quote taken value cs = .ok (lexeme, rest)) :
    ∃ text, lexeme.text = taken.reverse ++ text ∧
      Passes ⟨closers, .quoted quote⟩ text ⟨closers, .plain⟩ := by
  have hbackslash : quote ≠ '\\' := by
    rintro rfl
    exact absurd hquote (by decide)
  fun_induction readStringFrom quote taken value cs with
  | case1 => contradiction
  | case2 taken value cs =>
      cases h
      exact ⟨[quote], List.reverse_cons, passes_unquote hbackslash⟩
  | case3 taken value cs meaning escape rest₁ hread _ ih =>
      obtain ⟨text, htext, hpasses⟩ := ih h
      refine ⟨'\\' :: (escape ++ text), by simp [htext], ?_⟩
      exact passes_backslash.cons ((passes_escape hquote hread).append hpasses)
  | case4 => contradiction
  | case5 => contradiction
  | case6 taken value c cs hc hescape ih =>
      obtain ⟨text, htext, hpasses⟩ := ih h
      exact ⟨c :: text, by simp [htext], (passes_quoted hescape hc).cons hpasses⟩

/-! ## Lexemes -/

/-- The brackets that are open behind a lexeme: one more behind an opening bracket, and one less
behind the one that closes the innermost. There are none behind a bracket that is out of place. -/
def Closers.behind? (closers : Closers) (lexeme : Lexeme) : Option Closers :=
  match lexeme.kind, lexeme.text with
  | .punctuation, [c] =>
      match closerOf? c with
      | some closer => some ⟨closer, closers.next :: closers.outer⟩
      | none =>
          if isCloser c then
            match closers.outer with
            | [] => none
            | next :: outer => if c = closers.next then some ⟨next, outer⟩ else none
          else some closers
  | _, _ => some closers

theorem Closers.behind?_of_ne {lexeme : Lexeme} (h : lexeme.kind ≠ .punctuation) :
    closers.behind? lexeme = some closers := by
  unfold behind?
  split
  · contradiction
  · rfl

variable {closers' : Closers}

theorem passes_punctuation (h : closers.behind? ⟨.punctuation, [c]⟩ = some closers')
    (hc : c ∈ punctuation) :
    Passes ⟨closers, .plain⟩ [c] ⟨closers', .plain⟩ := by
  simp only [Closers.behind?] at h
  split at h
  · next closer hcloser =>
      cases h
      exact passes_opener hcloser
  · next hopener =>
      split at h
      · next hcloser =>
          obtain ⟨next, outer⟩ := closers
          cases outer with
          | nil => contradiction
          | cons outermost outer =>
              dsimp only at h
              split at h
              · next hnext =>
                  cases h
                  subst hnext
                  exact passes_closer hcloser outer outermost
              · contradiction
      · next hcloser =>
          cases h
          have hall : ∀ c ∈ punctuation, c ∈ marks → closerOf? c = none → isCloser c :=
            forall_mem_of_all (by decide)
          exact passes_text fun hmark => hcloser (hall c hc hmark hopener)

/-- The reader of bodies goes over a lexeme as the stack of brackets says. -/
theorem passes_lexeme {cs rest : List Char} {lexeme : Lexeme}
    (h : readLexeme c cs = .ok (lexeme, rest)) (hbehind : closers.behind? lexeme = some closers') :
    Passes ⟨closers, .plain⟩ lexeme.text ⟨closers', .plain⟩ := by
  have hnumber : ∀ c ∈ marks, ¬isNumberChar c := forall_mem_of_all (by decide)
  have hname : ∀ c ∈ marks, ¬isNameChar c := forall_mem_of_all (by decide)
  cases readLexeme_iff.mp h with
  | identifier hstart =>
      rw [Closers.behind?_of_ne (by simp)] at hbehind
      cases hbehind
      refine passes_all fun d hd => passes_text fun hmark => hname d hmark ?_
      rcases List.mem_cons.mp hd with rfl | hd
      · simp [isNameChar, hstart]
      · exact of_mem_takeWhile hd
  | string hstart hquote h =>
      obtain ⟨value, hkind⟩ := kind_of_readStringFrom h
      rw [Closers.behind?_of_ne (by simp [hkind])] at hbehind
      cases hbehind
      obtain ⟨text, htext, hpasses⟩ : ∃ text, lexeme.text = [c].reverse ++ text ∧
          Passes ⟨closers, .quoted c⟩ text ⟨closers, .plain⟩ := passes_string hquote h
      rw [htext]
      refine (passes_quote ?_).append hpasses
      rw [ReactiveTemplate.isQuote, Bool.or_eq_true] at hquote
      simp only [isQuote, hquote, Bool.or_eq_true, true_or]
  | number hstart hquote hnum h =>
      obtain ⟨x, hkind⟩ := kind_of_readNumber h
      rw [Closers.behind?_of_ne (by simp [hkind])] at hbehind
      cases hbehind
      exact passes_all fun d hd => passes_text fun hmark => hnumber d hmark (all_readNumber h d hd)
  | punctuation hstart hquote hnum hc =>
      exact passes_punctuation hbehind (List.contains_iff_mem.mp hc)
  | operator hstart hquote hnum hc hsplit hfind =>
      rw [Closers.behind?_of_ne (by simp)] at hbehind
      cases hbehind
      have hall : ∀ d ∈ operators.flatten, d ∉ marks := forall_mem_of_all (by decide)
      refine passes_all fun d hd => passes_text (hall d ?_)
      exact List.mem_flatten_of_mem (List.mem_of_find?_eq_some hfind) hd

/-- The reader of bodies goes over a text as the stack of brackets goes over its lexemes. -/
theorem passes_lexes {cs : List Char} {lexemes : List Lexeme} (h : Lexes cs lexemes)
    (hbehind : lexemes.foldlM Closers.behind? closers = some closers') :
    Passes ⟨closers, .plain⟩ cs ⟨closers', .plain⟩ := by
  induction h generalizing closers with
  | nil =>
      cases hbehind
      exact passes_nil _
  | blank hc h ih =>
      have hall : ∀ c ∈ marks, ¬Unicode.isBlank c := forall_mem_of_all (by decide)
      exact (passes_text fun hmark => hall _ hmark hc).cons (ih hbehind)
  | @lexeme c cs rest lexeme lexemes hc hread h ih =>
      rw [List.foldlM_cons] at hbehind
      obtain ⟨between, hlexeme, hrest⟩ := Option.bind_eq_some_iff.mp hbehind
      rw [← append_readLexeme hread]
      exact (passes_lexeme hread hlexeme).append (ih hrest)

end Body

end ReactiveTemplate
