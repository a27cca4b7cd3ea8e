import ReactiveTemplate.Proofs.Token.Order

/-!
# Tokens partition their source

Every character of a source that is no white space belongs to exactly one of its tokens, and each
token is as long as it can be: no longer piece of text from its first character on is a token.
-/

namespace ReactiveTemplate

/-! ## Single tokens -/

/-- A token with its text between `before` and `after`. -/
structure Token.Written (token : Token) (before after : List Char) : Prop where
  span : token.span = .behind before token.text.toList
  whole : token.lexeme.IsWhole
  ends : ∀ c ∈ after.head?, token.lexeme.EndsAt c

/-- Every token stands in the text where its span says. -/
theorem Tokenizes.written {before cs : List Char} {tokens : List Token}
    (h : Tokenizes before cs tokens) : ∀ token ∈ tokens, ∃ front back,
      cs = front ++ token.text.toList ++ back ∧ token.Written (before ++ front) back := by
  induction h with
  | nil => simp
  | @blank before cs c tokens hc h ih =>
      intro token htoken
      obtain ⟨front, back, rfl, hwritten⟩ := ih token htoken
      refine ⟨c :: front, back, rfl, ?_⟩
      simpa using hwritten
  | @lexeme before cs rest c lexeme tokens hc hread h ih =>
      have happend := append_readLexeme hread
      intro token htoken
      rcases List.mem_cons.mp htoken with rfl | htoken
      · refine ⟨[], rest, by simp [Lexeme.token, happend], ?_, ?_, ?_⟩
        · simp [Lexeme.token, Span.behind]
        · rw [Lexeme.lexeme_token]
          exact isWhole_of_readLexeme hread hc
        · rw [Lexeme.lexeme_token]
          exact endsAt_of_readLexeme hread
      · obtain ⟨front, back, rfl, hwritten⟩ := ih token htoken
        refine ⟨lexeme.text ++ front, back, by simp [← happend], ?_⟩
        simpa using hwritten

/-- The text of a token stands where its span says. -/
theorem Tokenizes.covers {tokens : List Token} {cs : List Char} (h : Tokenizes [] cs tokens)
    {token : Token} (htoken : token ∈ tokens) : token.span.Covers cs token.text.toList := by
  obtain ⟨front, back, hcs, hwritten⟩ := h.written token htoken
  exact ⟨front, back, hcs, hwritten.span⟩

/-- A text that is a single token as a whole. -/
def IsToken (cs : List Char) : Prop :=
  ∃ token, tokenize (String.ofList cs) = .ok [token] ∧ token.span = ⟨0, byteWidth cs⟩

/-- A text is a token by itself exactly if it is the text of a whole lexeme. Both say that it is
read as one and to its end. -/
theorem isToken_iff {cs : List Char} :
    IsToken cs ↔ ∃ lexeme : Lexeme, lexeme.IsWhole ∧ lexeme.text = cs := by
  constructor
  · rintro ⟨token, htokens, hspan⟩
    rw [tokenize_eq_ok_iff, String.toList_ofList] at htokens
    obtain ⟨front, back, -, hwritten⟩ := htokens.written token List.mem_cons_self
    have hcovers := htokens.covers List.mem_cons_self
    have hall : token.span.Covers cs cs := ⟨[], [], by simp, hspan⟩
    exact ⟨token.lexeme, hwritten.whole, hcovers.unique hall⟩
  · rintro ⟨lexeme, ⟨c, text, htext, hc, hread⟩, rfl⟩
    have htokens : Tokenizes [] (c :: text) [lexeme.token 0 (byteWidth lexeme.text)] :=
      .lexeme hc hread .nil
    rw [← htext] at htokens
    refine ⟨lexeme.token 0 (byteWidth lexeme.text), ?_, by simp [Lexeme.token]⟩
    rwa [tokenize_eq_ok_iff, String.toList_ofList]

/-- What is read off a longer text and ends there is the longest token at the head of that text. -/
theorem Lexeme.IsWhole.longest {lexeme : Lexeme} (h : lexeme.IsWhole) {after : List Char}
    (hends : ∀ c ∈ after.head?, lexeme.EndsAt c) {text : List Char}
    (htext : text <+: lexeme.text ++ after) (htoken : IsToken text) : text <+: lexeme.text := by
  obtain ⟨other, ⟨d, ds, hother, -, hread'⟩, rfl⟩ := isToken_iff.mp htoken
  obtain ⟨c, cs, hlexeme, -, hread⟩ := h
  rcases List.prefix_or_prefix_of_prefix htext (List.prefix_append lexeme.text after) with
    hshort | ⟨more, hmore⟩
  · exact hshort
  · -- The longer text starts with this lexeme, so nothing is left of it.
    have hhead : ∀ c ∈ more.head?, lexeme.EndsAt c := by
      rw [← hmore, List.prefix_append_right_inj] at htext
      intro c hc
      refine hends c ?_
      obtain ⟨rest, rfl⟩ := htext
      rw [List.head?_append, Option.mem_def.mp hc]
      rfl
    have hread'' := readLexeme_append hread hlexeme hhead
    rw [hlexeme, hother, List.cons_append, List.cons.injEq] at hmore
    obtain ⟨rfl, rfl⟩ := hmore
    rw [hread'] at hread''
    cases hread''
    exact List.prefix_rfl

/-! ## The characters between tokens -/

/-- Whatever stands outside of all tokens is white space. -/
theorem Tokenizes.isBlank_of_outside {before cs : List Char} {tokens : List Token}
    (h : Tokenizes before cs tokens) {front back : List Char} {c : Char}
    (hcs : cs = front ++ c :: back)
    (houtside : ∀ token ∈ tokens, byteWidth (before ++ front) < token.span.start ∨
      token.span.stop ≤ byteWidth (before ++ front)) : Unicode.isBlank c := by
  induction h generalizing front with
  | nil => simp at hcs
  | @blank before cs d tokens hd h ih =>
      cases front with
      | nil =>
          cases hcs
          exact hd
      | cons d' front =>
          cases hcs
          exact ih rfl (by simpa using houtside)
  | @lexeme before cs rest d lexeme tokens hd hread h ih =>
      rw [← append_readLexeme hread, List.append_eq_append_iff] at hcs
      rw [List.forall_mem_cons] at houtside
      rcases hcs with ⟨front', rfl, hrest⟩ | ⟨tail, htext, hback⟩
      · exact ih hrest (by simpa using houtside.2)
      · cases tail with
        | nil =>
            rw [List.append_nil] at htext
            rw [List.nil_append] at hback
            refine @ih [] hback.symm ?_
            simpa [htext] using houtside.2
        | cons c' tail =>
            -- A character of this very token would not be outside of it.
            have hwidth := congrArg byteWidth htext
            have hpos := c'.utf8Size_pos
            have hinside := houtside.1
            simp only [Lexeme.token, byteWidth_append, byteWidth_cons] at hwidth hinside
            omega

/-! ## Sources -/

/-- A token between `before` and `after` that is as long as it can be. -/
structure Token.Munches (token : Token) (before after : List Char) : Prop where
  nonempty : token.text ≠ ""
  span : token.span = .behind before token.text.toList
  isToken : IsToken token.text.toList
  /-- Whatever else starts here and is a token is a part of this one. -/
  longest : ∀ text, text <+: token.text.toList ++ after → IsToken text →
    text <+: token.text.toList
  /-- A number does not run into a name. -/
  apart : ∀ x, token.kind = .number x → ∀ c ∈ after.head?, ¬isNameChar c

/-- Tokens into which a text is split. -/
structure Partition (cs : List Char) (tokens : List Token) : Prop where
  /-- The tokens stand one behind the other. -/
  order : Span.InOrder 0 (byteWidth cs) (tokens.map Token.span)
  /-- Each token is the text at its span. -/
  munches : ∀ token ∈ tokens, ∃ front back,
    cs = front ++ token.text.toList ++ back ∧ token.Munches front back
  /-- There is nothing but white space outside of them. -/
  blank : ∀ front c back, cs = front ++ c :: back →
    (∀ token ∈ tokens, byteWidth front < token.span.start ∨ token.span.stop ≤ byteWidth front) →
    Unicode.isBlank c

/-- A token as it is written is the longest that begins there, since what comes next is a character
at which it ends. -/
theorem Token.Written.munches {token : Token} {before after : List Char}
    (h : token.Written before after) : token.Munches before after where
  nonempty := by
    obtain ⟨c, cs, htext, -⟩ := h.whole
    intro hnil
    simp [Token.lexeme, hnil] at htext
  span := h.span
  isToken := isToken_iff.mpr ⟨token.lexeme, h.whole, rfl⟩
  longest _ htext htoken := h.whole.longest h.ends htext htoken
  apart x hx c hc := by
    have hends := h.ends c hc
    rw [Lexeme.EndsAt, show token.lexeme.kind = .number x from hx] at hends
    exact hends.1

/-- The tokens of a source are a partition of it: they stand one behind the other with nothing but
white space between them, and each of them is the longest token that starts where it does. -/
theorem partition_of_tokenize {source : String} {tokens : List Token}
    (h : tokenize source = .ok tokens) : Partition source.toList tokens := by
  have htokens := tokenize_eq_ok_iff.mp h
  refine ⟨inOrder_of_tokenize h, fun token htoken => ?_, ?_⟩
  · obtain ⟨front, back, hsource, hwritten⟩ := htokens.written token htoken
    exact ⟨front, back, hsource, hwritten.munches⟩
  · intro front c back hsource houtside
    exact htokens.isBlank_of_outside hsource houtside

/-- Points of two kinds, an operator that goes on and a number with an exponent. -/
theorem partition_of_tokenize_points :
    ∃ tokens, tokenize "ü.5.y >=1.e2|f" = .ok tokens ∧
      tokens.map Token.text = ["ü", ".5", ".", "y", ">=", "1.e2", "|", "f"] ∧
      Partition "ü.5.y >=1.e2|f".toList tokens := by
  obtain ⟨tokens, htokens, htexts⟩ :
      ∃ tokens, tokenize "ü.5.y >=1.e2|f" = .ok tokens ∧
        tokens.map Token.text = ["ü", ".5", ".", "y", ">=", "1.e2", "|", "f"] :=
    exists_eq_ok_of_toOption (by decide +kernel)
  exact ⟨tokens, htokens, htexts, partition_of_tokenize htokens⟩

end ReactiveTemplate
