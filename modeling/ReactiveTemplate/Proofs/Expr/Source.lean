import ReactiveTemplate.Proofs.Expr.Spans
import ReactiveTemplate.Proofs.Token.Lexing

/-!
# Sources and their lexemes

What a source is read as depends on its lexemes alone, apart from the spans of the trees.
-/

namespace ReactiveTemplate

/-- The lexeme as a token without a place of its own. -/
def Lexeme.bare (lexeme : Lexeme) : Token :=
  lexeme.token 0 0

theorem bare_token (token : Token) : token.lexeme.bare = bare token := by
  simp [Lexeme.bare, Lexeme.token, Token.lexeme, bare, Spanned.mapSpans, Span.point]

/-- Without their spans the tokens of a source are its lexemes, so that what is said of lexemes can
be said of tokens. -/
theorem bare_tokens (tokens : List Token) :
    bare tokens = (tokens.map Token.lexeme).map Lexeme.bare := by
  induction tokens with
  | nil => rfl
  | cons token tokens ih =>
      rw [List.map_cons, List.map_cons, ← ih, bare_token]
      rfl

instance : Spanned SyntaxError :=
  ⟨fun f e => { e with span := f e.span }⟩

/-- Without their spans, errors still tell their causes. -/
theorem fault_of_bare_eq {e e' : SyntaxError} (h : bare e = bare e') : e.fault = e'.fault := by
  simpa [bare, Spanned.mapSpans] using h

/-- What a source is parsed as is determined by its tokens without their spans, but for the spans of
the trees and of the error. -/
theorem bare_parse {source : String} {tokens : List Token} (h : tokenize source = .ok tokens) :
    bare (parse source) =
      (Expr.ofTokens (bare tokens)).mapError fun refusal => ⟨refusal.fault, .point 0⟩ := by
  rw [parse, h, ofTokens_bare]
  dsimp only
  cases Expr.ofTokens tokens <;> rfl

/-- Sources of the same lexemes are read alike. -/
theorem bare_parse_eq {source source' : String} {lexemes : List Lexeme}
    (h : Lexes source.toList lexemes) (h' : Lexes source'.toList lexemes) :
    bare (parse source) = bare (parse source') := by
  obtain ⟨tokens, htokens, hlexemes⟩ := tokenize_of_lexes h
  obtain ⟨tokens', htokens', hlexemes'⟩ := tokenize_of_lexes h'
  rw [bare_parse htokens, bare_parse htokens', bare_tokens, bare_tokens, hlexemes, hlexemes']

/-- A source that is read has lexemes, and these are read as the same trees. -/
theorem exists_lexes_of_parse {source : String} {es : List Expr} (h : parse source = .ok es) :
    ∃ lexemes, Lexes source.toList lexemes ∧
      Expr.ofTokens (lexemes.map Lexeme.bare) = .ok (bare es) := by
  obtain ⟨tokens, htokens, hread⟩ := parse_eq_ok_iff.mp h
  refine ⟨tokens.map Token.lexeme, lexes_of_tokenize htokens, ?_⟩
  rw [← bare_tokens, ofTokens_bare, hread]
  rfl

variable {source : String} {lexemes : List Lexeme}

/-- What the lexemes of a source are read as is what the source is read as. -/
theorem parse_of_lexes (h : Lexes source.toList lexemes) {es : List Expr}
    (hread : Expr.ofTokens (lexemes.map Lexeme.bare) = .ok es) :
    ∃ es', parse source = .ok es' ∧ bare es' = es := by
  obtain ⟨tokens, htokens, rfl⟩ := tokenize_of_lexes h
  rw [← bare_tokens, ofTokens_bare] at hread
  rw [parse, htokens]
  dsimp only
  cases hparse : Expr.ofTokens tokens with
  | error refusal =>
      rw [hparse] at hread
      contradiction
  | ok es' =>
      rw [hparse] at hread
      cases hread
      exact ⟨es', rfl, rfl⟩

/-- The fault of an error is a matter of the lexemes alone. The span may differ from source to
source. -/
theorem parse_error_of_lexes (h : Lexes source.toList lexemes) {refusal : Refusal}
    (hread : Expr.ofTokens (lexemes.map Lexeme.bare) = .error refusal) :
    ∃ span, parse source = .error ⟨refusal.fault, span⟩ := by
  obtain ⟨tokens, htokens, rfl⟩ := tokenize_of_lexes h
  rw [← bare_tokens, ofTokens_bare] at hread
  rw [parse, htokens]
  dsimp only
  cases hparse : Expr.ofTokens tokens with
  | error refusal =>
      rw [hparse] at hread
      cases hread
      exact ⟨_, rfl⟩
  | ok es =>
      rw [hparse] at hread
      contradiction

end ReactiveTemplate
