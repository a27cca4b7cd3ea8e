import ReactiveTemplate.Proofs.Expr.Source

/-!
# White space between tokens

How far apart the tokens of a source stand does not matter: with other white space between them the
source has the same tokens and is read alike. What white space is needed for is to keep two tokens
apart that would be read as others.
-/

namespace ReactiveTemplate

/-- A way to write tokens with white space between them. -/
structure Spacing (tokens : List Token) where
  /-- Each token behind the white space in front of it. -/
  pieces : List (List Char × Token)
  /-- The white space behind the last token. -/
  trail : List Char
  pieces_snd : pieces.map Prod.snd = tokens
  blank : ∀ c ∈ pieces.flatMap Prod.fst ++ trail, Unicode.isBlank c
  /-- There is some white space between any two tokens. -/
  apart : ∀ piece ∈ pieces.tail, piece.1 ≠ []

namespace Spacing

/-- The text of tokens, each behind some white space. -/
def textOf (pieces : List (List Char × Token)) : List Char :=
  pieces.flatMap fun (gap, token) => gap ++ token.text.toList

/-- The tokens of a source, as they are spaced. -/
def source {tokens : List Token} (spacing : Spacing tokens) : String :=
  String.ofList (textOf spacing.pieces ++ spacing.trail)

/-- The same white space in front of every token. -/
def evenly {gap : List Char} (hgap : ∀ c ∈ gap, Unicode.isBlank c) (hne : gap ≠ [])
    (tokens : List Token) : Spacing tokens where
  pieces := tokens.map fun token => (gap, token)
  trail := []
  pieces_snd := by simp [Function.comp_def]
  blank := by
    intro c hc
    simp only [List.append_nil, List.mem_flatMap, List.mem_map] at hc
    obtain ⟨-, ⟨token, -, rfl⟩, hc⟩ := hc
    exact hgap c hc
  apart := by
    intro piece hpiece
    obtain ⟨token, -, rfl⟩ := List.mem_map.mp (List.mem_of_mem_tail hpiece)
    exact hne

/-- With one gap in front of every token, a source is the texts of its tokens, each behind that
gap. -/
theorem source_evenly {gap : List Char} (hgap : ∀ c ∈ gap, Unicode.isBlank c) (hne : gap ≠ [])
    (tokens : List Token) : (evenly hgap hne tokens).source =
      String.ofList ((tokens.map Token.text).flatMap fun text => gap ++ text.toList) := by
  simp [source, evenly, textOf, List.flatMap_map]

end Spacing

/-! ## Lexemes of spaced tokens -/

theorem Lexes.append_blanks {cs gap : List Char} {lexemes : List Lexeme} (h : Lexes cs lexemes)
    (hgap : ∀ c ∈ gap, Unicode.isBlank c) : Lexes (gap ++ cs) lexemes := by
  induction gap with
  | nil => exact h
  | cons c gap ih =>
      obtain ⟨hc, hgap⟩ := List.forall_mem_cons.mp hgap
      exact .blank hc (ih hgap)

namespace Spacing

variable {pieces : List (List Char × Token)} {trail : List Char}

/-- Behind a token comes either nothing or white space. -/
theorem isBlank_of_head (hblank : ∀ c ∈ pieces.flatMap Prod.fst ++ trail, Unicode.isBlank c)
    (happart : ∀ piece ∈ pieces, piece.1 ≠ []) :
    ∀ c ∈ (textOf pieces ++ trail).head?, Unicode.isBlank c := by
  intro c hc
  cases pieces with
  | nil => exact hblank c (List.mem_of_head? hc)
  | cons piece pieces =>
      obtain ⟨gap, token⟩ := piece
      obtain ⟨d, gap, rfl⟩ := List.exists_cons_of_ne_nil (happart _ List.mem_cons_self)
      cases hc
      exact hblank c (by simp)

/-- Whole tokens with blanks between them are read as they are: each ends in front of a blank, and
at the end of the text. -/
theorem lexes_textOf (hwhole : ∀ piece ∈ pieces, piece.2.lexeme.IsWhole)
    (hblank : ∀ c ∈ pieces.flatMap Prod.fst ++ trail, Unicode.isBlank c)
    (happart : ∀ piece ∈ pieces.tail, piece.1 ≠ []) :
    Lexes (textOf pieces ++ trail) ((pieces.map Prod.snd).map Token.lexeme) := by
  induction pieces with
  | nil => simpa [textOf] using Lexes.nil.append_blanks hblank
  | cons piece pieces ih =>
      obtain ⟨gap, token⟩ := piece
      obtain ⟨htoken, hwhole⟩ := List.forall_mem_cons.mp hwhole
      rw [List.flatMap_cons, List.append_assoc, List.forall_mem_append] at hblank
      have hnext := isBlank_of_head hblank.2 happart
      have hrest := ih hwhole hblank.2 fun piece hpiece =>
        happart piece (List.mem_of_mem_tail hpiece)
      have hlexes := htoken.lexes (fun c hc => token.lexeme.endsAt_of_isBlank (hnext c hc)) hrest
      simpa [textOf, Token.lexeme] using hlexes.append_blanks hblank.1

/-- However the tokens of a source are spaced, the same lexemes are read. No token is lost, joined
or cut in two. -/
theorem lexes {tokens : List Token} (spacing : Spacing tokens)
    (hwhole : ∀ token ∈ tokens, token.lexeme.IsWhole) :
    Lexes spacing.source.toList (tokens.map Token.lexeme) := by
  obtain ⟨pieces, trail, rfl, hblank, happart⟩ := spacing
  rw [source, String.toList_ofList]
  refine lexes_textOf (fun piece hpiece => ?_) hblank happart
  exact hwhole piece.2 (List.mem_map_of_mem hpiece)

end Spacing

/-! ## Sources -/

/-- With other white space between its tokens a source has the same tokens, apart from their places.
It is read as the same trees or refused for the same reason, apart from the spans in either. -/
theorem parse_spacing {source : String} {tokens : List Token} (h : tokenize source = .ok tokens)
    (spacing : Spacing tokens) :
    (∃ tokens', tokenize spacing.source = .ok tokens' ∧
      tokens'.map Token.lexeme = tokens.map Token.lexeme) ∧
    (∀ es, parse source = .ok es →
      ∃ es', parse spacing.source = .ok es' ∧ bare es' = bare es) ∧
    ∀ e, parse source = .error e → ∃ span, parse spacing.source = .error { e with span } := by
  have hlexes := lexes_of_tokenize h
  have hspaced := spacing.lexes fun token htoken =>
    hlexes.isWhole token.lexeme (List.mem_map_of_mem htoken)
  have hbare := bare_parse_eq hspaced hlexes
  refine ⟨tokenize_of_lexes hspaced, ?_, ?_⟩
  · intro es hes
    rw [hes] at hbare
    cases hparse : parse spacing.source with
    | error e =>
        rw [hparse] at hbare
        cases hbare
    | ok es' =>
        rw [hparse] at hbare
        exact ⟨es', rfl, Except.ok.inj hbare⟩
  · intro e he
    rw [he] at hbare
    cases hparse : parse spacing.source with
    | error e' =>
        rw [hparse] at hbare
        exact ⟨e'.span, by rw [← fault_of_bare_eq (Except.error.inj hbare)]⟩
    | ok es =>
        rw [hparse] at hbare
        cases hbare

/-- A point that starts a number right behind a question mark, here with line breaks in between. -/
theorem parse_spacing_number :
    ∃ tokens, ∃ _ : tokenize "x?.5:y|f" = .ok tokens, ∃ spacing : Spacing tokens,
      spacing.source = "\n x\n ?\n .5\n :\n y\n |\n f" ∧
      ∀ es, parse "x?.5:y|f" = .ok es →
        ∃ es', parse spacing.source = .ok es' ∧ bare es' = bare es := by
  obtain ⟨tokens, htokens, htexts⟩ :
      ∃ tokens, tokenize "x?.5:y|f" = .ok tokens ∧
        tokens.map Token.text = ["x", "?", ".5", ":", "y", "|", "f"] :=
    exists_eq_ok_of_toOption (by decide +kernel)
  have hgap : ∀ c ∈ ['\n', ' '], Unicode.isBlank c := List.all_eq_true.mp (by decide)
  let spacing := Spacing.evenly hgap (List.cons_ne_nil _ _) tokens
  refine ⟨tokens, htokens, spacing, ?_, (parse_spacing htokens spacing).2.1⟩
  rw [Spacing.source_evenly, htexts]
  decide +kernel

end ReactiveTemplate
