import ReactiveTemplate.Proofs.Expr.Grouping
import ReactiveTemplate.Proofs.Expr.Soundness
import ReactiveTemplate.Proofs.Expr.Source
import ReactiveTemplate.Proofs.Template.Passage

/-!
# Expressions are balanced

The brackets of a derivation match. So the reader of bodies, which keeps a stack of them, comes out
of an expression with the stack that it went in with.
-/

namespace ReactiveTemplate

open ReactiveTemplate.Body

/-- Tokens whose brackets match. -/
def Balanced (w : List Token) : Prop :=
  ∀ closers, (w.map Token.lexeme).foldlM Closers.behind? closers = some closers

theorem balanced_nil : Balanced [] :=
  fun _ => rfl

/-- Two balanced runs of tokens are balanced together: whatever closing brackets are waited for
before them is waited for behind them. -/
theorem Balanced.append {w w' : List Token} (h : Balanced w) (h' : Balanced w') :
    Balanced (w ++ w') := by
  intro closers
  rw [List.map_append, List.foldlM_append, h closers]
  exact h' closers

theorem Balanced.cons {token : Token} {w : List Token} (h : Balanced [token]) (h' : Balanced w) :
    Balanced (token :: w) :=
  h.append h'

/-- Balanced tokens may stand anywhere between balanced ones. -/
theorem Balanced.insert {token : Token} {w w' : List Token} (h : Balanced w)
    (h' : Balanced (token :: w')) : Balanced (token :: (w ++ w')) := by
  intro closers
  have hrest := h' closers
  rw [List.map_cons, List.foldlM_cons] at hrest ⊢
  obtain ⟨inner, hinner, hrest⟩ := Option.bind_eq_some_iff.mp hrest
  rw [hinner, Option.bind_eq_bind, Option.bind_some, List.map_append, List.foldlM_append, h inner]
  exact hrest

/-! ## Tokens -/

namespace Token

variable {token : Token} {text : String}

theorem lexeme_of_isPunctuation (h : token.isPunctuation text) :
    token.lexeme = ⟨.punctuation, text.toList⟩ := by
  obtain ⟨hkind, htext⟩ := Token.isPunctuation_iff.mp h
  rw [Token.lexeme, hkind, htext]

/-- A separator is no bracket. -/
theorem balanced_of_isPunctuation (h : token.isPunctuation text)
    (htext : text ∈ [",", ".", "?", ":"]) : Balanced [token] := by
  intro closers
  rw [List.map_singleton, lexeme_of_isPunctuation h]
  simp only [List.mem_cons, List.not_mem_nil, or_false] at htext
  rcases htext with rfl | rfl | rfl | rfl <;> rfl

/-- A token that is no bracket changes nothing in what is waited for, whatever the text of a string
may contain. -/
theorem IsPlain.balanced (h : token.IsPlain) : Balanced [token] := by
  by_cases hkind : token.kind = .punctuation
  · exact balanced_of_isPunctuation (Token.isPunctuation_iff.mpr ⟨hkind, rfl⟩)
      (List.mem_cons_of_mem _ (h hkind))
  · intro closers
    rw [List.map_singleton, List.foldlM_cons, Closers.behind?_of_ne hkind]
    rfl

theorem Matches.balanced {opener : Token} (h : opener.Matches text)
    (hclose : token.isPunctuation text) : Balanced [opener, token] := by
  intro closers
  rw [List.map_cons, List.map_singleton, lexeme_of_isPunctuation hclose]
  cases h with
  | round hopen | square hopen | curly hopen =>
      rw [lexeme_of_isPunctuation hopen]
      rfl

end Token

/-! ## Derivations -/

/-- Tokens whose brackets match are balanced for the reader of bodies, too, which knows nothing of
the grammar. -/
theorem Grouped.balanced {commas : Bool} {w : List Token} (h : Grouped commas w) : Balanced w := by
  induction h with
  | nil => exact balanced_nil
  | plain htoken _ ih => exact htoken.balanced.cons ih
  | comma htoken _ ih => exact (Token.balanced_of_isPunctuation htoken (by simp)).cons ih
  | group hopen _ hclose _ hinner ih =>
      exact hinner.insert ((hopen.balanced hclose).append ih)

/-- The tokens of an expression are balanced, by the matching of brackets in derivations. So an
expression does not close the bracket around it. -/
theorem DerivesSource.balanced {w : List Token} {es : List Expr} {d : Nat}
    (h : DerivesSource w es d) : Balanced w := by
  cases h with
  | empty => exact balanced_nil
  | list h => exact h.grouped.balanced

/-- The reader of bodies comes out of an expression as it went in. -/
theorem passes_of_parse {source : String} {es : List Expr} (h : parse source = .ok es)
    (closers : Closers) :
    Passes ⟨closers, .plain⟩ source.toList ⟨closers, .plain⟩ := by
  obtain ⟨lexemes, hlexes, hread⟩ := exists_lexes_of_parse h
  obtain ⟨d, hderives⟩ := DerivesSource.of_ofTokens hread
  have hbalanced := hderives.balanced closers
  rw [List.map_map] at hbalanced
  refine passes_lexes hlexes ?_
  simpa [Function.comp_def, Lexeme.bare] using hbalanced

end ReactiveTemplate
