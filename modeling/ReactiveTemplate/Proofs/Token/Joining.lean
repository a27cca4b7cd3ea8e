import ReactiveTemplate.Proofs.Token.Resumption

/-!
# Texts put together

The tokens of a text behind another are those that it has alone, moved. So a text can be cut in
front of each of its tokens and behind it, and texts can be put together wherever the last token of
the first ends in front of the second.
-/

namespace ReactiveTemplate

open Spanned

/-- No token goes on with a comma. -/
theorem Lexeme.endsAt_comma (lexeme : Lexeme) : lexeme.EndsAt ',' := by
  have hname : ¬isNameChar ',' := by decide
  unfold EndsAt
  split
  · exact hname
  · exact ⟨hname, fun hpoint => absurd hpoint (by decide)⟩
  · trivial
  · exact fun _ => by decide
  · intro operator hoperator hprefix
    have hall : ∀ c ∈ operators.flatten, c ≠ ',' := forall_mem_of_all (by decide)
    refine hall ',' (List.mem_flatten_of_mem hoperator ?_) rfl
    exact hprefix.mem (List.mem_append_right _ List.mem_cons_self)

/-- The tokens of a text somewhere are those of the text alone, moved. -/
theorem tokenizes_iff {before cs : List Char} {tokens : List Token} :
    Tokenizes before cs tokens ↔ ∃ tokens', tokenize (String.ofList cs) = .ok tokens' ∧
      tokens = mapSpans (·.shift (byteWidth before)) tokens' := by
  have hshift := congrArg Prod.fst (Cursor.tokensFrom_shift (byteWidth before) [] 0 cs)
  rw [mapSpans_nil, Nat.zero_add] at hshift
  dsimp only at hshift
  rw [tokenize, Cursor.ofSource, String.toList_ofList, Cursor.tokens]
  dsimp only
  constructor
  · intro h
    have hread := Cursor.tokensFrom_of_tokenizes h []
    rw [hshift] at hread
    cases halone : (Cursor.tokensFrom [] 0 cs).1 with
    | error e =>
        rw [halone] at hread
        contradiction
    | ok tokens' =>
        rw [halone] at hread
        cases hread
        exact ⟨tokens', rfl, rfl⟩
  · rintro ⟨tokens', halone, rfl⟩
    rw [halone] at hshift
    obtain ⟨more, hmore, htokens⟩ := Cursor.tokenizes_of_tokensFrom hshift rfl
    rwa [hmore]

namespace Tokenizes

variable {before cs cs' : List Char} {tokens tokens' : List Token}

/-- Tokens of two texts in a row are those of the texts, if each token of the first would end in
front of the second. -/
theorem append (h : Tokenizes before cs tokens) (h' : Tokenizes (before ++ cs) cs' tokens')
    (hends : ∀ token ∈ tokens, ∀ c ∈ cs'.head?, token.lexeme.EndsAt c) :
    Tokenizes before (cs ++ cs') (tokens ++ tokens') := by
  induction h with
  | nil => simpa using h'
  | @blank before cs c tokens hc _ ih =>
      refine .blank hc (ih ?_ hends)
      simpa using h'
  | @lexeme before cs rest c lexeme tokens hc hread _ ih =>
      rw [List.forall_mem_cons, Lexeme.lexeme_token] at hends
      have happend := append_readLexeme hread
      obtain ⟨d, text, htext⟩ := List.exists_cons_of_ne_nil (readLexeme_ne_nil hread)
      rw [htext, List.cons_append, List.cons.injEq] at happend
      obtain ⟨rfl, rfl⟩ := happend
      have hrest : ∀ c ∈ (rest ++ cs').head?, lexeme.EndsAt c := by
        cases rest with
        | nil => exact hends.1
        | cons d rest => exact fun c hc => endsAt_of_readLexeme hread c hc
      rw [List.cons_append, List.append_assoc]
      refine .lexeme hc (readLexeme_append hread htext hrest) (ih ?_ hends.2)
      rw [htext, List.append_assoc]
      exact h'

/-- A text is cut in front of any of its tokens, and behind it. -/
theorem split {token : Token} (h : Tokenizes before cs (tokens ++ token :: tokens')) :
    ∃ front back, cs = front ++ token.text.toList ++ back ∧ Tokenizes before front tokens ∧
      token.span = .behind (before ++ front) token.text.toList ∧
      Tokenizes (before ++ front ++ token.text.toList) back tokens' := by
  generalize hall : tokens ++ token :: tokens' = all at h
  induction h generalizing tokens with
  | nil => simp at hall
  | @blank before cs c all hc _ ih =>
      obtain ⟨front, back, rfl, hfront, hspan, hback⟩ := ih hall
      refine ⟨c :: front, back, rfl, .blank hc hfront, ?_, ?_⟩
      · simpa using hspan
      · simpa using hback
  | @lexeme before cs rest c lexeme all hc hread hrest ih =>
      have happend := append_readLexeme hread
      cases tokens with
      | nil =>
          cases hall
          refine ⟨[], rest, ?_, .nil, ?_, ?_⟩
          · simp [Lexeme.token, happend]
          · simp [Lexeme.token, Span.behind]
          · simpa [Lexeme.token] using hrest
      | cons first tokens =>
          rw [List.cons_append, List.cons.injEq] at hall
          obtain ⟨rfl, hall⟩ := hall
          obtain ⟨front, back, rfl, hfront, hspan, hback⟩ := ih hall
          obtain ⟨d, text, htext⟩ := List.exists_cons_of_ne_nil (readLexeme_ne_nil hread)
          have hd : d = c := by
            rw [htext, List.cons_append, List.cons.injEq] at happend
            exact happend.1
          subst hd
          have hends : ∀ c ∈ front.head?, lexeme.EndsAt c := by
            intro c hc
            refine endsAt_of_readLexeme hread c ?_
            rw [List.append_assoc, List.head?_append, Option.mem_def.mp hc]
            rfl
          refine ⟨d :: (text ++ front), back, ?_, ?_, ?_, ?_⟩
          · rw [← happend, htext]
            simp
          · exact .lexeme hc (readLexeme_append hread htext hends) hfront
          · simpa [htext] using hspan
          · simpa [htext] using hback

end Tokenizes

end ReactiveTemplate
