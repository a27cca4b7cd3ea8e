import ReactiveTemplate.Proofs.Expr.Borders
import ReactiveTemplate.Proofs.Token.Halting
import ReactiveTemplate.Proofs.Token.Partition

/-!
# Where sources are refused

An error names a piece of the source that it is about. Whether reading halts at the text of a token
or at tokens that are in a wrong place, the span of the error covers such a piece; where the tokens
run out, this is the empty text at the end.
-/

namespace ReactiveTemplate

/-! ## Tokens that cannot be read -/

/-- The offending text of a halt stands where the error says. -/
theorem Halt.covers_error {halt : Halt} {before cs : List Char}
    (h : halt.before ++ halt.text ++ halt.rest = cs) :
    (halt.error (byteWidth before)).span.Covers (before ++ cs) halt.text := by
  refine ⟨before ++ halt.before, halt.rest, by simp [← h], ?_⟩
  simp [Halt.error, Span.behind, Nat.add_assoc]

/-- The span of an error of the tokenizer covers a piece of the source, with its ends between
characters. -/
theorem covers_of_tokenize_eq_error {source : String} {e : SyntaxError}
    (h : tokenize source = .error e) : ∃ text, e.span.Covers source.toList text := by
  obtain ⟨front, c, rest, halt, hsource, -, hread, rfl, -⟩ := Cursor.exists_halt h
  rw [show source.toList = front ++ c :: rest from hsource, Cursor.ofSource, Nat.zero_add]
  exact ⟨halt.text, Halt.covers_error (append_halt hread)⟩

/-! ## Tokens in a wrong place -/

/-- A span between borders of tokens covers a piece of the source, since tokens begin and end
between characters. -/
theorem Span.Bordered.covers {tokens : List Token} {cs : List Char} {span : Span}
    (h : span.Bordered tokens) (htokens : Tokenizes [] cs tokens) (hle : span.start ≤ span.stop) :
    ∃ text, span.Covers cs text := by
  obtain ⟨first, hfirst, hstart⟩ := h.first
  obtain ⟨last, hlast, hstop⟩ := h.last
  rw [← hstart, ← hstop] at hle
  obtain ⟨text, htext⟩ := (htokens.covers hfirst).upTo (htokens.covers hlast) hle
  rw [hstart, hstop] at htext
  exact ⟨text, htext⟩

/-- The tokens cannot be read, or they run out, or some of them are in a wrong place. -/
theorem place_of_parse_eq_error {source : String} {e : SyntaxError} (h : parse source = .error e) :
    tokenize source = .error e ∨ e.span = .point (byteWidth source.toList) ∨
      ∃ tokens, tokenize source = .ok tokens ∧ e.span.Bordered tokens ∧
        e.span.start ≤ e.span.stop := by
  rw [parse] at h
  split at h
  · next htokens =>
      cases h
      exact .inl htokens
  · next tokens htokens =>
      split at h
      · contradiction
      · next refusal hread =>
          cases h
          rw [Refusal.error]
          cases hplace : refusal.place with
          | none =>
              rw [byteWidth_toList]
              exact .inr (.inl rfl)
          | some span =>
              have hmade := madeOf_of_refusal hread hplace
              have hpos := hmade.nonempty fun token htoken =>
                ((inOrder_of_tokenize htokens).bounds_of_mem (List.mem_map_of_mem htoken)).2.1
              exact .inr (.inr ⟨tokens, htokens, hmade.bordered, Nat.le_of_lt hpos⟩)

/-- The error of a source that is refused covers a piece of the source. -/
theorem covers_of_parse_eq_error {source : String} {e : SyntaxError} (h : parse source = .error e) :
    ∃ text, e.span.Covers source.toList text := by
  rcases place_of_parse_eq_error h with htokens | hend | ⟨tokens, htokens, hbordered, hle⟩
  · exact covers_of_tokenize_eq_error htokens
  · rw [hend]
    exact ⟨[], .point_end _⟩
  · exact hbordered.covers (tokenize_eq_ok_iff.mp htokens) hle

end ReactiveTemplate
