import ReactiveTemplate.Proofs.Token.Locality

/-!
# Why reading halts

Where no token can be read, the fault is one of the first stage, and the text that it quotes is the
offending text itself. That text is never empty, so reading behind it gets on.
-/

namespace ReactiveTemplate

/-! ## Texts in messages -/

namespace FaultKind

/-- The words around the text that messages of a kind quote, if they quote one. -/
def quotation? : FaultKind → Option (String × String)
  | invalidToken | unexpectedToken | mismatchedBracket => some ("Unexpected token \"", "\"")
  | invalidEscape => some ("Invalid escape sequence \"", "\"")
  | notPrimaryExpression => some ("Token \"", "\" is not a primary expression")
  | invalidKey => some ("Invalid key \"", "\"")
  | invalidIdentifier => some ("Token \"", "\" is not a valid identifier")
  | unterminatedString | unexpectedEndOfExpression | nestingTooDeep | unexpectedEndOfSource => none

end FaultKind

namespace Fault

/-- The text that the message of a fault quotes. -/
def quoted? : Fault → Option String
  | invalidToken text | invalidEscape text | unexpectedToken text _ | notPrimaryExpression text
  | invalidKey text | invalidIdentifier text => some text
  | mismatchedBracket found _ => some found.toString
  | unterminatedString _ | unfinishedEscape | unexpectedEndOfExpression | nestingTooDeep
  | unexpectedEndOfSource _ => none

/-- A message consists of the words of its kind and the text between them. -/
theorem exists_quoted {fault : Fault} {words : String × String}
    (h : fault.kind.quotation? = some words) :
    ∃ text, fault.quoted? = some text ∧ fault.message = words.1 ++ text ++ words.2 := by
  cases fault <;> cases h <;> exact ⟨_, rfl, rfl⟩

end Fault

/-! ## Halts -/

/-- Reading halts at a text, for a fault that is about this text. -/
structure Halt.Stands (halt : Halt) : Prop where
  nonempty : halt.text ≠ []
  phase : halt.fault.kind.phase = .tokens
  quoted : ∀ text ∈ halt.fault.quoted?, text = String.ofList halt.text

/-- A string that is refused is refused for an escape, or as a whole for want of its closing quote;
both are quoted as they stand. -/
theorem stands_of_readStringFrom {quote : Char} {taken value cs : List Char} {halt : Halt}
    (h : readStringFrom quote taken value cs = .error halt) (htaken : taken ≠ []) :
    halt.Stands := by
  fun_induction readStringFrom quote taken value cs with
  | case1 taken value =>
      cases h
      exact ⟨by simpa using htaken, rfl, by simp [Fault.quoted?]⟩
  | case2 => contradiction
  | case3 _ _ _ _ _ _ _ _ ih => exact ih h (by simp)
  | case4 =>
      cases h
      exact ⟨by simp, rfl, by simp [Fault.quoted?]⟩
  | case5 =>
      cases h
      exact ⟨by simp, rfl, by simp [Fault.quoted?]⟩
  | case6 _ _ _ _ _ _ ih => exact ih h (by simp)

/-- A number that is refused runs into a name or has no value. Either way the error covers some of
its text. -/
theorem stands_of_endNumber {text rest : List Char} {value : Option Binary64} {halt : Halt}
    (h : endNumber text value rest = .error halt) (htext : text ≠ []) : halt.Stands := by
  have hwrong : (⟨.invalidToken (String.ofList (text ++ rest.takeWhile isNameChar)), [],
      text ++ rest.takeWhile isNameChar, rest.dropWhile isNameChar⟩ : Halt).Stands :=
    ⟨by simp [htext], rfl, by simp [Fault.quoted?]⟩
  unfold endNumber at h
  dsimp only at h
  split at h
  · split at h
    · cases h
      exact hwrong
    · contradiction
  · cases h
    exact hwrong

/-- A number is refused with an error of the tokenizer that covers what it quotes, whichever radix
it has. -/
theorem stands_of_readNumber {c : Char} {cs : List Char} {halt : Halt}
    (hstart : startsNumber c cs) (h : readNumber (c :: cs) = .error halt) : halt.Stands := by
  have hdecimal (h : readDecimal (c :: cs) = .error halt) : halt.Stands := by
    unfold readDecimal at h
    exact stands_of_endNumber h (List.append_ne_nil_of_left_ne_nil (decimal_ne_nil hstart) _)
  unfold readNumber at h
  split at h
  · split at h
    · exact stands_of_endNumber h (by simp)
    · exact hdecimal h
  · exact hdecimal h

/-- Whatever stops the tokenizer, the text in question is not empty, and the message quotes just
that text. -/
theorem stands_of_readLexeme {c : Char} {cs : List Char} {halt : Halt}
    (h : readLexeme c cs = .error halt) : halt.Stands := by
  unfold readLexeme at h
  split at h
  · contradiction
  · split at h
    · exact stands_of_readStringFrom h (by simp)
    · split at h
      · next hstart => exact stands_of_readNumber hstart h
      · split at h
        · contradiction
        · split at h
          · contradiction
          · cases h
            exact ⟨by simp, rfl, by simp [Fault.quoted?, Char.toString]⟩

/-- An error is that of a halt, and reading stops behind the offending text. -/
theorem Cursor.exists_halt {done : List Token} {offset : Nat} {cs : List Char} {e : SyntaxError}
    (h : (tokensFrom done offset cs).1 = .error e) :
    ∃ front c rest halt, cs = front ++ c :: rest ∧ ¬Unicode.isBlank c ∧
      readLexeme c rest = .error halt ∧ e = halt.error (offset + byteWidth front) ∧
      (tokensFrom done offset cs).2 = ⟨e.span.stop, halt.rest⟩ := by
  fun_induction tokensFrom done offset cs with
  | case1 => contradiction
  | case2 done offset c cs hblank ih =>
      obtain ⟨front, d, rest, halt, rfl, hd, hread, rfl, hstop⟩ := ih h
      refine ⟨c :: front, d, rest, halt, rfl, hd, hread, ?_, hstop⟩
      rw [byteWidth_cons, Nat.add_assoc]
  | case3 done offset c cs hblank lexeme rest hread width ih =>
      obtain ⟨front, d, rest', halt, rfl, hd, hhalt, rfl, hstop⟩ := ih h
      refine ⟨lexeme.text ++ front, d, rest', halt, ?_, hd, hhalt, ?_, hstop⟩
      · rw [List.append_assoc, append_readLexeme hread]
      · rw [byteWidth_append, Nat.add_assoc]
  | case4 done offset c cs hblank halt hread error =>
      have herror : error = e := Except.error.inj h
      rw [← herror]
      exact ⟨[], c, cs, halt, rfl, hblank, hread, rfl, rfl⟩

end ReactiveTemplate
