import ReactiveTemplate.Proofs.Token.Locality

/-!
# Texts of decimals

A decimal is first taken off a text and then given a value. The value may as well be read off the
text of the decimal alone: this text always denotes a number.
-/

namespace ReactiveTemplate

/-- The double that a whole text denotes: digits, at least one of them, perhaps with a point in
front of them, behind them or among them, and an optional exponent. -/
def Binary64.ofText? (text : List Char) : Option Binary64 :=
  let whole := Part.run Char.isDigit text
  let fraction := readFraction whole.rest
  let exponent := readExponent fraction.rest
  if (whole.value ++ fraction.value).isEmpty || !exponent.rest.isEmpty then none
  else some (decimalValue whole.value fraction.value exponent.value)

/-- The text of the longest decimal at the head of a text. -/
def decimalText (cs : List Char) : List Char :=
  let whole := Part.run Char.isDigit cs
  let fraction := readFraction whole.rest
  whole.text ++ fraction.text ++ (readExponent fraction.rest).text

/-- A decimal has a digit in front of its exponent. -/
theorem decimal_digits_ne_nil {c : Char} {cs : List Char} (hstart : startsNumber c cs) :
    (Part.run Char.isDigit (c :: cs)).value ++
      (readFraction (Part.run Char.isDigit (c :: cs)).rest).value ≠ [] := by
  by_cases hdigit : c.isDigit
  · simp [Part.run, hdigit]
  · simp only [startsNumber, hdigit, Bool.false_or, Bool.and_eq_true, decide_eq_true_eq] at hstart
    obtain ⟨rfl, hnext⟩ := hstart
    cases cs with
    | nil => contradiction
    | cons d cs =>
        have hd : d.isDigit := hnext
        simp [Part.run, readFraction, hd]

/-- The text of a decimal denotes the number that reading gives it. -/
theorem readDecimal_eq_ofText? {c : Char} {cs : List Char} (hstart : startsNumber c cs) :
    ∃ x rest, Binary64.ofText? (decimalText (c :: cs)) = some x ∧
      decimalText (c :: cs) ++ rest = c :: cs ∧
      readDecimal (c :: cs) = endNumber (decimalText (c :: cs)) (some x) rest := by
  have hdigits := decimal_digits_ne_nil hstart
  have hwholeSplits := Part.run_splits Char.isDigit (c :: cs)
  generalize hwhole : Part.run Char.isDigit (c :: cs) = whole at hdigits hwholeSplits
  have hfractionSplits := readFraction_splits whole.rest
  generalize hfraction : readFraction whole.rest = fraction at hdigits hfractionSplits
  have hexponentSplits := readExponent_splits fraction.rest
  generalize hexponent : readExponent fraction.rest = exponent at hexponentSplits
  have htext : decimalText (c :: cs) = whole.text ++ (fraction.text ++ exponent.text) := by
    simp only [decimalText, hwhole, hfraction, hexponent, List.append_assoc]
  refine ⟨decimalValue whole.value fraction.value exponent.value, exponent.rest, ?_, ?_, ?_⟩
  · have hname : ∀ c ∈ ([] : List Char).head?, ¬isNameChar c := by simp
    obtain ⟨hW, hF, hE⟩ := decimal_append hwhole hfraction hexponent hname (by simp)
    simp only [List.append_nil] at hW hF hE
    simp only [htext, Binary64.ofText?, hW, hF, hE]
    simp [hdigits]
  · rw [htext, List.append_assoc, List.append_assoc, hexponentSplits, hfractionSplits, hwholeSplits]
  · simp only [readDecimal, htext, hwhole, hfraction, hexponent, List.append_assoc]

end ReactiveTemplate
