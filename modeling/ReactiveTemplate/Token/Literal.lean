import ReactiveTemplate.Text.Name
import ReactiveTemplate.Text.Part
import ReactiveTemplate.Token.Basic
import ReactiveTemplate.Token.Escape

/-!
# Literals

Strings stand between two quotes of one kind and may hold escapes. Numbers are decimal, with an
optional fraction and exponent, or integers to base two, eight or sixteen behind a prefix. A number
may not run into a name.
-/

namespace ReactiveTemplate

/-! ## Strings -/

/-- A string from inside it on: `taken` is its text so far, opening quote included, and `value` the
characters that it stands for, both in reverse. -/
def readStringFrom (quote : Char) (taken value : List Char) :
    List Char → Except Halt (Lexeme × List Char)
  | [] => .error ⟨.unterminatedString quote, [], taken.reverse, []⟩
  | c :: cs =>
      if c = quote then
        .ok (⟨.string (String.ofList value.reverse), (c :: taken).reverse⟩, cs)
      else if c = '\\' then
        match _hread : Escape.read cs with
        | .means meaning text rest =>
            readStringFrom quote (text.reverse ++ c :: taken) (meaning.reverse ++ value) rest
        | .malformed text rest =>
            .error ⟨.invalidEscape (String.ofList (c :: text)), taken.reverse, c :: text, rest⟩
        | .unfinished => .error ⟨.unfinishedEscape, [], (c :: taken).reverse, []⟩
      else readStringFrom quote (c :: taken) (c :: value) cs
  termination_by cs => cs.length
  decreasing_by
    · have hlength := Escape.length_le_of_read _hread
      simp only [List.length_cons]
      omega
    · simp

/-- A string, from its opening quote `quote` and the text `cs` after it. -/
def readString (quote : Char) (cs : List Char) : Except Halt (Lexeme × List Char) :=
  readStringFrom quote [quote] [] cs

/-! ## Numbers -/

/-- The least power of two that is out of range for a double. -/
def numberBound : Nat :=
  1 <<< 1024

/-- The number that digits to base `radix` denote. Each digit rounds the number so far once more; a
number that leaves the range stays infinite. -/
def radixValue (radix : Nat) (digits : List Char) : Binary64 :=
  let step (n : Option Nat) (c : Char) : Option Nat :=
    match n with
    | none => none
    | some n =>
        let n := roundNat (n * radix + digitValue c)
        if n < numberBound then some n else none
  match digits.foldl step (some 0) with
  | some n => .ofNat n
  | none => .infinity

/-- Whether `c` is a digit to base `radix`. -/
def isDigitOf (radix : Nat) (c : Char) : Bool :=
  isHexDigit c && digitValue c < radix

/-- The base that the letter after a leading zero stands for. -/
def radixOf? (c : Char) : Option Nat :=
  if c = 'b' || c = 'B' then some 2
  else if c = 'o' || c = 'O' then some 8
  else if c = 'x' || c = 'X' then some 16
  else none

/-- The size of an exponent. It stops growing once it is far out of range. -/
def exponentSize (digits : List Char) : Nat :=
  digits.foldl (fun n c => if n < 0x10000 then n * 10 + digitValue c else n) 0

/-- The double nearest to a decimal with the digits `whole` and `fraction` around its point. What is
at least `10 ^ 309` is infinite, and what is below `10 ^ (-324)` is zero. -/
def decimalValue (whole fraction : List Char) (exponent : Int) : Binary64 :=
  let digits := (whole ++ fraction).dropWhile (· == '0')
  let scale := exponent - fraction.length
  let magnitude := digits.length + scale
  if digits.isEmpty || magnitude ≤ -324 then ⟨0⟩
  else if 310 ≤ magnitude then .infinity
  else .ofScientific (digitsValue 10 digits) scale

/-- An optional sign, as the factor that it stands for. -/
def readSign : List Char → Part Int
  | '+' :: cs => ⟨1, ['+'], cs⟩
  | '-' :: cs => ⟨-1, ['-'], cs⟩
  | cs => ⟨1, [], cs⟩

/-- An optional exponent. A letter `e` that no digits follow is none. -/
def readExponent : List Char → Part Int
  | [] => ⟨0, [], []⟩
  | e :: cs =>
      let sign := readSign cs
      if (e = 'e' || e = 'E') && sign.rest.head?.any Char.isDigit then
        let digits := Part.run Char.isDigit sign.rest
        ⟨sign.value * exponentSize digits.value, e :: sign.text ++ digits.text, digits.rest⟩
      else ⟨0, [], e :: cs⟩

/-- An optional fraction, as its digits. -/
def readFraction : List Char → Part (List Char)
  | '.' :: cs =>
      let digits := Part.run Char.isDigit cs
      ⟨digits.value, '.' :: digits.text, digits.rest⟩
  | cs => ⟨[], [], cs⟩

/-- The number with the given text and value, unless it has none or a name follows at once. -/
def endNumber (text : List Char) (value : Option Binary64) (rest : List Char) :
    Except Halt (Lexeme × List Char) :=
  let wrong := text ++ rest.takeWhile isNameChar
  let halt : Halt :=
    ⟨.invalidToken (String.ofList wrong), [], wrong, rest.dropWhile isNameChar⟩
  match value with
  | some value =>
      if rest.head?.any isNameChar then .error halt else .ok (⟨.number value, text⟩, rest)
  | none => .error halt

/-- A decimal number. -/
def readDecimal (cs : List Char) : Except Halt (Lexeme × List Char) :=
  let whole := Part.run Char.isDigit cs
  let fraction := readFraction whole.rest
  let exponent := readExponent fraction.rest
  endNumber (whole.text ++ fraction.text ++ exponent.text)
    (some (decimalValue whole.value fraction.value exponent.value)) exponent.rest

/-- An integer to base `radix`, from the text `cs` after its prefix `mark`. -/
def readRadix (radix : Nat) (mark cs : List Char) : Except Halt (Lexeme × List Char) :=
  let digits := Part.run (isDigitOf radix) cs
  endNumber (mark ++ digits.text)
    (if digits.value.isEmpty then none else some (radixValue radix digits.value)) digits.rest

/-- A number. -/
def readNumber (cs : List Char) : Except Halt (Lexeme × List Char) :=
  match cs with
  | '0' :: letter :: rest =>
      match radixOf? letter with
      | some radix => readRadix radix ['0', letter] rest
      | none => readDecimal cs
  | _ => readDecimal cs

/-! ## Nothing is lost

What a literal takes off a text and what comes after it make up the text, and so does what reading
takes off before it halts.
-/

/-- Nothing of the text `cs` is lost where a lexeme is read off it or reading halts. -/
def Keeps (cs : List Char) : Except Halt (Lexeme × List Char) → Prop
  | .ok (lexeme, rest) => lexeme.text ++ rest = cs
  | .error halt => halt.before ++ halt.text ++ halt.rest = cs

/-- A string takes its text off what it was read from. If it is refused, the text in question stands
in the same source. -/
theorem readStringFrom_keeps (quote : Char) (taken value cs : List Char) :
    Keeps (taken.reverse ++ cs) (readStringFrom quote taken value cs) := by
  fun_induction readStringFrom quote taken value cs with
  | case1 => simp [Keeps]
  | case2 => simp [Keeps]
  | case3 taken value cs meaning text rest hread hquote ih =>
      rw [← Escape.append_read hread]
      simpa using ih
  | case4 taken value cs text rest hread hquote =>
      have happend : text ++ rest = cs := by
        have hsplit := Escape.read_splits cs
        rwa [hread] at hsplit
      simp [Keeps, happend]
  | case5 taken value cs hread hquote =>
      have hnil : cs = [] := by
        have hsplit := Escape.read_splits cs
        rwa [hread] at hsplit
      simp [Keeps, hnil]
  | case6 taken value c cs hquote hescape ih => simpa using ih

theorem readString_keeps (quote : Char) (cs : List Char) :
    Keeps (quote :: cs) (readString quote cs) :=
  readStringFrom_keeps quote [quote] [] cs

theorem readFraction_splits (cs : List Char) : (readFraction cs).Splits cs := by
  unfold readFraction
  split
  · next cs => exact congrArg ('.' :: ·) (Part.run_splits _ cs)
  · rfl

theorem readSign_splits (cs : List Char) : (readSign cs).Splits cs := by
  unfold readSign
  split <;> rfl

theorem readExponent_splits (cs : List Char) : (readExponent cs).Splits cs := by
  unfold readExponent
  split
  · rfl
  · next e cs =>
      dsimp only
      split
      · have hsign := readSign_splits cs
        have hdigits := Part.run_splits Char.isDigit (readSign cs).rest
        simp only [Part.Splits] at hsign hdigits ⊢
        simp [hdigits, hsign]
      · rfl

theorem eq_of_endNumber {text rest rest' : List Char} {value : Option Binary64} {lexeme : Lexeme}
    (h : endNumber text value rest = .ok (lexeme, rest')) : lexeme.text = text ∧ rest' = rest := by
  unfold endNumber at h
  dsimp only at h
  split at h
  · split at h
    · contradiction
    · cases h
      exact ⟨rfl, rfl⟩
  · contradiction

theorem endNumber_keeps {text rest cs : List Char} (value : Option Binary64)
    (h : text ++ rest = cs) : Keeps cs (endNumber text value rest) := by
  have hwrong : text ++ rest.takeWhile isNameChar ++ rest.dropWhile isNameChar = cs := by
    rw [List.append_assoc, List.takeWhile_append_dropWhile, h]
  unfold endNumber
  dsimp only
  split
  · split
    · exact hwrong
    · exact h
  · exact hwrong

theorem readDecimal_keeps (cs : List Char) : Keeps cs (readDecimal cs) := by
  have hwhole := Part.run_splits Char.isDigit cs
  have hfraction := readFraction_splits (Part.run Char.isDigit cs).rest
  have hexponent := readExponent_splits (readFraction (Part.run Char.isDigit cs).rest).rest
  unfold readDecimal
  refine endNumber_keeps _ ?_
  rw [List.append_assoc, hexponent, List.append_assoc, hfraction, hwhole]

theorem readRadix_keeps (radix : Nat) (mark cs : List Char) :
    Keeps (mark ++ cs) (readRadix radix mark cs) := by
  unfold readRadix
  refine endNumber_keeps _ ?_
  rw [List.append_assoc, Part.run_splits]

/-- A number takes its text off what it was read from, and an error covers text from there, whether
the number is decimal or behind a prefix. -/
theorem readNumber_keeps (cs : List Char) : Keeps cs (readNumber cs) := by
  unfold readNumber
  split
  · split
    · exact readRadix_keeps _ _ _
    · exact readDecimal_keeps _
  · exact readDecimal_keeps cs

theorem append_readNumber {cs rest : List Char} {lexeme : Lexeme}
    (h : readNumber cs = .ok (lexeme, rest)) : lexeme.text ++ rest = cs := by
  have hkeeps := readNumber_keeps cs
  rwa [h] at hkeeps

/-! ## No literal is empty -/

/-- Whether a number starts with `c` when `cs` follows. -/
def startsNumber (c : Char) (cs : List Char) : Bool :=
  c.isDigit || (c = '.' && cs.head?.any Char.isDigit)

/-- Where a number starts there is a digit, behind a point if not in front of it, so that its text
is not empty. -/
theorem decimal_ne_nil {c : Char} {cs : List Char} (hstart : startsNumber c cs) :
    (Part.run Char.isDigit (c :: cs)).text ++
      (readFraction (Part.run Char.isDigit (c :: cs)).rest).text ≠ [] := by
  by_cases hdigit : c.isDigit
  · simp [Part.run, hdigit]
  · have hpoint : c = '.' := by
      simp [startsNumber, hdigit] at hstart
      exact hstart.1
    subst hpoint
    simp [Part.run, readFraction]

theorem readDecimal_ne_nil {c : Char} {cs rest : List Char} {lexeme : Lexeme}
    (hstart : startsNumber c cs) (h : readDecimal (c :: cs) = .ok (lexeme, rest)) :
    lexeme.text ≠ [] := by
  unfold readDecimal at h
  obtain ⟨htext, -⟩ := eq_of_endNumber h
  rw [htext]
  exact List.append_ne_nil_of_left_ne_nil (decimal_ne_nil hstart) _

theorem readNumber_ne_nil {c : Char} {cs rest : List Char} {lexeme : Lexeme}
    (hstart : startsNumber c cs) (h : readNumber (c :: cs) = .ok (lexeme, rest)) :
    lexeme.text ≠ [] := by
  unfold readNumber at h
  split at h
  · split at h
    · unfold readRadix at h
      obtain ⟨htext, -⟩ := eq_of_endNumber h
      simp [htext]
    · exact readDecimal_ne_nil hstart h
  · exact readDecimal_ne_nil hstart h

theorem readStringFrom_ne_nil {quote : Char} {taken value cs rest : List Char} {lexeme : Lexeme}
    (h : readStringFrom quote taken value cs = .ok (lexeme, rest)) : lexeme.text ≠ [] := by
  fun_induction readStringFrom quote taken value cs with
  | case1 => contradiction
  | case2 =>
      cases h
      simp
  | case3 _ _ _ _ _ _ _ _ ih => exact ih h
  | case4 => contradiction
  | case5 => contradiction
  | case6 _ _ _ _ _ _ ih => exact ih h

end ReactiveTemplate
