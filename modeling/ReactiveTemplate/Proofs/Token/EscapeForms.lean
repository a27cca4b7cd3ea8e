import ReactiveTemplate.Proofs.Token.Locality

/-!
# The forms of escapes

What may stand behind a backslash in a string, written down apart from any reader: the forms of
escapes with the characters that they denote, and the ways in which an escape can go wrong. Every
text is of exactly one of these forms, and it is read as that form.
-/

namespace ReactiveTemplate

/-! ## Characters and code points -/

theorem isValidChar_toNat (c : Char) : c.toNat.isValidChar :=
  c.valid

/-- A valid code point is that of a character. For other numbers the conversion would give zero,
which is why validity is asked for first. -/
theorem toNat_ofNat_of_isValidChar {code : Nat} (h : code.isValidChar) :
    (Char.ofNat code).toNat = code := by
  rw [Char.ofNat, dif_pos h]
  rfl

/-- The two code units of a character that is not among the first `0x10000` ones. -/
structure IsPair (c : Char) (high low : Nat) : Prop where
  beyond : 0x10000 ≤ c.toNat
  high : high = 0xD800 + (c.toNat - 0x10000) / 0x400
  low : low = 0xDC00 + (c.toNat - 0x10000) % 0x400

namespace IsPair

variable {c : Char} {high low : Nat}

theorem isHighSurrogate (h : IsPair c high low) : isHighSurrogate high := by
  have hvalid := isValidChar_toNat c
  have hhigh := h.high
  simp only [Nat.isValidChar] at hvalid
  simp only [ReactiveTemplate.isHighSurrogate, Bool.and_eq_true, decide_eq_true_eq]
  omega

theorem isLowSurrogate (h : IsPair c high low) : isLowSurrogate low := by
  have hlow := h.low
  simp only [ReactiveTemplate.isLowSurrogate, Bool.and_eq_true, decide_eq_true_eq]
  omega

/-- The halves of a pair put together give the code point of the character, which lies beyond the
basic plane. -/
theorem surrogatePair_eq (h : IsPair c high low) : surrogatePair high low = c.toNat := by
  have hbeyond := h.beyond
  have hhigh := h.high
  have hlow := h.low
  unfold surrogatePair
  omega

/-- Any two surrogates, a high one and a low one, are the code units of a character. -/
theorem exists_of_surrogates (hhigh : ReactiveTemplate.isHighSurrogate high)
    (hlow : ReactiveTemplate.isLowSurrogate low) : ∃ c, IsPair c high low := by
  simp only [ReactiveTemplate.isHighSurrogate, ReactiveTemplate.isLowSurrogate, Bool.and_eq_true,
    decide_eq_true_eq] at hhigh hlow
  have hvalid : (surrogatePair high low).isValidChar := by
    unfold surrogatePair Nat.isValidChar
    omega
  have hcode := toNat_ofNat_of_isValidChar hvalid
  generalize Char.ofNat (surrogatePair high low) = c at hcode
  unfold surrogatePair at hcode
  exact ⟨c, by omega, by omega, by omega⟩

end IsPair

/-! ## Digits -/

/-- Hexadecimal digits and nothing else. -/
def IsHex (digits : List Char) : Prop :=
  ∀ c ∈ digits, isHexDigit c

theorem digitValue_lt {c : Char} (h : isHexDigit c) : digitValue c < 16 := by
  have hall : ∀ n < 128, (!isHexDigit (Char.ofNat n) || digitValue (Char.ofNat n) < 16) := by
    decide +kernel
  have hc := forall_basic (p := fun c => !isHexDigit c || digitValue c < 16) hall
    (toNat_lt_of_isHexDigit h)
  simpa [h] using hc

/-- A byte is written with two digits. -/
theorem digitsValue_lt_of_two {digits : List Char} (h : IsHex digits)
    (hlength : digits.length = 2) : digitsValue 16 digits < 0x100 := by
  match digits, hlength with
  | [a, b], _ =>
      have ha := digitValue_lt (h a (by simp))
      have hb := digitValue_lt (h b (by simp))
      simp only [digitsValue, List.foldl_cons, List.foldl_nil]
      omega

/-- A text starts with some number of digits, or with fewer and then something else. -/
theorem exists_digits (count : Nat) (cs : List Char) :
    ∃ digits rest, cs = digits ++ rest ∧ IsHex digits ∧
      (digits.length = count ∨ digits.length < count ∧ ∀ c ∈ rest.head?, ¬isHexDigit c) := by
  have hsplit := List.takeWhile_append_dropWhile (p := isHexDigit) (l := cs)
  have hdigits : IsHex (cs.takeWhile isHexDigit) := fun c hc => of_mem_takeWhile hc
  by_cases hlength : (cs.takeWhile isHexDigit).length < count
  · exact ⟨_, _, hsplit.symm, hdigits, .inr ⟨hlength, fun c hc => not_of_head_dropWhile hc⟩⟩
  · refine ⟨(cs.takeWhile isHexDigit).take count,
      (cs.takeWhile isHexDigit).drop count ++ cs.dropWhile isHexDigit, ?_, ?_, .inl ?_⟩
    · rw [← List.append_assoc, List.take_append_drop, hsplit]
    · exact fun c hc => hdigits c (List.mem_of_mem_take hc)
    · rw [List.length_take]
      omega

/-! ## Forms of code points -/

/-- What may stand behind `\u` for a code point: four digits, or up to six of them in braces. -/
inductive CodePointForm : List Char → Nat → Prop where
  | plain {digits : List Char} (hdigits : IsHex digits) (hlength : digits.length = 4) :
      CodePointForm digits (digitsValue 16 digits)
  | braced {digits : List Char} (hdigits : IsHex digits) (hsome : digits ≠ [])
      (hlength : digits.length ≤ 6) :
      CodePointForm ('{' :: (digits ++ ['}'])) (digitsValue 16 digits)

/-- What stands behind `\u` up to the point where it is no code point any more: too few digits, or
braces with none or too many of them or that are not closed. -/
inductive BrokenCodePoint (rest : List Char) : List Char → Prop where
  | plain {digits : List Char} (hdigits : IsHex digits) (hlength : digits.length < 4)
      (hnext : ∀ c ∈ rest.head?, ¬isHexDigit c) (hbrace : digits = [] → rest.head? ≠ some '{') :
      BrokenCodePoint rest digits
  | braced {digits : List Char} (hdigits : IsHex digits) (hnext : ∀ c ∈ rest.head?, ¬isHexDigit c)
      (hwrong : rest.head? = some '}' → digits = [] ∨ 6 < digits.length) :
      BrokenCodePoint rest ('{' :: digits)

/-- What comes behind the letter of an escape begins with a code point in one of its two forms, or
it breaks off at a certain place. -/
theorem exists_codePoint (cs : List Char) :
    (∃ text code rest, cs = text ++ rest ∧ CodePointForm text code) ∨
      ∃ text rest, cs = text ++ rest ∧ BrokenCodePoint rest text := by
  by_cases hbrace : cs.head? = some '{'
  · obtain ⟨tail, rfl⟩ := List.head?_eq_some_iff.mp hbrace
    have hsplit := List.takeWhile_append_dropWhile (p := isHexDigit) (l := tail)
    have hdigits : IsHex (tail.takeWhile isHexDigit) := fun c hc => of_mem_takeWhile hc
    have hnext : ∀ c ∈ (tail.dropWhile isHexDigit).head?, ¬isHexDigit c :=
      fun c hc => not_of_head_dropWhile hc
    generalize tail.takeWhile isHexDigit = digits at *
    generalize tail.dropWhile isHexDigit = rest at *
    subst hsplit
    by_cases hform : rest.head? = some '}' ∧ digits ≠ [] ∧ digits.length ≤ 6
    · obtain ⟨hclose, hsome, hlength⟩ := hform
      obtain ⟨rest, rfl⟩ := List.head?_eq_some_iff.mp hclose
      exact .inl ⟨_, _, rest, by simp, .braced hdigits hsome hlength⟩
    · refine .inr ⟨'{' :: digits, rest, rfl, .braced hdigits hnext fun hclose => ?_⟩
      simp only [hclose, true_and, not_and, Nat.not_le] at hform
      exact Decidable.or_iff_not_imp_left.mpr hform
  · obtain ⟨digits, rest, rfl, hdigits, hlength | ⟨hlength, hnext⟩⟩ := exists_digits 4 cs
    · exact .inl ⟨digits, _, rest, rfl, .plain hdigits hlength⟩
    · refine .inr ⟨digits, rest, rfl, .plain hdigits hlength hnext ?_⟩
      rintro rfl
      exact hbrace

/-! ## Forms of escapes -/

/-- The letters for control characters, and what they stand for. -/
def controls : List (Char × Char) :=
  [('b', '\x08'), ('f', '\x0c'), ('n', '\n'), ('r', '\r'), ('t', '\t'), ('v', '\x0b')]

/-- Whether `c` is a digit to base eight. -/
def IsOctal (c : Char) : Prop :=
  '0' ≤ c ∧ c ≤ '7'
deriving Decidable

/-- `EscapeForm rest text value` says that `text` behind a backslash stands for `value` when `rest`
comes behind it. -/
inductive EscapeForm (rest : List Char) : List Char → List Char → Prop where
  | control {c meaning : Char} (h : (c, meaning) ∈ controls) : EscapeForm rest [c] [meaning]
  | null (hnext : ∀ c ∈ rest.head?, ¬c.isDigit) : EscapeForm rest ['0'] ['\x00']
  | byte {digits : List Char} {meaning : Char} (hdigits : IsHex digits)
      (hlength : digits.length = 2) (hmeaning : meaning.toNat = digitsValue 16 digits) :
      EscapeForm rest ('x' :: digits) [meaning]
  | codePoint {text : List Char} {meaning : Char} (h : CodePointForm text meaning.toNat) :
      EscapeForm rest ('u' :: text) [meaning]
  /-- Two code units, each of them in a form of its own. -/
  | pair {text text' : List Char} {high low : Nat} {meaning : Char} (h : CodePointForm text high)
      (h' : CodePointForm text' low) (hmeaning : IsPair meaning high low) :
      EscapeForm rest ('u' :: (text ++ '\\' :: 'u' :: text')) [meaning]
  /-- A line break that is left out. -/
  | lineBreak {c : Char} (h : c ∈ ['\n', '\u2028', '\u2029']) : EscapeForm rest [c] []
  | carriageReturn (hnext : rest.head? ≠ some '\n') : EscapeForm rest ['\r'] []
  | carriageReturnLineFeed : EscapeForm rest ['\r', '\n'] []
  /-- Any other character stands for itself. -/
  | plain {c : Char} (hletter : c ∉ ['b', 'f', 'n', 'r', 't', 'v', 'x', 'u'])
      (hdigit : ¬IsOctal c) (hbreak : c ∉ ['\n', '\r', '\u2028', '\u2029']) :
      EscapeForm rest [c] [c]

/-- `BrokenEscape rest text` says that `text` behind a backslash is where an escape goes wrong, and
that `rest` comes behind it. -/
inductive BrokenEscape (rest : List Char) : List Char → Prop where
  /-- A character by its octal number. -/
  | octal {c : Char} {digits : List Char} (hc : IsOctal c) (hdigits : ∀ d ∈ digits, d.isDigit)
      (hnext : ∀ d ∈ rest.head?, ¬d.isDigit) (hnull : c = '0' → digits ≠ []) :
      BrokenEscape rest (c :: digits)
  | byte {digits : List Char} (hdigits : IsHex digits) (hlength : digits.length < 2)
      (hnext : ∀ c ∈ rest.head?, ¬isHexDigit c) : BrokenEscape rest ('x' :: digits)
  | codePoint {text : List Char} (h : BrokenCodePoint rest text) : BrokenEscape rest ('u' :: text)
  /-- A number that is not that of a character, nor does it make up one with what comes next. -/
  | noCharacter {text : List Char} {code : Nat} (h : CodePointForm text code)
      (hcode : ¬code.isValidChar)
      (hpair : ∀ text' low more c, rest = '\\' :: 'u' :: (text' ++ more) →
        CodePointForm text' low → ¬IsPair c code low) : BrokenEscape rest ('u' :: text)

namespace Escape

/-- `Denotes cs e` says what the text `cs` behind a backslash starts with. -/
inductive Denotes : List Char → Escape → Prop where
  | means {text value rest : List Char} (h : EscapeForm rest text value) :
      Denotes (text ++ rest) (.means value text rest)
  | malformed {text rest : List Char} (h : BrokenEscape rest text) :
      Denotes (text ++ rest) (.malformed text rest)
  | unfinished : Denotes [] .unfinished

/-- Behind an `x` stand two hexadecimal digits, or the escape is broken behind those that there
are. -/
theorem exists_denotes_x (cs : List Char) : ∃ e, Denotes ('x' :: cs) e := by
  obtain ⟨digits, rest, rfl, hdigits, hlength | ⟨hlength, hnext⟩⟩ := exists_digits 2 cs
  · have hlt := digitsValue_lt_of_two hdigits hlength
    have hmeaning := toNat_ofNat_of_isValidChar (show (digitsValue 16 digits).isValidChar by
      simp only [Nat.isValidChar]
      omega)
    exact ⟨_, .means (.byte hdigits hlength hmeaning)⟩
  · exact ⟨_, .malformed (.byte hdigits hlength hnext)⟩

/-- Behind a `u` stands a code point. It is that of a character, or the first half of a pair with
the second half behind it, or the escape is broken. -/
theorem exists_denotes_u (cs : List Char) : ∃ e, Denotes ('u' :: cs) e := by
  rcases exists_codePoint cs with ⟨text, code, rest, rfl, hform⟩ | ⟨text, rest, rfl, hbroken⟩
  · by_cases hcode : code.isValidChar
    · rw [← toNat_ofNat_of_isValidChar hcode] at hform
      exact ⟨_, .means (.codePoint hform)⟩
    · by_cases hpair : ∃ text' low more c, rest = '\\' :: 'u' :: (text' ++ more) ∧
          CodePointForm text' low ∧ IsPair c code low
      · obtain ⟨text', low, more, c, rfl, hform', hc⟩ := hpair
        have hmeans : Denotes (_ ++ more) _ := .means (.pair hform hform' hc)
        rw [List.cons_append, List.append_assoc] at hmeans
        exact ⟨_, hmeans⟩
      · refine ⟨_, .malformed (.noCharacter hform hcode fun text' low more c hrest hform' hc => ?_)⟩
        exact hpair ⟨text', low, more, c, hrest, hform', hc⟩
  · exact ⟨_, .malformed (.codePoint hbroken)⟩

/-- A digit below eight is an escape only as a zero with no digit behind it. All others are refused
as octal. -/
theorem exists_denotes_octal {c : Char} (hc : IsOctal c) (cs : List Char) :
    ∃ e, Denotes (c :: cs) e := by
  by_cases hnull : c = '0' ∧ ∀ d ∈ cs.head?, ¬d.isDigit
  · obtain ⟨rfl, hnext⟩ := hnull
    exact ⟨_, .means (.null hnext)⟩
  · have hsplit := List.takeWhile_append_dropWhile (p := Char.isDigit) (l := cs)
    rw [← hsplit]
    refine ⟨_, .malformed (.octal hc (fun d hd => of_mem_takeWhile hd)
      (fun d hd => not_of_head_dropWhile hd) ?_)⟩
    -- If no digit followed, the zero would stand for the null character.
    rintro hzero hnone
    refine hnull ⟨hzero, fun d hd => ?_⟩
    rw [hnone, List.nil_append] at hsplit
    rw [← hsplit] at hd
    exact not_of_head_dropWhile hd

/-- Whatever stands behind a backslash, it is an escape or goes wrong in some way. -/
theorem exists_denotes (cs : List Char) : ∃ e, Denotes cs e := by
  cases cs with
  | nil => exact ⟨_, .unfinished⟩
  | cons c cs =>
      by_cases hcontrol : ∃ meaning, (c, meaning) ∈ controls
      · obtain ⟨meaning, hmem⟩ := hcontrol
        exact ⟨_, .means (.control hmem)⟩
      · by_cases hx : c = 'x'
        · exact hx ▸ exists_denotes_x cs
        · by_cases hu : c = 'u'
          · exact hu ▸ exists_denotes_u cs
          · by_cases hoctal : IsOctal c
            · exact exists_denotes_octal hoctal cs
            · by_cases hbreak : c ∈ ['\n', '\u2028', '\u2029']
              · exact ⟨_, .means (.lineBreak hbreak)⟩
              · by_cases hreturn : c = '\r'
                · subst hreturn
                  by_cases hnext : cs.head? = some '\n'
                  · obtain ⟨rest, rfl⟩ := List.head?_eq_some_iff.mp hnext
                    exact ⟨_, .means .carriageReturnLineFeed⟩
                  · exact ⟨_, .means (.carriageReturn hnext)⟩
                · refine ⟨_, .means (.plain ?_ hoctal ?_)⟩
                  · have hletter : c ∉ controls.map Prod.fst := by simpa using hcontrol
                    simp only [controls, List.map_cons, List.map_nil, List.mem_cons,
                      List.not_mem_nil, or_false, not_or] at hletter
                    simp [hletter, hx, hu]
                  · simp only [List.mem_cons, List.not_mem_nil, or_false, not_or] at hbreak
                    simp [hbreak, hreturn]

/-! ## Reading the forms -/

theorem readHex_of_length {count : Nat} {digits : List Char} (h : IsHex digits)
    (hlength : digits.length = count) (rest : List Char) :
    readHex count (digits ++ rest) = ⟨some (digitsValue 16 digits), digits, rest⟩ := by
  have hall : digits.takeWhile isHexDigit = digits := by
    have hend : ∀ c ∈ ([] : List Char).head?, ¬isHexDigit c := by simp
    have htake := takeWhile_append_of_stop h hend
    rwa [List.append_nil] at htake
  subst hlength
  simp [readHex, hall]

/-- If there are fewer, no value is read, and the digits that there are count as the text of the
broken escape. -/
theorem readHex_of_length_lt {count : Nat} {digits rest : List Char} (h : IsHex digits)
    (hlength : digits.length < count) (hnext : ∀ c ∈ rest.head?, ¬isHexDigit c) :
    readHex count (digits ++ rest) = ⟨none, digits, rest⟩ := by
  have htake : ((digits ++ rest).take count).takeWhile isHexDigit = digits := by
    rw [← List.take_takeWhile, takeWhile_append_of_stop h hnext,
      List.take_of_length_le (Nat.le_of_lt hlength)]
  simp [readHex, htake, Nat.ne_of_lt hlength]

theorem readCodePoint_of_plain {cs : List Char} (h : cs.head? ≠ some '{') :
    readCodePoint cs = readHex 4 cs := by
  rw [readCodePoint]
  rintro tail rfl
  exact h rfl

theorem not_isHexDigit_brace : ¬isHexDigit '{' ∧ ¬isHexDigit '}' := by
  decide

/-- Digits do not start with a brace. -/
theorem head?_ne_brace {digits rest : List Char} (h : IsHex digits) (hsome : digits ≠ []) :
    (digits ++ rest).head? ≠ some '{' := by
  obtain ⟨d, digits, rfl⟩ := List.exists_cons_of_ne_nil hsome
  rintro ⟨⟩
  exact not_isHexDigit_brace.1 (h '{' List.mem_cons_self)

/-- A code point in either form is read to its number, with four digits or with any number of them
in braces. -/
theorem readCodePoint_of_form {text : List Char} {code : Nat} (h : CodePointForm text code)
    (rest : List Char) : readCodePoint (text ++ rest) = ⟨some code, text, rest⟩ := by
  cases h with
  | plain hdigits hlength =>
      have hsome : text ≠ [] := by
        rintro rfl
        contradiction
      rw [readCodePoint_of_plain (head?_ne_brace hdigits hsome), readHex_of_length hdigits hlength]
  | @braced digits hdigits hsome hlength =>
      have hstop : ∀ c ∈ ('}' :: rest).head?, ¬isHexDigit c := by
        rintro c ⟨⟩
        exact not_isHexDigit_brace.2
      rw [List.cons_append, List.append_assoc, List.singleton_append, readCodePoint]
      simp [takeWhile_append_of_stop hdigits hstop, dropWhile_append_of_stop hdigits hstop, hsome,
        hlength]

theorem readCodePoint_of_broken {text rest : List Char} (h : BrokenCodePoint rest text) :
    readCodePoint (text ++ rest) = ⟨none, text, rest⟩ := by
  cases h with
  | plain hdigits hlength hnext hbrace =>
      have hplain : (text ++ rest).head? ≠ some '{' := by
        by_cases hsome : text = []
        · subst hsome
          exact hbrace rfl
        · exact head?_ne_brace hdigits hsome
      rw [readCodePoint_of_plain hplain, readHex_of_length_lt hdigits hlength hnext]
  | @braced digits hdigits hnext hwrong =>
      rw [List.cons_append, readCodePoint]
      simp only [takeWhile_append_of_stop hdigits hnext, dropWhile_append_of_stop hdigits hnext]
      split
      · next tail =>
          rw [if_pos]
          simpa using hwrong rfl
      · rfl

theorem ofCodePoint_toNat (c : Char) (text rest : List Char) :
    ofCodePoint (some c.toNat) text rest = means [c] text rest := by
  rw [ofCodePoint, if_pos (isValidChar_toNat c), Char.ofNat_toNat]

theorem ofCodePoint_of_not {code : Nat} (h : ¬code.isValidChar) (text rest : List Char) :
    ofCodePoint (some code) text rest = malformed text rest := by
  rw [ofCodePoint, if_neg h]

theorem readLowSurrogate?_of_form {text : List Char} {low : Nat} (h : CodePointForm text low)
    (hlow : isLowSurrogate low) (rest : List Char) :
    readLowSurrogate? ('\\' :: 'u' :: (text ++ rest)) = some ⟨low, '\\' :: 'u' :: text, rest⟩ := by
  rw [readLowSurrogate?, readCodePoint_of_form h]
  exact if_pos hlow

theorem readLowSurrogate?_eq_none {cs : List Char}
    (h : ∀ text low more, cs = '\\' :: 'u' :: (text ++ more) → CodePointForm text low →
      ¬isLowSurrogate low) : readLowSurrogate? cs = none := by
  unfold readLowSurrogate?
  split
  · next tail =>
      rcases exists_codePoint tail with ⟨text, low, more, rfl, hform⟩ | ⟨text, more, rfl, hbroken⟩
      · rw [readCodePoint_of_form hform]
        exact if_neg (h text low more rfl hform)
      · rw [readCodePoint_of_broken hbroken]
  · rfl

theorem not_isHighSurrogate_of_isValidChar {code : Nat} (h : code.isValidChar) :
    ¬isHighSurrogate code := by
  simp only [isHighSurrogate, Bool.and_eq_true, decide_eq_true_eq]
  simp only [Nat.isValidChar] at h
  omega

/-- A code point of a character means that character. Such a code point is never the first half of a
pair. -/
theorem readUnicode_of_codePoint {text : List Char} {c : Char} (h : CodePointForm text c.toNat)
    (rest : List Char) : readUnicode (text ++ rest) = means [c] ('u' :: text) rest := by
  rw [readUnicode, readCodePoint_of_form h]
  dsimp only
  rw [if_neg (not_isHighSurrogate_of_isValidChar (isValidChar_toNat c)), ofCodePoint_toNat]

theorem readUnicode_of_pair {text text' : List Char} {high low : Nat} {c : Char}
    (h : CodePointForm text high) (h' : CodePointForm text' low) (hc : IsPair c high low)
    (rest : List Char) :
    readUnicode (text ++ '\\' :: 'u' :: (text' ++ rest)) =
      means [c] ('u' :: (text ++ '\\' :: 'u' :: text')) rest := by
  rw [readUnicode, readCodePoint_of_form h]
  dsimp only
  rw [if_pos hc.isHighSurrogate, readLowSurrogate?_of_form h' hc.isLowSurrogate]
  dsimp only
  rw [hc.surrogatePair_eq, ofCodePoint_toNat]
  rfl

/-- A code point that is neither a character's nor a half that finds its other half is malformed, up
to its own end. -/
theorem readUnicode_of_noCharacter {text rest : List Char} {code : Nat}
    (h : CodePointForm text code) (hcode : ¬code.isValidChar)
    (hpair : ∀ text' low more c, rest = '\\' :: 'u' :: (text' ++ more) →
      CodePointForm text' low → ¬IsPair c code low) :
    readUnicode (text ++ rest) = malformed ('u' :: text) rest := by
  rw [readUnicode, readCodePoint_of_form h]
  dsimp only
  by_cases hhigh : isHighSurrogate code
  · have hnone : readLowSurrogate? rest = none := by
      apply readLowSurrogate?_eq_none
      intro text' low more hrest hform hlow
      obtain ⟨c, hc⟩ := IsPair.exists_of_surrogates hhigh hlow
      exact hpair text' low more c hrest hform hc
    rw [if_pos hhigh, hnone]
  · rw [if_neg hhigh, ofCodePoint_of_not hcode]

/-- Characters that neither are a letter with a meaning nor start a line break of two. -/
theorem read_cons {c : Char} {cs : List Char}
    (hletter : c ∉ ['b', 'f', 'n', 'r', 't', 'v', 'x', 'u'])
    (hreturn : c = '\r' → cs.head? ≠ some '\n') :
    read (c :: cs) =
      if c = '0' && !(cs.head?.any Char.isDigit) then means ['\x00'] ['0'] cs
      else if '0' ≤ c && c ≤ '7' then
        malformed (c :: cs.takeWhile Char.isDigit) (cs.dropWhile Char.isDigit)
      else if c = '\r' || c = '\n' || c = '\u2028' || c = '\u2029' then means [] [c] cs
      else means [c] [c] cs := by
  rw [read]
  case x_9 =>
    rintro rest rfl rfl
    exact hreturn rfl rfl
  all_goals
    rintro rfl
    simp at hletter

/-- Each form of an escape is read to its meaning. The form may depend on what is behind it: a zero
must not have a digit there. -/
theorem read_of_form {text value rest : List Char} (h : EscapeForm rest text value) :
    read (text ++ rest) = means value text rest := by
  cases h with
  | control h =>
      simp only [controls, List.mem_cons, Prod.mk.injEq, List.not_mem_nil, or_false] at h
      rcases h with ⟨rfl, rfl⟩ | ⟨rfl, rfl⟩ | ⟨rfl, rfl⟩ | ⟨rfl, rfl⟩ | ⟨rfl, rfl⟩ | ⟨rfl, rfl⟩ <;>
        rfl
  | null hnext =>
      have hnone : rest.head?.any Char.isDigit = false := by
        cases rest with
        | nil => rfl
        | cons d rest => simpa using hnext d rfl
      rw [List.singleton_append, read_cons (by decide) (fun hzero => absurd hzero (by decide))]
      simp [hnone]
  | byte hdigits hlength hmeaning =>
      rw [List.cons_append, read, readHex_of_length hdigits hlength, ← hmeaning]
      exact ofCodePoint_toNat _ _ _
  | codePoint h => exact readUnicode_of_codePoint h rest
  | @pair text text' high low meaning h h' hmeaning =>
      rw [List.cons_append, List.append_assoc]
      exact readUnicode_of_pair h h' hmeaning rest
  | lineBreak h =>
      simp only [List.mem_cons, List.not_mem_nil, or_false] at h
      rcases h with rfl | rfl | rfl <;> rfl
  | carriageReturn hnext =>
      rw [List.singleton_append, read_cons (by decide) (fun _ => hnext)]
      rfl
  | carriageReturnLineFeed => rfl
  | plain hletter hdigit hbreak =>
      simp only [List.mem_cons, List.not_mem_nil, or_false, not_or] at hbreak
      rw [List.singleton_append, read_cons hletter fun hreturn => absurd hreturn hbreak.2.1]
      rw [if_neg, if_neg (by simpa [IsOctal] using hdigit)]
      · simp [hbreak]
      · simp only [Bool.and_eq_true, decide_eq_true_eq, not_and]
        rintro rfl
        exact absurd (by decide) hdigit

theorem read_of_broken {text rest : List Char} (h : BrokenEscape rest text) :
    read (text ++ rest) = malformed text rest := by
  cases h with
  | @octal c digits hc hdigits hnext hnull =>
      have hletter : c ∉ ['b', 'f', 'n', 'r', 't', 'v', 'x', 'u', '\r'] := by
        intro hmem
        have hall : ∀ c ∈ ['b', 'f', 'n', 'r', 't', 'v', 'x', 'u', '\r'], ¬('0' ≤ c ∧ c ≤ '7') :=
          forall_mem_of_all (by decide)
        exact hall c hmem hc
      rw [List.cons_append, read_cons, if_neg, if_pos (by simpa [IsOctal] using hc),
        takeWhile_append_of_stop hdigits hnext, dropWhile_append_of_stop hdigits hnext]
      · simp only [Bool.and_eq_true, decide_eq_true_eq, not_and]
        rintro hzero
        obtain ⟨d, digits, rfl⟩ := List.exists_cons_of_ne_nil (hnull hzero)
        simpa using hdigits d List.mem_cons_self
      · exact fun hmem => hletter (List.mem_append_left ['\r'] hmem)
      · rintro rfl
        exact absurd (by decide) hletter
  | byte hdigits hlength hnext =>
      rw [List.cons_append, read, readHex_of_length_lt hdigits hlength hnext]
      rfl
  | codePoint h =>
      rw [List.cons_append, read, readUnicode, readCodePoint_of_broken h]
  | noCharacter h hcode hpair => exact readUnicode_of_noCharacter h hcode hpair

/-- An escape is read as what it denotes. -/
theorem read_eq_iff {cs : List Char} {e : Escape} : read cs = e ↔ Denotes cs e := by
  have hread {e : Escape} (h : Denotes cs e) : read cs = e := by
    cases h with
    | means h => exact read_of_form h
    | malformed h => exact read_of_broken h
    | unfinished => rfl
  constructor
  · rintro rfl
    obtain ⟨e, he⟩ := exists_denotes cs
    rwa [hread he]
  · exact hread

end Escape

end ReactiveTemplate
