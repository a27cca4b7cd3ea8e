import Mathlib.Data.List.Induction
import ReactiveTemplate.Proofs.Number.Doubles
import ReactiveTemplate.Proofs.Token.StringLiteral

/-!
# Integers behind a prefix

An integer to base two, eight or sixteen is rounded once more behind each of its digits. Up to 53
bits this changes nothing, and the digit that leads beyond them is rounded as it should be. The
digits behind that one only multiply the number by the base: what they add is less than half a unit.
So a literal has the value of the number that it denotes, unless the first rounding meets a tie that
it breaks downwards, and a digit behind it would have broken it the other way.
-/

namespace ReactiveTemplate

/-! ## Digits -/

theorem digitsValue_concat (radix : Nat) (digits : List Char) (c : Char) :
    digitsValue radix (digits ++ [c]) = digitsValue radix digits * radix + digitValue c := by
  simp [digitsValue]

/-- The value of digits that are put together: those in front count for as many powers of the radix
as there are digits behind. -/
theorem digitsValue_append (radix : Nat) (front back : List Char) :
    digitsValue radix (front ++ back) =
      digitsValue radix front * radix ^ back.length + digitsValue radix back := by
  induction back using List.reverseRecOn with
  | nil => simp [digitsValue]
  | append_singleton back c ih =>
      rw [← List.append_assoc, digitsValue_concat, digitsValue_concat, ih, List.length_append,
        List.length_singleton, Nat.pow_succ]
      ring

theorem digitValue_lt_radix {radix : Nat} {c : Char} (h : isDigitOf radix c) :
    digitValue c < radix := by
  rw [isDigitOf, Bool.and_eq_true, decide_eq_true_eq] at h
  exact h.2

/-- Digits of a radix have a value below its power for their number, which bounds the digits behind
the rounded ones. -/
theorem digitsValue_lt {radix : Nat} {digits : List Char}
    (h : ∀ c ∈ digits, isDigitOf radix c) : digitsValue radix digits < radix ^ digits.length := by
  induction digits using List.reverseRecOn with
  | nil => simp [digitsValue]
  | append_singleton digits c ih =>
      rw [List.forall_mem_append] at h
      have hdigits := Nat.mul_le_mul_right radix (Nat.succ_le_of_lt (ih h.1))
      have hc := digitValue_lt_radix (h.2 c List.mem_cons_self)
      rw [Nat.succ_mul] at hdigits
      rw [digitsValue_concat, List.length_append, List.length_singleton, Nat.pow_succ]
      omega

/-- The bases are powers of two. -/
theorem exists_bits_of_radixOf? {c : Char} {radix : Nat} (h : radixOf? c = some radix) :
    ∃ bits, radix = 2 ^ bits := by
  unfold radixOf? at h
  split at h
  · exact ⟨1, (Option.some.inj h).symm⟩
  · split at h
    · exact ⟨3, (Option.some.inj h).symm⟩
    · split at h
      · exact ⟨4, (Option.some.inj h).symm⟩
      · contradiction

/-! ## Rounding behind each digit -/

/-- The number that digits denote, rounded behind each digit. -/
def stepwise (radix : Nat) (digits : List Char) : Nat :=
  digits.foldl (fun n c => roundNat (n * radix + digitValue c)) 0

theorem stepwise_concat (radix : Nat) (digits : List Char) (c : Char) :
    stepwise radix (digits ++ [c]) = roundNat (stepwise radix digits * radix + digitValue c) := by
  simp [stepwise]

/-- One digit more, with nothing for a number that is out of range. -/
def cappedStep (radix : Nat) (n : Option Nat) (c : Char) : Option Nat :=
  match n with
  | none => none
  | some n =>
      let n := roundNat (n * radix + digitValue c)
      if n < numberBound then some n else none

/-- With a bound on what can be represented, the fold is the stepwise value as long as that keeps
below the bound. -/
theorem foldl_cappedStep {radix : Nat} (hradix : 0 < radix) (digits : List Char) :
    digits.foldl (cappedStep radix) (some 0) =
      if stepwise radix digits < numberBound then some (stepwise radix digits) else none := by
  induction digits using List.reverseRecOn with
  | nil => rfl
  | append_singleton digits c ih =>
      rw [List.foldl_append, ih, stepwise_concat]
      by_cases hrange : stepwise radix digits < numberBound
      · rw [if_pos hrange]
        rfl
      · have hle := Nat.le_mul_of_pos_right (stepwise radix digits) hradix
        have hnext : numberBound ≤ roundNat (stepwise radix digits * radix + digitValue c) :=
          numberBound_le_roundNat (by omega)
        rw [if_neg hrange, if_neg (Nat.not_lt.mpr hnext)]
        rfl

/-- The value of a literal is the number that rounding behind each digit gives, or infinity if that
number is too large. -/
theorem radixValue_eq {radix : Nat} (hradix : 0 < radix) (digits : List Char) :
    radixValue radix digits = .ofNat (stepwise radix digits) := by
  have hfold := foldl_cappedStep hradix digits
  unfold radixValue
  dsimp only
  split
  · next n hsome =>
      have hn := hfold.symm.trans hsome
      rw [Option.ite_none_right_eq_some] at hn
      rw [Option.some.inj hn.2]
  · next hnone =>
      have hrange := hfold.symm.trans hnone
      rw [ite_eq_right_iff] at hrange
      have hbound : numberBound ≤ stepwise radix digits :=
        Nat.not_lt.mp fun hlt => Option.some_ne_none _ (hrange hlt)
      rw [Binary64.ofNat_eq_infinity (numberBound_le_roundNat hbound)]

/-- The digit `c` is the first that leads beyond 53 bits. -/
structure Fills (radix : Nat) (front : List Char) (c : Char) : Prop where
  short : digitsValue radix front < 2 * hiddenBit
  long : 2 * hiddenBit ≤ digitsValue radix (front ++ [c])

/-- A value that does not fit into the bits of a double has a first digit with which it no longer
does. -/
theorem exists_fills {radix : Nat} {digits : List Char}
    (h : 2 * hiddenBit ≤ digitsValue radix digits) :
    ∃ front c back, digits = front ++ c :: back ∧ Fills radix front c := by
  induction digits using List.reverseRecOn with
  | nil => exact absurd h (show ¬2 * hiddenBit ≤ 0 by decide)
  | append_singleton digits c ih =>
      by_cases hshort : digitsValue radix digits < 2 * hiddenBit
      · exact ⟨digits, c, [], rfl, hshort, h⟩
      · obtain ⟨front, d, back, rfl, hfills⟩ := ih (Nat.not_lt.mp hshort)
        exact ⟨front, d, back ++ [c], by simp, hfills⟩

/-- As long as the value fits into the bits of a double, rounding behind each digit changes
nothing. -/
theorem stepwise_of_short {radix : Nat} {digits : List Char}
    (hradix : 0 < radix) (h : digitsValue radix digits < 2 * hiddenBit) :
    stepwise radix digits = digitsValue radix digits := by
  induction digits using List.reverseRecOn with
  | nil => rfl
  | append_singleton digits c ih =>
      have hshort := h
      rw [digitsValue_concat] at hshort
      have hle := Nat.le_mul_of_pos_right (digitsValue radix digits) hradix
      rw [stepwise_concat, ih (by omega), digitsValue_concat, roundNat_of_lt hshort]

section

variable {radix bits : Nat} {front back : List Char} {c : Char}

/-- Behind the digit that leads beyond 53 bits, each digit has the effect of a zero. -/
theorem stepwise_of_fills (hradix : radix = 2 ^ bits) (h : Fills radix front c)
    (hback : ∀ d ∈ back, isDigitOf radix d) :
    stepwise radix (front ++ c :: back) =
      roundNat (digitsValue radix (front ++ [c])) * radix ^ back.length := by
  subst hradix
  have hshort := isShort_roundNat (digitsValue (2 ^ bits) (front ++ [c]))
  have hlong : 2 * hiddenBit ≤ roundNat (digitsValue (2 ^ bits) (front ++ [c])) := by
    obtain ⟨significand, exponent, rest, hlead⟩ := exists_leading h.long
    exact hlead.exact.long.trans hlead.le_roundNat
  induction back using List.reverseRecOn with
  | nil =>
      rw [stepwise_concat, stepwise_of_short (Nat.two_pow_pos bits) h.short, digitsValue_concat]
      simp
  | append_singleton back d ih =>
      rw [List.forall_mem_append] at hback
      have hd : digitValue d < 2 ^ bits := digitValue_lt_radix (hback.2 d List.mem_cons_self)
      -- So far zeros only have been added, and there are 53 significant bits still.
      rw [← List.cons_append, ← List.append_assoc, stepwise_concat, ih hback.1]
      generalize roundNat (digitsValue (2 ^ bits) (front ++ [c])) = n at *
      have hshort' : IsShort (n * (2 ^ bits) ^ back.length) := by
        rw [← Nat.pow_mul]
        exact hshort.mul_two_pow _
      have hlong' : 2 * hiddenBit ≤ n * (2 ^ bits) ^ back.length :=
        hlong.trans (Nat.le_mul_of_pos_right n (Nat.pow_pos (Nat.two_pow_pos bits)))
      rw [hshort'.roundNat_extend hlong' hd, List.length_append, List.length_singleton,
        Nat.pow_succ, Nat.mul_assoc]

end

/-! ## Values -/

theorem radixValue_of_short {radix : Nat} {digits : List Char} (hradix : 0 < radix)
    (h : digitsValue radix digits < 2 * hiddenBit) :
    radixValue radix digits = .ofNat (digitsValue radix digits) := by
  rw [radixValue_eq hradix, stepwise_of_short hradix h]

/-- Once the bits are full, the digits behind only multiply what has been rounded. Their own values
are lost. -/
theorem radixValue_of_fills {radix bits : Nat} (hradix : radix = 2 ^ bits) {front back : List Char}
    {c : Char} (h : Fills radix front c) (hback : ∀ d ∈ back, isDigitOf radix d) :
    radixValue radix (front ++ c :: back) =
      .ofNat (digitsValue radix (front ++ [c]) * radix ^ back.length) := by
  have hpos : 0 < radix := hradix ▸ Nat.two_pow_pos bits
  rw [radixValue_eq hpos, stepwise_of_fills hradix h hback, hradix, ← Nat.pow_mul,
    ← roundNat_mul_two_pow, Binary64.ofNat_roundNat]

/-- The digits up to the one that leads beyond 53 bits denote a tie that is rounded down, and there
are others than zeros behind them. -/
def LosesTie (radix : Nat) (digits : List Char) : Prop :=
  ∃ front c back, digits = front ++ c :: back ∧ Fills radix front c ∧
    TiesDown (digitsValue radix (front ++ [c])) ∧ digitsValue radix back ≠ 0

/-- A literal has the nearest double for its value, unless the digits behind a tie that was rounded
down say that it is above the tie. -/
theorem radixValue_iff {radix bits : Nat} (hradix : radix = 2 ^ bits) {digits : List Char}
    (hdigits : ∀ c ∈ digits, isDigitOf radix c) :
    radixValue radix digits = .ofNat (digitsValue radix digits) ↔
      ¬(LosesTie radix digits ∧ digitsValue radix digits < numberBound) := by
  -- The digits behind the one that leads beyond 53 bits are bits behind a number.
  have hsplit {front back : List Char} {c : Char} (heq : digits = front ++ c :: back) :
      (∀ d ∈ back, isDigitOf radix d) ∧ digitsValue radix digits =
        digitsValue radix (front ++ [c]) * 2 ^ (bits * back.length) + digitsValue radix back ∧
      digitsValue radix back < 2 ^ (bits * back.length) := by
    have hback : ∀ d ∈ back, isDigitOf radix d := fun d hd => hdigits d (by simp [heq, hd])
    refine ⟨hback, ?_, ?_⟩
    · rw [heq, Nat.pow_mul, ← hradix, ← digitsValue_append]
      simp
    · rw [Nat.pow_mul, ← hradix]
      exact digitsValue_lt hback
  constructor
  · rintro hvalue ⟨⟨front, c, back, heq, hfills, hties, hmore⟩, hrange⟩
    obtain ⟨hback, hnumber, hlt⟩ := hsplit heq
    have hround := radixValue_of_fills hradix hfills hback
    rw [← heq, hvalue, hradix, ← Nat.pow_mul, ← hradix, hnumber, Binary64.ofNat_eq_iff] at hround
    rcases hround with hsame | ⟨-, hinfinite⟩
    · exact (roundNat_extend_iff hfills.long hlt).mp hsame ⟨hties, hmore⟩
    · -- What is rounded down cannot leave the range.
      have hdown := Nat.mul_le_mul_right (2 ^ (bits * back.length)) (hties.roundNat_le hfills.long)
      rw [roundNat_mul_two_pow] at hinfinite
      omega
  · intro hnot
    by_cases hshort : digitsValue radix digits < 2 * hiddenBit
    · exact radixValue_of_short (hradix ▸ Nat.two_pow_pos bits) hshort
    · obtain ⟨front, c, back, heq, hfills⟩ := exists_fills (Nat.not_lt.mp hshort)
      obtain ⟨hback, hnumber, hlt⟩ := hsplit heq
      have hround := radixValue_of_fills hradix hfills hback
      rw [heq, hround, ← heq, hradix, ← Nat.pow_mul, ← hradix, hnumber, Binary64.ofNat_eq_iff]
      by_cases hlost : TiesDown (digitsValue radix (front ++ [c])) ∧ digitsValue radix back ≠ 0
      · have hinfinite : ¬digitsValue radix digits < numberBound := fun hrange =>
          hnot ⟨⟨front, c, back, heq, hfills, hlost⟩, hrange⟩
        rw [hnumber, extend_lt_numberBound_iff hfills.long hlt] at hinfinite
        have hkept := Nat.not_lt.mp hinfinite
        exact .inr ⟨numberBound_le_roundNat hkept, numberBound_le_roundNat (by omega)⟩
      · exact .inl ((roundNat_extend_iff hfills.long hlt).mpr hlost).symm

/-! ## Literals -/

/-- A literal with a prefix is read as one token up to the first character that is none of names.
Its value is that of its digits, rounded as described. -/
theorem readToken_of_radix {letter : Char} {radix : Nat} (hletter : radixOf? letter = some radix)
    {digits : List Char} (hne : digits ≠ []) (hdigits : ∀ c ∈ digits, isDigitOf radix c)
    (before : List Char) {rest : List Char} (hrest : ∀ c ∈ rest.head?, ¬isNameChar c) :
    readToken before '0' (letter :: (digits ++ rest)) =
      .ok (⟨.number (radixValue radix digits), String.ofList ('0' :: letter :: digits),
        .behind before ('0' :: letter :: digits)⟩, rest) := by
  have hstop : ∀ c ∈ rest.head?, ¬isDigitOf radix c := by
    intro c hc hdigit
    rw [isDigitOf, Bool.and_eq_true] at hdigit
    exact hrest c hc (isNameChar_of_isHexDigit hdigit.1)
  have hread : readLexeme '0' (letter :: (digits ++ rest)) =
      .ok (⟨.number (radixValue radix digits), '0' :: letter :: digits⟩, rest) := by
    refine readLexeme_iff.mpr (.number (by decide) (by decide) rfl ?_)
    have hnumber : readNumber ('0' :: letter :: (digits ++ rest)) =
        readRadix radix ['0', letter] (digits ++ rest) := by
      simp only [readNumber, hletter]
    rw [hnumber, readRadix, Part.run]
    dsimp only
    rw [takeWhile_append_of_stop hdigits hstop, dropWhile_append_of_stop hdigits hstop]
    refine endNumber_eq_ok.mpr ⟨_, ?_, hrest, rfl⟩
    rw [List.isEmpty_eq_false_iff.mpr hne]
    rfl
  exact readToken_of_ok hread

/-- A literal behind a prefix is read as one number, wherever it stands. Its value is the double of
the number that its digits denote, unless a tie is lost; in any case it is the double of this number
with zeros for the digits behind the one that leads beyond 53 bits. -/
theorem radixLiteral_value {letter : Char} {radix : Nat} (hletter : radixOf? letter = some radix)
    {digits : List Char} (hne : digits ≠ []) (hdigits : ∀ c ∈ digits, isDigitOf radix c)
    (before : List Char) {rest : List Char} (hrest : ∀ c ∈ rest.head?, ¬isNameChar c) :
    ∃ x, readToken before '0' (letter :: (digits ++ rest)) =
        .ok (⟨.number x, String.ofList ('0' :: letter :: digits),
          .behind before ('0' :: letter :: digits)⟩, rest) ∧
      (x = .ofNat (digitsValue radix digits) ↔
        ¬(LosesTie radix digits ∧ digitsValue radix digits < numberBound)) ∧
      ∀ front c back, digits = front ++ c :: back → Fills radix front c →
        x = .ofNat (digitsValue radix (front ++ [c]) * radix ^ back.length) := by
  obtain ⟨bits, hradix⟩ := exists_bits_of_radixOf? hletter
  refine ⟨radixValue radix digits, readToken_of_radix hletter hne hdigits before hrest,
    radixValue_iff hradix hdigits, ?_⟩
  rintro front c back rfl hfills
  exact radixValue_of_fills hradix hfills fun d hd => hdigits d (by simp [hd])

/-- Seventeen more than a power of two. The first fourteen digits denote a tie, which the last digit
would break upwards. -/
def lostDigits : List Char :=
  "200000000000011".toList

theorem isDigitOf_lostDigits : ∀ c ∈ lostDigits, isDigitOf 16 c :=
  forall_mem_of_all (by decide)

/-- The first bits of the value stand at a tie, which is rounded down; the one in the last digit
comes too late to turn it. -/
theorem radixLiteral_value_tie :
    ∃ x, readToken [] '0' ('x' :: (lostDigits ++ [])) =
        .ok (⟨.number x, "0x200000000000011", ⟨0, 17⟩⟩, []) ∧
      x ≠ .ofNat (digitsValue 16 lostDigits) ∧ x = .ofNat (2 ^ 57) := by
  have hfills : Fills 16 "2000000000000".toList '1' := ⟨by decide, by decide⟩
  have hties : TiesDown (digitsValue 16 ("2000000000000".toList ++ ['1'])) :=
    ⟨hiddenBit, 0, by decide, by decide, by decide, by decide⟩
  have hlost : LosesTie 16 lostDigits :=
    ⟨"2000000000000".toList, '1', ['1'], rfl, hfills, hties, by decide⟩
  have hletter : radixOf? 'x' = some 16 := rfl
  have hend : ∀ c ∈ ([] : List Char).head?, ¬isNameChar c := by simp
  obtain ⟨x, hread, hiff, hkept⟩ :=
    radixLiteral_value hletter (by decide) isDigitOf_lostDigits [] hend
  refine ⟨x, hread, fun heq => hiff.mp heq ⟨hlost, by decide⟩, ?_⟩
  rw [hkept _ _ _ rfl hfills]
  decide

/-- The value of a literal behind a prefix is not always the double of what its digits denote. -/
theorem not_radixLiteral_rounded :
    ¬∀ (letter : Char) (radix : Nat) (digits before rest : List Char),
      radixOf? letter = some radix → digits ≠ [] → (∀ c ∈ digits, isDigitOf radix c) →
      (∀ c ∈ rest.head?, ¬isNameChar c) →
      ∃ token, readToken before '0' (letter :: (digits ++ rest)) = .ok (token, rest) ∧
        token.kind = .number (.ofNat (digitsValue radix digits)) := by
  intro hrounded
  have hletter : radixOf? 'x' = some 16 := rfl
  have hend : ∀ c ∈ ([] : List Char).head?, ¬isNameChar c := by simp
  have hread := readToken_of_radix hletter (by decide) isDigitOf_lostDigits [] hend
  obtain ⟨token, hread', hkind⟩ :=
    hrounded 'x' 16 lostDigits [] [] hletter (by decide) isDigitOf_lostDigits hend
  rw [hread] at hread'
  cases hread'
  have hvalue : radixValue 16 lostDigits ≠ .ofNat (digitsValue 16 lostDigits) := by decide
  exact hvalue (TokenKind.number.inj hkind)

end ReactiveTemplate
