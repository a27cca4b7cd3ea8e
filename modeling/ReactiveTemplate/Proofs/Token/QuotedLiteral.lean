import ReactiveTemplate.Proofs.Token.StringLiteral

/-!
# Quoted texts as literals

A string that is shown between double quotes is a string literal of the language, and its value is
the string again, whichever characters are shown by their code points. One thing is in the way: a
null character is shown as an escape that no digit may follow.
-/

namespace ReactiveTemplate

/-! ## Code points -/

theorem isHexDigit_digitChar {n : Nat} (h : n < 16) : isHexDigit n.digitChar := by
  have hall : ∀ n < 16, isHexDigit n.digitChar := by decide
  exact hall n h

theorem digitValue_digitChar {n : Nat} (h : n < 16) : digitValue n.digitChar = n := by
  have hall : ∀ n < 16, digitValue n.digitChar = n := by decide
  exact hall n h

/-- The digits of a number read as that number again. -/
theorem isHex_hexDigits (n : Nat) : IsHex (hexDigits n) ∧ digitsValue 16 (hexDigits n) = n := by
  unfold hexDigits
  induction n using Nat.strongRecOn with
  | ind n ih =>
      rcases Nat.lt_or_ge n 16 with hlt | hge
      · rw [Nat.toDigits_of_lt_base hlt]
        constructor
        · intro c hc
          rw [List.mem_singleton.mp hc]
          exact isHexDigit_digitChar hlt
        · simpa [digitsValue] using digitValue_digitChar hlt
      · obtain ⟨hhex, hvalue⟩ := ih (n / 16) (by omega)
        have hlast : n % 16 < 16 := Nat.mod_lt n (by decide)
        rw [Nat.toDigits_of_base_le (by decide) hge]
        constructor
        · intro c hc
          rcases List.mem_append.mp hc with hc | hc
          · exact hhex c hc
          · rw [List.mem_singleton.mp hc]
            exact isHexDigit_digitChar hlast
        · rw [digitsValue, List.foldl_append, ← digitsValue, hvalue, List.foldl_cons,
            List.foldl_nil, digitValue_digitChar hlast]
          omega

/-- Braces around the digits of a character make up the code point of the character. -/
theorem codePointForm_hexDigits (c : Char) :
    CodePointForm ('{' :: (hexDigits c.toNat ++ ['}'])) c.toNat := by
  obtain ⟨hhex, hvalue⟩ := isHex_hexDigits c.toNat
  have hlength : (hexDigits c.toNat).length ≤ 6 := by
    have hvalid := isValidChar_toNat c
    rw [hexDigits, Nat.length_toDigits_le_iff (by decide) (by decide)]
    simp only [Nat.isValidChar] at hvalid
    omega
  have hform := CodePointForm.braced hhex Nat.toDigits_ne_nil hlength
  rwa [hvalue] at hform

/-! ## Characters -/

section

variable {visible : Char → Bool}

/-- A character as it is shown is an element of a literal; for a null character this takes that no
digit follows. -/
theorem stringElement_quotedCharBy {c : Char} {rest : List Char}
    (hnull : c = '\x00' → ∀ d ∈ rest.head?, ¬d.isDigit) :
    StringElement '"' rest (quotedCharBy visible c) [c] := by
  unfold quotedCharBy
  split
  case h_1 => exact .escape (.null (hnull rfl))
  case h_2 | h_3 | h_4 => exact .escape (.control (by decide))
  case h_5 | h_6 => exact .escape (.plain (by decide) (by decide) (by decide))
  case h_7 hescape hquote =>
    split
    · exact .plain hquote hescape
    · exact .escape (.codePoint (codePointForm_hexDigits c))

/-- What is shown starts with a digit where a digit is shown as itself, and nowhere else. -/
theorem head_quotedCharBy (c : Char) (rest : List Char) :
    (∃ d ∈ (quotedCharBy visible c ++ rest).head?, d.isDigit) ↔ c.isDigit && visible c := by
  unfold quotedCharBy
  split
  case h_7 =>
    by_cases hvisible : visible c <;> simp [hvisible]
  all_goals simp

/-! ## Strings -/

/-- Whether a null character stands right in front of a character of the class. -/
def NullBefore (inClass : Char → Bool) (cs : List Char) : Prop :=
  ∃ c, inClass c ∧ ['\x00', c] <:+: cs

/-- Whether a null character comes directly before a character of some class is decided by the first
two characters, or further behind. -/
theorem nullBefore_cons {inClass : Char → Bool} {c : Char} {cs : List Char} :
    NullBefore inClass (c :: cs) ↔
      (c = '\x00' ∧ ∃ d ∈ cs.head?, inClass d) ∨ NullBefore inClass cs := by
  have hpair (d : Char) : ['\x00', d] <+: c :: cs ↔ c = '\x00' ∧ cs.head? = some d := by
    rw [List.cons_prefix_cons, List.singleton_prefix_iff_head?_eq_some]
    exact and_congr_left fun _ => eq_comm
  simp only [NullBefore, List.infix_cons_iff, hpair, Option.mem_def, and_or_left, exists_or]
  refine or_congr_left ⟨?_, ?_⟩
  · rintro ⟨d, hd, hc, hhead⟩
    exact ⟨hc, d, hhead, hd⟩
  · rintro ⟨hc, d, hhead, hd⟩
    exact ⟨d, hd, hc, hhead⟩

/-- Whether `c` is a digit and shown as itself. -/
def isShownDigit (visible : Char → Bool) (c : Char) : Bool :=
  c.isDigit && visible c

theorem head_flatMap (cs : List Char) :
    (∃ d ∈ (cs.flatMap (quotedCharBy visible) ++ ['"']).head?, d.isDigit) ↔
      ∃ d ∈ cs.head?, isShownDigit visible d := by
  cases cs with
  | nil => simp
  | cons c cs =>
      rw [List.flatMap_cons, List.append_assoc, head_quotedCharBy]
      simp [isShownDigit]

/-- As long as no null character stands in front of a digit, what is shown is a body. -/
theorem stringBody_flatMap {cs : List Char} (h : ¬NullBefore (isShownDigit visible) cs) :
    StringBody '"' ['"'] (cs.flatMap (quotedCharBy visible)) cs := by
  induction cs with
  | nil => exact .nil
  | cons c cs ih =>
      rw [nullBefore_cons, not_or] at h
      rw [List.flatMap_cons]
      refine .cons (stringElement_quotedCharBy ?_) (ih h.2)
      intro hc d hd hdigit
      exact h.1 ⟨hc, (head_flatMap cs).mp ⟨d, hd, hdigit⟩⟩

/-- A zero behind a backslash goes wrong in front of a digit, and all digits there belong to it. -/
theorem exists_brokenEscape_zero {cs : List Char} (h : ∃ d ∈ cs.head?, d.isDigit) :
    ∃ digits rest, cs = digits ++ rest ∧ BrokenEscape rest ('0' :: digits) := by
  obtain ⟨d, hd, hdigit⟩ := h
  have hsplit := List.takeWhile_append_dropWhile (p := Char.isDigit) (l := cs)
  refine ⟨cs.takeWhile Char.isDigit, cs.dropWhile Char.isDigit, hsplit.symm,
    .octal (by decide) (fun c hc => of_mem_takeWhile hc) (fun c hc => not_of_head_dropWhile hc) ?_⟩
  intro _ hnone
  rw [hnone, List.nil_append] at hsplit
  exact not_of_head_dropWhile (hsplit.symm ▸ hd) hdigit

/-- The escape of the first null character that stands in front of a digit goes wrong. -/
theorem exists_broken_flatMap {cs : List Char} (h : NullBefore (isShownDigit visible) cs) :
    ∃ text value escape rest,
      cs.flatMap (quotedCharBy visible) ++ ['"'] = text ++ '\\' :: (escape ++ rest) ∧
      StringBody '"' ('\\' :: (escape ++ rest)) text value ∧ BrokenEscape rest escape := by
  induction cs with
  | nil => simp [NullBefore] at h
  | cons c cs ih =>
      by_cases hfirst : c = '\x00' ∧ ∃ d ∈ cs.head?, isShownDigit visible d
      · obtain ⟨rfl, hshown⟩ := hfirst
        obtain ⟨digits, rest, hcs, hbroken⟩ :=
          exists_brokenEscape_zero ((head_flatMap cs).mpr hshown)
        refine ⟨[], [], '0' :: digits, rest, ?_, .nil, hbroken⟩
        rw [List.nil_append, List.cons_append, ← hcs]
        rfl
      · rw [nullBefore_cons] at h
        obtain ⟨text, value, escape, rest, hcs, hbody, hbroken⟩ := ih (h.resolve_left hfirst)
        refine ⟨quotedCharBy visible c ++ text, [c] ++ value, escape, rest, ?_, ?_, hbroken⟩
        · rw [List.flatMap_cons, List.append_assoc, hcs, List.append_assoc]
        · refine .cons (stringElement_quotedCharBy ?_) hbody
          rw [← hcs]
          intro hc d hd hdigit
          exact hfirst ⟨hc, (head_flatMap cs).mp ⟨d, hd, hdigit⟩⟩

end

/-! ## Literals -/

/-- `text` is a literal with the value `s`, from its start to its end; where it is `broken`, an
escape in it is to blame. -/
structure LiteralUnless (broken : Prop) (s text : String) : Prop where
  token : ¬broken → tokenize text = .ok [⟨.string s, text, ⟨0, text.utf8ByteSize⟩⟩]
  error : broken → ∃ e, tokenize text = .error e ∧ e.fault.kind = .invalidEscape

/-- A source that begins with a quote is tokenized by reading that string and then going on behind
it. -/
theorem tokenize_quote (cs : List Char) :
    tokenize (String.ofList ('"' :: cs)) =
      match readToken [] '"' cs with
      | .ok (token, rest) => (Cursor.tokensFrom [token] token.span.stop rest).1
      | .error e => .error e := by
  rw [tokenize, Cursor.ofSource, Cursor.tokens, String.toList_ofList]
  exact Cursor.tokensFrom_eq_readToken (by decide) [] [] cs

/-- A quoted text is the literal of the string that it quotes, whichever characters are shown as
they are. It is no literal if a null comes before a digit that is shown. -/
theorem literalUnless_quotedBy (visible : Char → Bool) (s : String) :
    LiteralUnless (NullBefore (isShownDigit visible) s.toList) s (quotedBy visible s) := by
  have htokenize := tokenize_quote (s.toList.flatMap (quotedCharBy visible) ++ ['"'])
  constructor
  · intro hplain
    have hliteral : readToken [] '"' _ = _ :=
      readToken_of_stringAt rfl (.literal rfl (stringBody_flatMap hplain))
    rw [hliteral] at htokenize
    simp only [Cursor.tokensFrom, List.reverse_singleton, String.ofList_toList] at htokenize
    rw [quotedBy, ← byteWidth_toList, String.toList_ofList]
    exact htokenize
  · intro hnull
    obtain ⟨text, value, escape, rest, hcs, hbody, hbroken⟩ := exists_broken_flatMap hnull
    have herror : readToken [] '"' _ = _ :=
      readToken_of_stringAt rfl (.broken hcs hbody hbroken)
    rw [herror] at htokenize
    exact ⟨_, htokenize, rfl⟩

/-- Digits are among the characters that are shown as they are, so that a null in front of one is
always in danger. -/
theorem isVisible_of_isDigit {c : Char} (h : c.isDigit) : isVisible c := by
  have hall : ∀ n < 128, (!(Char.ofNat n).isDigit || isVisible (Char.ofNat n)) := by
    decide +kernel
  have hc := forall_basic (p := fun c => !c.isDigit || isVisible c) hall
    (toNat_lt_of_isHexDigit (isHexDigit_of_isDigit h))
  simpa [h] using hc

/-- A string is shown as a literal with that value, unless a null character in it stands in front of
a digit; then the literal holds an escape that is none. The same is true for every other choice of
the characters that are shown by their code points, where a digit shown in this way is no digit any
more. -/
theorem literalUnless_display (s : String) :
    LiteralUnless (NullBefore Char.isDigit s.toList) s (Value.string s).display ∧
    ∀ visible : Char → Bool,
      LiteralUnless (NullBefore (isShownDigit visible) s.toList) s (quotedBy visible s) := by
  have hdigits : isShownDigit isVisible = Char.isDigit := by
    funext c
    cases hc : c.isDigit <;> simp [isShownDigit, hc, isVisible_of_isDigit]
  have hdisplay := literalUnless_quotedBy isVisible s
  rw [hdigits] at hdisplay
  exact ⟨hdisplay, fun visible => literalUnless_quotedBy visible s⟩

/-- The same two characters, next to each other and apart. -/
example : (tokenize (Value.string "\x007").display).toOption = none ∧
    (tokenize (Value.string "7\x00").display).toOption.map (·.map Token.kind) =
      some [.string "7\x00"] := by
  decide +kernel

end ReactiveTemplate
