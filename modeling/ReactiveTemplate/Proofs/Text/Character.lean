import ReactiveTemplate.Text.Name
import ReactiveTemplate.Token.Escape
import ReactiveTemplate.Unicode.Blank

/-!
# Classes of characters

How the classes of characters lie to each other. The basic characters are settled by looking at all
of them; so are the few blank ones beyond them.
-/

namespace ReactiveTemplate

theorem forall_basic {p : Char → Bool} (h : ∀ n < 128, p (Char.ofNat n)) {c : Char}
    (hc : c.toNat < 128) : p c := by
  have hchar := h c.toNat hc
  rwa [Char.ofNat_toNat] at hchar

/-- To settle something for the characters of a list, it is enough to look at each of them. -/
theorem forall_mem_of_all {p : Char → Prop} [DecidablePred p] {cs : List Char}
    (h : cs.all fun c => p c) : ∀ c ∈ cs, p c := by
  simpa using h

/-! ## Digits -/

theorem toNat_lt_of_isHexDigit {c : Char} (h : isHexDigit c) : c.toNat < 128 := by
  have hval : c.toNat = c.val.toNat := rfl
  simp only [isHexDigit, Char.isDigit, Char.le_def, UInt32.le_iff_toNat_le, Bool.or_eq_true,
    Bool.and_eq_true, decide_eq_true_eq] at h
  simp at h
  omega

theorem isHexDigit_of_isDigit {c : Char} (h : c.isDigit) : isHexDigit c := by
  simp [isHexDigit, h]

theorem isNameChar_of_isHexDigit {c : Char} (h : isHexDigit c) : isNameChar c := by
  have hall : ∀ n < 128, (!isHexDigit (Char.ofNat n) || isNameChar (Char.ofNat n)) := by
    decide +kernel
  have hc := forall_basic (p := fun c => !isHexDigit c || isNameChar c) hall
    (toNat_lt_of_isHexDigit h)
  simpa [h] using hc

theorem isNameChar_of_isDigit {c : Char} (h : c.isDigit) : isNameChar c :=
  isNameChar_of_isHexDigit (isHexDigit_of_isDigit h)

theorem not_isNameStart_of_isDigit {c : Char} (h : c.isDigit) : ¬isNameStart c := by
  have hall : ∀ n < 128, (!(Char.ofNat n).isDigit || !isNameStart (Char.ofNat n)) := by
    decide +kernel
  have hc := forall_basic (p := fun c => !c.isDigit || !isNameStart c) hall
    (toNat_lt_of_isHexDigit (isHexDigit_of_isDigit h))
  simpa [h] using hc

/-! ## Blank characters -/

/-- The code points of the blank characters. -/
def blankCodes : List Nat :=
  [0x9, 0xA, 0xB, 0xC, 0xD, 0x20, 0x85, 0xA0, 0x1680, 0x2000, 0x2001, 0x2002, 0x2003, 0x2004,
    0x2005, 0x2006, 0x2007, 0x2008, 0x2009, 0x200A, 0x2028, 0x2029, 0x202F, 0x205F, 0x3000]

theorem mem_blankCodes {c : Char} (h : Unicode.isBlank c) : c.toNat ∈ blankCodes := by
  simp only [Unicode.isBlank, Bool.or_eq_true, Bool.and_eq_true, beq_iff_eq, decide_eq_true_eq] at h
  simp only [blankCodes, List.mem_cons, List.not_mem_nil, or_false]
  omega

/-- What is to be said of blank characters can be tried out on all of them, since they are
listed. -/
theorem forall_blank {p : Char → Bool} (h : ∀ n ∈ blankCodes, p (Char.ofNat n)) {c : Char}
    (hc : Unicode.isBlank c) : p c := by
  have hchar := h c.toNat (mem_blankCodes hc)
  rwa [Char.ofNat_toNat] at hchar

/-- No blank character is a part of a name, and so every name ends in front of one. -/
theorem not_isNameChar_of_isBlank {c : Char} (h : Unicode.isBlank c) : ¬isNameChar c := by
  have hall : ∀ n ∈ blankCodes, !isNameChar (Char.ofNat n) := by
    decide +kernel
  simpa using forall_blank (p := fun c => !isNameChar c) hall h

end ReactiveTemplate
