import ReactiveTemplate.Text.Part

/-!
# Escapes

A backslash in a string starts an escape. `Escape.read` reads what follows the backslash: a letter
for a control character, a code point in hexadecimal, a line break that is left out, or a character
that stands for itself. Two escapes that denote the halves of a surrogate pair denote one character.
-/

namespace ReactiveTemplate

/-- Whether `c` is a hexadecimal digit. -/
def isHexDigit (c : Char) : Bool :=
  c.isDigit || ('a' ≤ c && c ≤ 'f') || ('A' ≤ c && c ≤ 'F')

/-- The value of a digit in bases up to sixteen. -/
def digitValue (c : Char) : Nat :=
  if c.isDigit then c.toNat - '0'.toNat
  else if 'a' ≤ c && c ≤ 'f' then c.toNat - 'a'.toNat + 10
  else c.toNat - 'A'.toNat + 10

/-- The number that a run of digits denotes. -/
def digitsValue (radix : Nat) (digits : List Char) : Nat :=
  digits.foldl (fun n c => n * radix + digitValue c) 0

/-- Whether `code` is the first half of a surrogate pair. -/
def isHighSurrogate (code : Nat) : Bool :=
  0xD800 ≤ code && code ≤ 0xDBFF

/-- Whether `code` is the second half of a surrogate pair. -/
def isLowSurrogate (code : Nat) : Bool :=
  0xDC00 ≤ code && code ≤ 0xDFFF

/-- The code point of a surrogate pair. -/
def surrogatePair (high low : Nat) : Nat :=
  0x10000 + (high - 0xD800) * 0x400 + (low - 0xDC00)

/-- What follows a backslash in a string. -/
inductive Escape where
  /-- An escape written `text` that stands for the characters `value`. -/
  | means (value text rest : List Char)
  /-- Not an escape: the text up to the point where it goes wrong. -/
  | malformed (text rest : List Char)
  /-- The source ends. -/
  | unfinished
deriving DecidableEq, Inhabited

namespace Escape

/-- Exactly `count` hexadecimal digits. When some are missing the part ends where they do and stands
for no number. -/
def readHex (count : Nat) (cs : List Char) : Part (Option Nat) :=
  let digits := (cs.take count).takeWhile isHexDigit
  ⟨if digits.length = count then some (digitsValue 16 digits) else none, digits,
    cs.drop digits.length⟩

/-- A code point after `\u`: four hexadecimal digits, or up to six of them in braces. A malformed
one ends after its digits and stands for no number. -/
def readCodePoint : List Char → Part (Option Nat)
  | '{' :: cs =>
      let digits := cs.takeWhile isHexDigit
      match cs.dropWhile isHexDigit with
      | '}' :: rest =>
          if digits.isEmpty || 6 < digits.length then ⟨none, '{' :: digits, '}' :: rest⟩
          else ⟨some (digitsValue 16 digits), '{' :: digits ++ ['}'], rest⟩
      | rest => ⟨none, '{' :: digits, rest⟩
  | cs => readHex 4 cs

/-- The escape `text` for a code point, malformed when it is none or not that of a character. -/
def ofCodePoint (code : Option Nat) (text rest : List Char) : Escape :=
  match code with
  | some code => if code.isValidChar then means [Char.ofNat code] text rest else malformed text rest
  | none => malformed text rest

/-- The second half of a surrogate pair, if it comes next: `\u` and a code point. -/
def readLowSurrogate? : List Char → Option (Part Nat)
  | '\\' :: 'u' :: cs =>
      match readCodePoint cs with
      | ⟨some low, text, rest⟩ =>
          if isLowSurrogate low then some ⟨low, '\\' :: 'u' :: text, rest⟩ else none
      | _ => none
  | _ => none

/-- An escape that starts with `\u`, from the code point on. -/
def readUnicode (cs : List Char) : Escape :=
  match readCodePoint cs with
  | ⟨some high, text, rest⟩ =>
      if isHighSurrogate high then
        match readLowSurrogate? rest with
        | some low =>
            ofCodePoint (some (surrogatePair high low.value)) ('u' :: text ++ low.text) low.rest
        | none => malformed ('u' :: text) rest
      else ofCodePoint (some high) ('u' :: text) rest
  | ⟨none, text, rest⟩ => malformed ('u' :: text) rest

/-- The escape after a backslash. A zero denotes the null character unless a digit follows; other
escapes by octal number are malformed. -/
def read : List Char → Escape
  | [] => unfinished
  | 'n' :: cs => means ['\n'] ['n'] cs
  | 't' :: cs => means ['\t'] ['t'] cs
  | 'r' :: cs => means ['\r'] ['r'] cs
  | 'b' :: cs => means ['\x08'] ['b'] cs
  | 'f' :: cs => means ['\x0c'] ['f'] cs
  | 'v' :: cs => means ['\x0b'] ['v'] cs
  | 'x' :: cs =>
      let code := readHex 2 cs
      ofCodePoint code.value ('x' :: code.text) code.rest
  | 'u' :: cs => readUnicode cs
  | '\r' :: '\n' :: cs => means [] ['\r', '\n'] cs
  | c :: cs =>
      if c = '0' && !(cs.head?.any Char.isDigit) then means ['\x00'] ['0'] cs
      else if '0' ≤ c && c ≤ '7' then
        malformed (c :: cs.takeWhile Char.isDigit) (cs.dropWhile Char.isDigit)
      else if c = '\r' || c = '\n' || c = '\u2028' || c = '\u2029' then means [] [c] cs
      else means [c] [c] cs

/-! ## Nothing is lost -/

theorem readHex_splits (count : Nat) (cs : List Char) : (readHex count cs).Splits cs := by
  have hprefix : (cs.take count).takeWhile isHexDigit <+: cs :=
    (List.takeWhile_prefix _).trans (List.take_prefix _ _)
  obtain ⟨rest, hrest⟩ := hprefix
  simp only [Part.Splits, readHex]
  generalize (cs.take count).takeWhile isHexDigit = digits at hrest
  subst hrest
  simp

theorem readCodePoint_splits (cs : List Char) : (readCodePoint cs).Splits cs := by
  unfold readCodePoint
  split
  · next cs =>
      have hsplit := List.takeWhile_append_dropWhile (p := isHexDigit) (l := cs)
      split
      · next rest hrest =>
          rw [hrest] at hsplit
          dsimp only
          split <;> simp [Part.Splits, hsplit]
      · simp [Part.Splits, hsplit]
  · exact readHex_splits 4 _

theorem readLowSurrogate?_splits {cs : List Char} {low : Part Nat}
    (h : readLowSurrogate? cs = some low) : low.Splits cs := by
  unfold readLowSurrogate? at h
  split at h
  · next cs =>
      have hsplit := readCodePoint_splits cs
      split at h
      · next hread =>
          rw [hread] at hsplit
          split at h
          · cases h
            exact congrArg (fun cs => '\\' :: 'u' :: cs) hsplit
          · contradiction
      · contradiction
  · contradiction

theorem eq_of_ofCodePoint {code : Option Nat} {text rest value text' rest' : List Char}
    (h : ofCodePoint code text rest = means value text' rest') : text' = text ∧ rest' = rest := by
  unfold ofCodePoint at h
  split at h
  · split at h
    · cases h
      exact ⟨rfl, rfl⟩
    · contradiction
  · contradiction

/-- Nothing of what follows a backslash is lost, escape or not. -/
def Splits (cs : List Char) : Escape → Prop
  | means _ text rest | malformed text rest => text ++ rest = cs
  | unfinished => cs = []

theorem ofCodePoint_splits {code : Option Nat} {text rest cs : List Char} (h : text ++ rest = cs) :
    (ofCodePoint code text rest).Splits cs := by
  unfold ofCodePoint
  split
  · split <;> exact h
  · exact h

theorem readUnicode_splits (cs : List Char) : (readUnicode cs).Splits ('u' :: cs) := by
  have hsplit := readCodePoint_splits cs
  unfold readUnicode
  split
  · next high text rest hread =>
      rw [hread] at hsplit
      have htext : 'u' :: text ++ rest = 'u' :: cs := congrArg ('u' :: ·) hsplit
      split
      · split
        · next low hlow =>
            refine ofCodePoint_splits ?_
            rw [List.append_assoc, readLowSurrogate?_splits hlow, htext]
        · exact htext
      · exact ofCodePoint_splits htext
  · next text rest hread =>
      rw [hread] at hsplit
      exact congrArg ('u' :: ·) hsplit

/-- What an escape takes and what it leaves make up what it was read from, so that no character of a
string is lost. -/
theorem read_splits (cs : List Char) : (read cs).Splits cs := by
  unfold read
  split
  case h_8 cs => exact ofCodePoint_splits (congrArg ('x' :: ·) (readHex_splits 2 cs))
  case h_9 cs => exact readUnicode_splits cs
  case h_11 c cs _ _ _ _ _ _ _ _ _ =>
    split
    · next hzero =>
        rw [Bool.and_eq_true, decide_eq_true_eq] at hzero
        rw [hzero.1]
        rfl
    · split
      · exact congrArg (c :: ·) List.takeWhile_append_dropWhile
      · split <;> rfl
  all_goals rfl

/-- The text of an escape and what comes after it make up the text that was read. -/
theorem append_read {cs value text rest : List Char} (h : read cs = means value text rest) :
    text ++ rest = cs := by
  have hsplit := read_splits cs
  rwa [h] at hsplit

/-- What comes after an escape is no longer than what comes after its backslash. -/
theorem length_le_of_read {cs value text rest : List Char} (h : read cs = means value text rest) :
    rest.length ≤ cs.length := by
  rw [← append_read h]
  simp

end Escape

end ReactiveTemplate
