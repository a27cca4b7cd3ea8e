import ReactiveTemplate.Unicode.DefaultIgnorable
import ReactiveTemplate.Unicode.GraphemeExtend
import ReactiveTemplate.Unicode.Printable

/-!
# Quoted texts

The written form of a string value: double quotes around its characters, with a short escape for the
common control characters and a code point escape for whatever cannot be seen in print.
-/

namespace ReactiveTemplate

/-- The lower-case hexadecimal digits of `n`. -/
def hexDigits (n : Nat) : List Char :=
  Nat.toDigits 16 n

/-- Whether `c` is a half-width sound mark. The two of them extend the character before them, but
they are letters and take up a place of their own. -/
def isSoundMark (c : Char) : Bool :=
  c = '\uff9e' || c = '\uff9f'

/-- Whether `c` can be seen in print and told apart from the characters around it. -/
def isVisible (c : Char) : Bool :=
  Unicode.isPrintable c && !Unicode.isDefaultIgnorable c &&
    (!Unicode.isGraphemeExtend c || isSoundMark c)

/-- How one character is written between double quotes, where characters outside of the class
`visible` have code point escapes. -/
def quotedCharBy (visible : Char → Bool) (c : Char) : List Char :=
  match c with
  | '\x00' => ['\\', '0']
  | '\t' => ['\\', 't']
  | '\r' => ['\\', 'r']
  | '\n' => ['\\', 'n']
  | '\\' => ['\\', '\\']
  | '"' => ['\\', '"']
  | c =>
      if visible c then [c]
      else '\\' :: 'u' :: '{' :: hexDigits c.toNat ++ ['}']

/-- A string between double quotes, where `visible` says which characters can be seen. -/
def quotedBy (visible : Char → Bool) (s : String) : String :=
  String.ofList ('"' :: s.toList.flatMap (quotedCharBy visible) ++ ['"'])

/-- A string between double quotes. -/
def quoted (s : String) : String :=
  quotedBy isVisible s

end ReactiveTemplate
