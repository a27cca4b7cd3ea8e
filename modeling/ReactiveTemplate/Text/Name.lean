import ReactiveTemplate.Unicode.Alphabetic
import ReactiveTemplate.Unicode.Numeric

/-!
# Names

Variables, filters, decorators and their labels share one form of name: an alphabetic character, an
underscore or a dollar sign, followed by any number of these and of numeric characters.
-/

namespace ReactiveTemplate

/-- Whether a name may start with `c`. -/
def isNameStart (c : Char) : Bool :=
  Unicode.isAlphabetic c || c == '_' || c == '$'

/-- Whether a name may go on with `c`. -/
def isNameChar (c : Char) : Bool :=
  isNameStart c || Unicode.isNumeric c

/-- The longest name at the head of a text, and the text after it. -/
def readName? : List Char → Option (List Char × List Char)
  | [] => none
  | c :: cs =>
      if isNameStart c then some (c :: cs.takeWhile isNameChar, cs.dropWhile isNameChar) else none

end ReactiveTemplate
