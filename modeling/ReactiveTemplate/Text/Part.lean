/-!
# Parts of a text

A reader takes a part off the head of a text and says what it stands for.
-/

namespace ReactiveTemplate

/-- A part taken off the head of a text: what it stands for, its text, and what comes after it. -/
structure Part (α : Type) where
  value : α
  text : List Char
  rest : List Char
deriving DecidableEq

namespace Part

/-- A part of a given text: nothing is lost. -/
def Splits {α : Type} (part : Part α) (cs : List Char) : Prop :=
  part.text ++ part.rest = cs

/-- The longest run of characters in a class. -/
def run (inClass : Char → Bool) (cs : List Char) : Part (List Char) :=
  ⟨cs.takeWhile inClass, cs.takeWhile inClass, cs.dropWhile inClass⟩

theorem run_splits (inClass : Char → Bool) (cs : List Char) : (run inClass cs).Splits cs :=
  List.takeWhile_append_dropWhile

end Part

end ReactiveTemplate
