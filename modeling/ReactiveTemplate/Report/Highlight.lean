import ReactiveTemplate.Text.Name

/-!
# Highlighting a line

In a colored report the source line shows its strings, numbers and brackets in colors of their own.
The line is read character by character; a `Highlight.Mode` says what the next one may be part of.
-/

namespace ReactiveTemplate

/-- The sequence that ends a color. -/
def colorReset : String :=
  "\x1b[0m"

namespace Highlight

/-- The color of strings. -/
def stringColor : String :=
  "\x1b[38;5;72m"

/-- The color of numbers. -/
def numberColor : String :=
  "\x1b[38;5;73m"

/-- The color of brackets around decorators. -/
def bracketColor : String :=
  "\x1b[38;5;180m"

/-- What a character may be part of. -/
inductive Mode where
  | plain
  | name
  | number
  | string (quote : Char)
  /-- Right behind a backslash in a string. -/
  | escape (quote : Char)
deriving DecidableEq, Inhabited

/-- Whether a number goes on with `c`. -/
def isNumberChar (c : Char) : Bool :=
  c.isAlphanum || c = '.'

/-- Whether `c` is a bracket that a decorator may stand in. -/
def isBracket (c : Char) : Bool :=
  c = '[' || c = ']' || c = '{' || c = '}'

/-- The text behind `out` with a character that is not part of what comes before it. -/
def start (out : String) (c : Char) : Mode × String :=
  if c = '"' || c = '\'' then (.string c, (out ++ stringColor).push c)
  else if c.isDigit then (.number, (out ++ numberColor).push c)
  else if isNameStart c then (.name, out.push c)
  else if isBracket c then (.plain, (out ++ bracketColor).push c ++ colorReset)
  else (.plain, out.push c)

/-- One more character of a line. -/
def step (state : Mode × String) (c : Char) : Mode × String :=
  let (mode, out) := state
  match mode with
  | .plain => start out c
  | .name => if isNameChar c then (.name, out.push c) else start out c
  | .number => if isNumberChar c then (.number, out.push c) else start (out ++ colorReset) c
  | .escape quote => (.string quote, out.push c)
  | .string quote =>
      if c = quote then (.plain, out.push c ++ colorReset)
      else if c = '\\' then (.escape quote, out.push c)
      else (.string quote, out.push c)

/-- The text of a line that has been read to its end. -/
def finish (state : Mode × String) : String :=
  match state.1 with
  | .plain | .name => state.2
  | .number | .string _ | .escape _ => state.2 ++ colorReset

end Highlight

/-- A line with its strings, numbers and brackets in color. -/
def highlight (line : String) : String :=
  Highlight.finish (line.toList.foldl Highlight.step (.plain, ""))

end ReactiveTemplate
