import ReactiveTemplate.Expr.Basic

/-!
# Printing expressions

An expression is printed as source text on one line. Operator expressions and filters are put into
parentheses where they are operands, so that no reader has to know the precedence of operators; a
number whose member is taken is too, since its point would be read as a part of the number.
-/

namespace ReactiveTemplate

namespace Expr

/-- The text of an operand. -/
def operand (e : Expr) (text : String) : String :=
  if e.isCompound then "(" ++ text ++ ")" else text

/-- The text of what is called or whose member is taken. -/
def operated (e : Expr) (text : String) : String :=
  if e.isNumber then "(" ++ text ++ ")" else operand e text

/-- The text of a property with the given texts of its key and value. -/
def propertyText (computed shorthand : Bool) (key value : String) : String :=
  if shorthand then key
  else if computed then "[" ++ key ++ "]: " ++ value
  else key ++ ": " ++ value

mutual

/-- An expression as source text. -/
def print : Expr → String
  | identifier _ name => name
  | literal _ _ raw => raw
  | member _ base property computed =>
      operated base base.print ++
        if computed then "[" ++ property.print ++ "]" else "." ++ property.print
  | call _ callee arguments filter =>
      match filter, arguments with
      | true, [input] => input.print ++ " | " ++ callee.print
      | true, input :: first :: rest =>
          input.print ++ " | " ++ callee.print ++ "(" ++ printMore first.print rest ++ ")"
      | _, [] => operated callee callee.print ++ "()"
      | false, first :: rest =>
          operated callee callee.print ++ "(" ++ printMore first.print rest ++ ")"
  | conditional _ test consequent alternate =>
      operand test test.print ++ " ? " ++ operand consequent consequent.print ++ " : " ++
        operand alternate alternate.print
  | object _ properties =>
      match properties with
      | [] => "{}"
      | ⟨key, value, computed, shorthand⟩ :: rest =>
          let text := propertyText computed shorthand key.print value.print
          r"{" ++ printMoreProperties text rest ++ r"}"
  | array _ elements =>
      match elements with
      | [] => "[]"
      | first :: rest => "[" ++ printMore first.print rest ++ "]"
  | unary _ operator _ argument => operator.text ++ operand argument argument.print
  | binary _ operator left right =>
      operand left left.print ++ " " ++ operator.text ++ " " ++ operand right right.print

/-- Expressions after the text `done`, separated by commas. -/
def printMore (done : String) : List Expr → String
  | [] => done
  | e :: es => printMore (done ++ ", " ++ e.print) es

/-- Properties after the text `done`, separated by commas. -/
def printMoreProperties (done : String) : List Property → String
  | [] => done
  | ⟨key, value, computed, shorthand⟩ :: ps =>
      printMoreProperties
        (done ++ ", " ++ propertyText computed shorthand key.print value.print) ps

end

end Expr

end ReactiveTemplate
